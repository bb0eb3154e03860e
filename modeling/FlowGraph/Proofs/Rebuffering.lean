import FlowGraph.Proofs.Reference

/-! Models that differ in nothing but what their nodes hold. Computing takes a model to another one
of these, and leaves the meaning of every node as it is. -/
namespace FlowGraph

/-- The node with other values in its buffer, as many as before. -/
def Node.Rebuffers (n n' : Node) : Prop :=
  ∃ values : List n.type.Value, values.length = n.size ∧ n' = { n with buffer := values }

namespace Node.Rebuffers

variable {n n' n'' : Node}

theorem refl (n : Node) : n.Rebuffers n := ⟨n.buffer, rfl, rfl⟩

theorem trans (h : n.Rebuffers n') (h' : n'.Rebuffers n'') : n.Rebuffers n'' := by
  obtain ⟨values, hvalues, rfl⟩ := h
  obtain ⟨values', hvalues', rfl⟩ := h'
  exact ⟨values', hvalues'.trans hvalues, rfl⟩

theorem sameShape (h : n.Rebuffers n') : n.SameShape n' := by
  rcases n with ⟨id, t, body, buffer⟩
  obtain ⟨values, hvalues, rfl⟩ := h
  cases body <;> exact ⟨rfl, rfl, hvalues, rfl⟩

theorem sized (h : n.Rebuffers n') (hn : n.Sized) : n'.Sized := by
  rcases n with ⟨id, t, body, buffer⟩
  obtain ⟨values, hvalues, rfl⟩ := h
  cases body with
  | input given => exact hn.trans hvalues.symm
  | constant given => exact hn.trans hvalues.symm
  | output source => exact hn.trans hvalues.symm
  | operation numeric op left right => exact ⟨hn.1.trans hvalues.symm, hn.2.trans hvalues.symm⟩

end Node.Rebuffers

theorem Node.value?_buffer (n : Node) (values : List n.type.Value)
    (v : NodeId → Option (List n.type.Value)) :
    Node.value? { n with buffer := values } v = n.value? v := by
  rcases n with ⟨id, t, body, buffer⟩
  cases body <;> rfl

/-- The model with other values in the buffers. -/
def Model.Rebuffers (m m' : Model) : Prop :=
  ∃ g : Node → Node, (∀ n ∈ m.nodes, n.Rebuffers (g n)) ∧ m' = m.mapNodes g

namespace Model

/-- What a node for elements of type `t` holds. -/
def buffer? (m : Model) (t : ElementType) (id : NodeId) : Option (List t.Value) := do
  let n ← m.node? id
  if same : n.type = t then some (same ▸ n.buffer) else none

theorem buffer?_of_node? {m : Model} {id : NodeId} {n : Node} (h : m.node? id = some n) :
    m.buffer? n.type id = some n.buffer := by
  simp [buffer?, h]

namespace Rebuffers

variable {m m' m'' : Model}

theorem refl (m : Model) : m.Rebuffers m :=
  ⟨id, fun n _ => .refl n, by simp [mapNodes]⟩

theorem trans (h : m.Rebuffers m') (h' : m'.Rebuffers m'') : m.Rebuffers m'' := by
  obtain ⟨g, hg, rfl⟩ := h
  obtain ⟨g', hg', rfl⟩ := h'
  refine ⟨g' ∘ g, fun n hn => ?_, by simp [mapNodes]⟩
  exact (hg n hn).trans (hg' (g n) (List.mem_map_of_mem hn))

theorem ids (h : m.Rebuffers m') : m'.ids = m.ids := by
  obtain ⟨g, hg, rfl⟩ := h
  exact ids_mapNodes fun n hn => (hg n hn).sameShape.id

theorem node? (h : m.Rebuffers m') {id : NodeId} {n : Node} (hn : m.node? id = some n) :
    ∃ n', m'.node? id = some n' ∧ n.Rebuffers n' := by
  obtain ⟨g, hg, rfl⟩ := h
  refine ⟨g n, ?_, hg n (node?_eq_some hn).1⟩
  rw [node?_mapNodes fun n hn => (hg n hn).sameShape.id, hn, Option.map_some]

theorem order (h : m.Rebuffers m') {ids : List NodeId} (ho : m.order = .ok ids) :
    m'.order = .ok ids := by
  obtain ⟨g, hg, rfl⟩ := h
  exact order_mapNodes (fun n hn => (hg n hn).sameShape) ho

theorem wellFormed (h : m.Rebuffers m') (hm : m.WellFormed) : m'.WellFormed := by
  obtain ⟨g, hg, rfl⟩ := h
  exact wellFormed_mapNodes hm (fun n hn => (hg n hn).sameShape)
    fun n hn => (hg n hn).sized (hm.sized n hn)

theorem resolves (h : m.Rebuffers m') {t : ElementType} {s : Span} (hs : s.Resolves m t) :
    s.Resolves m' t := by
  obtain ⟨n, hn, hname, htype, hstop⟩ := hs
  obtain ⟨n', hn', hshape⟩ := h.node? hn
  exact ⟨n', hn', hname, hshape.sameShape.type.trans htype, by rwa [hshape.sameShape.size]⟩

/-- Meaning does not look at buffers. -/
theorem reference (h : m.Rebuffers m') (t : ElementType) (id : NodeId) :
    m'.reference t id = m.reference t id := by
  obtain ⟨g, hg, rfl⟩ := h
  -- at every depth, since a value is put together from values one level below
  have hwithin : ∀ depth (t : ElementType) (id : NodeId),
      (m.mapNodes g).valueWithin t depth id = m.valueWithin t depth id := by
    intro depth
    induction depth with
    | zero => exact fun t id => rfl
    | succ depth ih =>
      intro t id
      simp only [valueWithin]
      rw [node?_mapNodes fun n hn => (hg n hn).sameShape.id]
      cases hf : m.node? id with
      | none => rfl
      | some n =>
        obtain ⟨values, -, hvalues⟩ := hg n (node?_eq_some hf).1
        simp only [Option.map_some, Option.bind_eq_bind, Option.bind_some, hvalues,
          Node.value?_buffer, funext (ih n.type)]
  have hsize : (m.mapNodes g).size = m.size := by simp [size, mapNodes]
  rw [Model.reference, Model.reference, hsize]
  exact hwithin m.size t id

theorem allocatable (h : m.Rebuffers m') (ha : m.Allocatable) : m'.Allocatable := by
  obtain ⟨g, hg, rfl⟩ := h
  intro n' hn'
  obtain ⟨n, hn, rfl⟩ := List.mem_map.mp hn'
  rw [(hg n hn).sameShape.size]
  exact ha n hn

end Rebuffers

/-- Evaluating gives as many values as the node has elements, or none at all. -/
theorem length_evaluate {m : Model} {n : Node} {values : List n.type.Value}
    (h : m.evaluate n = .ok values) : values.length = n.size := by
  -- every branch ends with the same check
  have hcheck : ∀ given, n.outlet.checkValues given = .ok values → values.length = n.size := by
    intro given hgiven
    rw [Outlet.checkValues] at hgiven
    split at hgiven
    case isTrue hlength =>
      obtain rfl := Except.ok.inj hgiven
      exact hlength
    case isFalse => cases hgiven
  unfold evaluate at h
  split at h
  · exact hcheck _ h
  · exact hcheck _ h
  · obtain ⟨given, -, hgiven⟩ := bind_ok.mp h
    exact hcheck _ hgiven
  · obtain ⟨xs, -, h⟩ := bind_ok.mp h
    obtain ⟨ys, -, h⟩ := bind_ok.mp h
    obtain ⟨given, -, hgiven⟩ := bind_ok.mp h
    exact hcheck _ hgiven

theorem rebuffers_computed {m : Model} {n n' : Node} (h : m.computed n = .ok n') :
    n.Rebuffers n' := by
  simp only [computed, bind_ok, pure_ok] at h
  obtain ⟨values, hvalues, rfl⟩ := h
  exact ⟨values, length_evaluate hvalues, rfl⟩

/-- Replacing a node of the model by itself with other values. -/
theorem rebuffers_replace {m : Model} (hd : m.ids.Nodup) {n n' : Node} (hn : n ∈ m.nodes)
    (h : n.Rebuffers n') : m.Rebuffers (m.replace n') := by
  refine ⟨fun old => if old.id = n'.id then n' else old, fun old hold => ?_, rfl⟩
  show old.Rebuffers (if old.id = n'.id then n' else old)
  split
  case isTrue hid =>
    rw [h.sameShape.id] at hid
    rwa [List.inj_on_of_nodup_map hd hold hn hid]
  case isFalse => exact .refl old

theorem rebuffers_computeNode {m m' : Model} (hd : m.ids.Nodup) {id : NodeId}
    (h : m.computeNode id = .ok m') : m.Rebuffers m' := by
  simp only [computeNode, bind_ok, pure_ok, node_ok] at h
  obtain ⟨n, hn, n', hcomputed, rfl⟩ := h
  exact rebuffers_replace hd (node?_eq_some hn).1 (rebuffers_computed hcomputed)

theorem rebuffers_computeAll {m : Model} (hd : m.ids.Nodup) (ids : List NodeId) :
    m.Rebuffers (m.computeAll ids).2 := by
  induction ids generalizing m with
  | nil => exact .refl m
  | cons id rest ih =>
    rw [computeAll]
    cases hstep : m.computeNode id with
    | error e => exact .refl m
    | ok m' =>
      have hfirst := rebuffers_computeNode hd hstep
      exact hfirst.trans (ih (by rwa [hfirst.ids]))

theorem rebuffers_compute {m : Model} (hd : m.ids.Nodup) : m.Rebuffers m.compute.2 := by
  rw [compute]
  cases m.order with
  | error e => exact .refl m
  | ok ids => exact rebuffers_computeAll hd ids

theorem rebuffers_computeSelection {m : Model} (hd : m.ids.Nodup) (t : ElementType)
    (e : Selection) : m.Rebuffers (m.computeSelection t e).2 := by
  rw [computeSelection]
  cases m.needed e with
  | error e => exact .refl m
  | ok ids =>
    have hall := rebuffers_computeAll hd ids
    simp only
    generalize m.computeAll ids = computed at hall ⊢
    rcases computed with ⟨e | ⟨⟩, m'⟩ <;> exact hall

end Model

end FlowGraph
