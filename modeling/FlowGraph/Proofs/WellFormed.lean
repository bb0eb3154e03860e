import FlowGraph.Proofs.Order
import FlowGraph.Proofs.Outcome

/-! What holds of every model a program can get hold of: names are unique, sizes agree, everything
that is read exists, and nothing depends on itself. -/
namespace FlowGraph

/-- The sizes inside a node agree. -/
def Node.Sized (n : Node) : Prop :=
  match n.body with
  | .input values | .constant values => values.length = n.size
  | .output source => source.size = n.size
  | .operation _ _ left right => left.size = n.size ∧ right.size = n.size

/-- Operands of the same size make a node of that size. -/
theorem Node.operation_ok {id : NodeId} {t : ElementType} {numeric : t.isNumeric = true}
    {op : Operation} {left right : Selection} {n : Node}
    (h : Node.operation id t numeric op left right = .ok n) : n.id = id ∧ n.Sized := by
  rw [Node.operation] at h
  split at h
  case isFalse => cases h
  case isTrue hsizes =>
    obtain rfl := Except.ok.inj h
    exact ⟨rfl, List.length_replicate.symm, hsizes ▸ List.length_replicate.symm⟩

/-- What a span names are elements of type `t` of a node of the model. -/
def Span.Resolves (m : Model) (t : ElementType) (s : Span) : Prop :=
  ∃ n, m.node? s.source.node = some n ∧ s.source.name = Node.outletName ∧ n.type = t ∧
    s.stop ≤ n.size

structure Model.WellFormed (m : Model) : Prop where
  distinct : m.ids.Nodup
  sized : ∀ n ∈ m.nodes, n.Sized
  resolves : ∀ n ∈ m.nodes, ∀ s ∈ n.spans, s.Resolves m n.type
  ordered : ∃ ids, m.order = .ok ids

/-- No buffer is as large as sizes go, as none that fits into memory is. -/
def Model.Allocatable (m : Model) : Prop := ∀ n ∈ m.nodes, n.size < sizeLimit

instance (m : Model) : Decidable m.Allocatable :=
  inferInstanceAs (Decidable (∀ n ∈ m.nodes, n.size < sizeLimit))

namespace Model

theorem checkSpan_ok {m : Model} {i : Inlet} {s : Span} :
    m.checkSpan i s = .ok () ↔ s.Resolves m i.type := by
  unfold checkSpan Span.Resolves
  cases ho : m.outlet s.source with
  | error e =>
    simp only [reduceCtorEq, false_iff]
    intro h
    obtain ⟨n, hn, hname, -⟩ := h
    have hok := outlet_ok.mpr ⟨n, hn, hname, rfl⟩
    rw [ho] at hok
    cases hok
  | ok o =>
    obtain ⟨n, hn, hname, rfl⟩ := outlet_ok.mp ho
    change (if n.type ≠ i.type then _ else if n.size < s.stop then _ else _) = _ ↔ _
    by_cases ht : n.type = i.type
    · by_cases hs : n.size < s.stop
      · simp [ht, hn, hname, hs]
      · simp [ht, hn, hname, hs, Nat.le_of_not_lt hs]
    · simp [ht, hn]

theorem checkNode_ok {m : Model} {n : Node} :
    m.checkNode n = .ok () ↔ ∀ s ∈ n.spans, s.Resolves m n.type := by
  simp only [checkNode, forM_ok, checkInlet, checkSpan_ok, Node.mem_spans]
  constructor
  · intro h s h
    obtain ⟨i, hi, hs⟩ := h
    simpa [Node.inlet_type hi] using h i hi s hs
  · intro h i hi s hs
    simpa [Node.inlet_type hi] using h s ⟨i, hi, hs⟩

theorem validate_ok {m : Model} :
    m.validate = .ok () ↔ (∀ n ∈ m.nodes, ∀ s ∈ n.spans, s.Resolves m n.type) ∧
      ∃ ids, m.order = .ok ids := by
  have hall : m.nodes.forM m.checkNode = .ok () ↔
      ∀ n ∈ m.nodes, ∀ s ∈ n.spans, s.Resolves m n.type := by
    simp only [forM_ok, checkNode_ok]
  rw [← hall, validate, bind_ok]
  simp only [bind_ok, pure_ok, and_true]
  exact ⟨fun ⟨_, hnodes, horder⟩ => ⟨hnodes, horder⟩, fun ⟨hnodes, horder⟩ => ⟨(), hnodes, horder⟩⟩

theorem resolves_mem {m : Model} {t : ElementType} {s : Span} (h : s.Resolves m t) :
    s.source.node ∈ m.ids := by
  obtain ⟨n, hn, -⟩ := h
  exact mem_ids.mpr ⟨n, node?_eq_some hn⟩

/-- Everything a node depends on is there. -/
theorem WellFormed.dependencies {m : Model} (h : m.WellFormed) {n : Node} (hn : n ∈ m.nodes) :
    n.dependencies ⊆ m.ids := by
  intro id hid
  obtain ⟨s, hs, rfl⟩ := Node.mem_dependencies.mp hid
  exact resolves_mem (h.resolves n hn s hs)

theorem wellFormed_empty : empty.WellFormed where
  distinct := List.nodup_nil
  sized := by simp [empty]
  resolves := by simp [empty]
  ordered := ⟨[], rfl⟩

theorem node?_insert {m : Model} {n k : Node} {id : NodeId} (h : m.node? id = some k) :
    (m.insert n).node? id = some k := by
  rw [node?, insert, List.find?_append]
  rw [node?] at h
  rw [h, Option.some_or]

theorem resolves_insert {m : Model} {n : Node} {t : ElementType} {s : Span}
    (h : s.Resolves m t) : s.Resolves (m.insert n) t := by
  obtain ⟨k, hk, hrest⟩ := h
  exact ⟨k, node?_insert hk, hrest⟩

/-- A node that is added reads only from nodes that were there. -/
theorem add_ok {m m' : Model} {n : Node} :
    m.add n = .ok m' ↔
      n.id ∉ m.ids ∧ (∀ s ∈ n.spans, s.Resolves m n.type) ∧ m' = m.insert n := by
  rw [← checkNode_ok, ← contains_eq_false, add]
  cases hc : m.contains n.id with
  | true => simp [throw, throwThe, MonadExceptOf.throw, bind, Except.bind]
  | false =>
    cases m.checkNode n with
    | error e => simp [bind, Except.bind]
    | ok u => simp [bind, Except.bind, pure, Except.pure, eq_comm]

theorem ids_insert (m : Model) (n : Node) : (m.insert n).ids = m.ids ++ [n.id] := by
  simp only [ids, insert, List.map_append, List.map_cons, List.map_nil]

theorem nodup_insert {m : Model} {n : Node} :
    (m.insert n).ids.Nodup ↔ m.ids.Nodup ∧ n.id ∉ m.ids := by
  rw [ids_insert, List.nodup_append]
  constructor
  · intro h
    obtain ⟨hd, -, hne⟩ := h
    exact ⟨hd, fun hmem => hne _ hmem _ List.mem_cons_self rfl⟩
  · intro h
    obtain ⟨hd, hfresh⟩ := h
    refine ⟨hd, List.nodup_singleton _, fun a ha b hb hab => hfresh ?_⟩
    rwa [← List.mem_singleton.mp hb, ← hab]

theorem wellFormed_insert {m : Model} (h : m.WellFormed) {n : Node} (hsized : n.Sized)
    (hfresh : n.id ∉ m.ids) (hreads : ∀ s ∈ n.spans, s.Resolves m n.type) :
    (m.insert n).WellFormed where
  distinct := nodup_insert.mpr ⟨h.distinct, hfresh⟩
  sized := by
    intro k hk
    rcases List.mem_append.mp hk with hk | hk
    · exact h.sized k hk
    · rwa [List.mem_singleton.mp hk]
  resolves := by
    intro k hk s hs
    rcases List.mem_append.mp hk with hk | hk
    · exact resolves_insert (h.resolves k hk s hs)
    · rw [List.mem_singleton.mp hk] at hs ⊢
      exact resolves_insert (hreads s hs)
  -- the node goes to the end of the order: all that it reads was in the model before
  ordered := by
    obtain ⟨ids, ho⟩ := h.ordered
    refine ⟨ids ++ [n.id], order_insert ho fun id hid => ?_⟩
    obtain ⟨s, hs, rfl⟩ := Node.mem_dependencies.mp hid
    exact resolves_mem (hreads s hs)

end Model

/-- Nodes that differ at most in the values they hold. -/
structure Node.SameShape (n n' : Node) : Prop where
  id : n'.id = n.id
  type : n'.type = n.type
  size : n'.size = n.size
  inlets : n'.inlets = n.inlets

theorem Node.SameShape.refl (n : Node) : n.SameShape n := ⟨rfl, rfl, rfl, rfl⟩

theorem Node.SameShape.spans {n n' : Node} (h : n.SameShape n') : n'.spans = n.spans := by
  rw [Node.spans, Node.spans, h.inlets]

theorem Node.SameShape.dependencies {n n' : Node} (h : n.SameShape n') :
    n'.dependencies = n.dependencies := by
  rw [Node.dependencies, Node.dependencies, h.inlets]

namespace Model

/-- The model with other nodes in the place of its own. -/
def mapNodes (m : Model) (g : Node → Node) : Model := ⟨m.nodes.map g⟩

theorem ids_mapNodes {m : Model} {g : Node → Node} (h : ∀ n ∈ m.nodes, (g n).id = n.id) :
    (m.mapNodes g).ids = m.ids := by
  simp only [ids, mapNodes, List.map_map]
  exact List.map_congr_left h

theorem node?_mapNodes {m : Model} {g : Node → Node} (h : ∀ n ∈ m.nodes, (g n).id = n.id)
    (id : NodeId) : (m.mapNodes g).node? id = (m.node? id).map g := by
  simp only [node?, mapNodes, List.find?_map]
  congr 1
  exact List.find?_congr fun n hn => by simp [h n hn]

theorem order_mapNodes {m : Model} {g : Node → Node} (h : ∀ n ∈ m.nodes, n.SameShape (g n))
    {ids : List NodeId} (ho : m.order = .ok ids) : (m.mapNodes g).order = .ok ids := by
  -- a renaming that leaves all names as they are
  have hmap := order_renamed id g (fun a _ b _ hab => hab)
    (fun n hn => ⟨(h n hn).id, fun d => by simp [(h n hn).dependencies]⟩) ho
  rwa [List.map_id] at hmap

/-- Changing values keeps a model well formed, if sizes stay as they are. -/
theorem wellFormed_mapNodes {m : Model} (hm : m.WellFormed) {g : Node → Node}
    (h : ∀ n ∈ m.nodes, n.SameShape (g n)) (hsized : ∀ n ∈ m.nodes, (g n).Sized) :
    (m.mapNodes g).WellFormed where
  distinct := by
    rw [ids_mapNodes fun n hn => (h n hn).id]
    exact hm.distinct
  sized := by
    intro n' hn'
    obtain ⟨n, hn, rfl⟩ := List.mem_map.mp hn'
    exact hsized n hn
  resolves := by
    intro n' hn' s hs
    obtain ⟨n, hn, rfl⟩ := List.mem_map.mp hn'
    rw [(h n hn).spans] at hs
    obtain ⟨k, hk, hname, htype, hstop⟩ := hm.resolves n hn s hs
    have hg := h k (node?_eq_some hk).1
    refine ⟨g k, ?_, hname, ?_, ?_⟩
    · rw [node?_mapNodes fun n hn => (h n hn).id, hk, Option.map_some]
    · rw [hg.type, htype, (h n hn).type]
    · rwa [hg.size]
  ordered := by
    obtain ⟨ids, ho⟩ := hm.ordered
    exact ⟨ids, order_mapNodes h ho⟩

/-- The model with other values in its nodes, of which there are as many as before. -/
def Revalues (m m' : Model) : Prop :=
  ∃ g : Node → Node, (∀ n ∈ m.nodes, n.SameShape (g n) ∧ (g n).Sized) ∧ m' = m.mapNodes g

namespace Revalues

variable {m m' : Model}

theorem wellFormed (h : m.Revalues m') (hm : m.WellFormed) : m'.WellFormed := by
  obtain ⟨g, hg, rfl⟩ := h
  exact wellFormed_mapNodes hm (fun n hn => (hg n hn).1) fun n hn => (hg n hn).2

theorem ids (h : m.Revalues m') : m'.ids = m.ids := by
  obtain ⟨g, hg, rfl⟩ := h
  exact ids_mapNodes fun n hn => (hg n hn).1.id

theorem order (h : m.Revalues m') {ids : List NodeId} (ho : m.order = .ok ids) :
    m'.order = .ok ids := by
  obtain ⟨g, hg, rfl⟩ := h
  exact order_mapNodes (fun n hn => (hg n hn).1) ho

end Revalues

/-- Replacing a node changes no other one, since ids are different. -/
theorem revalues_replace {m : Model} (hm : m.WellFormed) {n n' : Node} (hn : n ∈ m.nodes)
    (h : n.SameShape n') (hsized : n'.Sized) : m.Revalues (m.replace n') := by
  refine ⟨fun old => if old.id = n'.id then n' else old, fun old hold => ?_, rfl⟩
  dsimp only
  split
  case isTrue hid =>
    rw [h.id] at hid
    rw [List.inj_on_of_nodup_map hm.distinct hold hn hid]
    exact ⟨h, hsized⟩
  case isFalse => exact ⟨.refl old, hm.sized old hold⟩

end Model

end FlowGraph
