import FlowGraph.Model.Evaluation
import FlowGraph.Proofs.Arithmetic
import FlowGraph.Proofs.Elements
import FlowGraph.Proofs.WellFormed

/-! The meaning of a graph: the value of a node, by recursion over what it reads. It looks at
bodies alone, never at what a node has produced before. -/
namespace FlowGraph

/-- The values at the elements of a selection. Nothing is asked of nodes of which no element is
read. -/
def Selection.pick? {α : Type} (value : NodeId → Option (List α)) (e : Selection) :
    Option (List α) :=
  e.elements.mapM fun x => (value x.1.node).bind fun values => values[x.2]?

/-- The part of these values that is at the elements of one span. -/
def Span.pick? {α : Type} (value : NodeId → Option (List α)) (s : Span) : Option (List α) :=
  s.elements.mapM fun x => (value x.1.node).bind fun values => values[x.2]?

/-- The value of a node, given those of the nodes it reads. -/
def Node.value? (n : Node) (value : NodeId → Option (List n.type.Value)) :
    Option (List n.type.Value) :=
  match n.body with
  | .input values | .constant values => some values
  | .output source => source.pick? value
  | .operation _ op left right => do
    let xs ← left.pick? value
    let ys ← right.pick? value
    (xs.zip ys).mapM fun (x, y) => op.meaning? n.type x y

namespace Model

/-- The value of a node for elements of type `t`, as far as paths of `depth` nodes go. -/
def valueWithin (m : Model) (t : ElementType) : Nat → NodeId → Option (List t.Value)
  | 0, _ => none
  | depth + 1, id => do
    let n ← m.node? id
    if same : n.type = t then same ▸ n.value? (valueWithin m n.type depth) else none

/-- The value of a node. No path through a model without cycles is longer than the model. -/
def reference (m : Model) (t : ElementType) (id : NodeId) : Option (List t.Value) :=
  m.valueWithin t m.size id

end Model

theorem Selection.pick?_congr {α : Type} {v w : NodeId → Option (List α)} {e : Selection}
    (h : ∀ s ∈ e.spans, v s.source.node = w s.source.node) : e.pick? v = e.pick? w := by
  refine mapM_congr fun x hx => ?_
  obtain ⟨s, hs, hx⟩ := List.mem_flatMap.mp hx
  obtain ⟨i, -, rfl⟩ := List.mem_map.mp hx
  rw [h s hs]

theorem Selection.length_pick? {α : Type} {v : NodeId → Option (List α)} {e : Selection}
    {values : List α} (h : e.pick? v = some values) : values.length = e.elements.length :=
  mapM_length h

theorem mapM_getElem? {α : Type} (values : List α) (start count : Nat)
    (h : start + count ≤ values.length) :
    (List.range' start count).mapM (fun i => values[i]?) =
      some ((values.drop start).take count) := by
  induction count generalizing start with
  | zero => simp
  | succ count ih =>
    have hstart : start < values.length := by omega
    rw [List.range'_succ, List.mapM_cons, ih (start + 1) (by omega),
      List.getElem?_eq_getElem hstart, List.drop_eq_getElem_cons hstart, List.take_succ_cons]
    rfl

/-- A span of a node with values has a run of them. -/
theorem Span.pick?_eq {α : Type} {v : NodeId → Option (List α)} {s : Span} {values : List α}
    (hv : v s.source.node = some values)
    (h : s.start.toNat + s.count.toNat ≤ values.length) :
    s.pick? v = some ((values.drop s.start.toNat).take s.count.toNat) := by
  rw [Span.pick?, Span.elements, List.mapM_map]
  simp only [Function.comp_def, hv, Option.bind_some]
  exact mapM_getElem? values _ _ h

theorem Selection.pick?_eq {α : Type} (v : NodeId → Option (List α)) (e : Selection) :
    e.pick? v = (e.spans.mapM (Span.pick? v)).map List.flatten :=
  mapM_flatMap

/-- The value of a node is decided by what it depends on. -/
theorem Node.value?_congr {n : Node} {v w : NodeId → Option (List n.type.Value)}
    (h : ∀ d ∈ n.dependencies, v d = w d) : n.value? v = n.value? w := by
  have hspans : ∀ s ∈ n.spans, v s.source.node = w s.source.node :=
    fun s hs => h _ (Node.mem_dependencies.mpr ⟨s, hs, rfl⟩)
  rcases n with ⟨id, t, body, buffer⟩
  cases body with
  | input values => rfl
  | constant values => rfl
  | output source => exact Selection.pick?_congr (by simpa [spans, inlets] using hspans)
  | operation numeric op left right =>
    simp only [spans, inlets, List.flatMap_cons, List.flatMap_nil, List.append_nil,
      List.mem_append] at hspans
    simp only [value?, Selection.pick?_congr fun s hs => hspans s (.inl hs),
      Selection.pick?_congr fun s hs => hspans s (.inr hs)]

namespace Model

/-- Paths fall in rank, so a depth beyond the rank of a node is as good as any other. -/
theorem valueWithin_stable {m : Model} (h : m.WellFormed) {ids : List NodeId}
    (ho : m.order = .ok ids) (t : ElementType) (depth depth' : Nat) (id : NodeId)
    (hdepth : ids.idxOf id < depth) (hdepth' : ids.idxOf id < depth') :
    m.valueWithin t depth id = m.valueWithin t depth' id := by
  induction depth generalizing depth' id t with
  | zero => omega
  | succ depth ih =>
    obtain ⟨depth', rfl⟩ : ∃ k, depth' = k + 1 := ⟨depth' - 1, by omega⟩
    simp only [valueWithin]
    cases hf : m.node? id with
    | none => rfl
    | some n =>
      obtain ⟨hn, rfl⟩ := node?_eq_some hf
      -- what the node reads ranks below it, and the depths are still beyond that
      have hvalue : n.value? (m.valueWithin n.type depth) =
          n.value? (m.valueWithin n.type depth') := by
        refine Node.value?_congr fun d hd => ?_
        have hrank := order_rank h.distinct ho hn hd
        exact ih _ depth' d (by omega) (by omega)
      simp only [Option.bind_eq_bind, Option.bind_some, hvalue]

theorem reference_of_type_ne {m : Model} {t : ElementType} {id : NodeId} {n : Node}
    (hn : m.node? id = some n) (ht : n.type ≠ t) : m.reference t id = none := by
  rw [reference]
  cases m.size with
  | zero => rfl
  | succ depth => simp [valueWithin, hn, ht]

theorem reference_of_notMem {m : Model} {t : ElementType} {id : NodeId} (h : id ∉ m.ids) :
    m.reference t id = none := by
  have hn : m.node? id = none := by simpa [contains] using contains_eq_false.mpr h
  rw [reference]
  cases m.size with
  | zero => rfl
  | succ depth => simp [valueWithin, hn]

/-- The recursion that the value of a node satisfies. -/
theorem reference_of_mem {m : Model} (h : m.WellFormed) {n : Node} (hn : n ∈ m.nodes) :
    m.reference n.type n.id = n.value? (m.reference n.type) := by
  obtain ⟨ids, ho⟩ := h.ordered
  have hperm := order_perm ho
  -- the depth of `reference` is beyond every rank
  have hrank : ∀ id ∈ m.ids, ids.idxOf id < m.size := by
    intro id hid
    have hlt := List.idxOf_lt_length_of_mem (hperm.mem_iff.mpr hid)
    rwa [length_order ho] at hlt
  have hself := hrank n.id (mem_ids.mpr ⟨n, hn, rfl⟩)
  obtain ⟨depth, hsize⟩ : ∃ k, m.size = k + 1 := ⟨m.size - 1, by omega⟩
  rw [reference, hsize]
  simp only [valueWithin, node?_of_mem h.distinct hn, Option.bind_eq_bind, Option.bind_some,
    dite_true]
  refine Node.value?_congr fun d hd => ?_
  have hlow := order_rank h.distinct ho hn hd
  exact valueWithin_stable h ho _ _ _ d (by omega) (hrank d (h.dependencies hn hd))

/-- What a span resolves to has elements for all of it. -/
theorem fits_of_resolves {m : Model} (ha : m.Allocatable) {t : ElementType} {s : Span}
    (h : s.Resolves m t) : s.Fits := by
  obtain ⟨n, hn, -, -, hstop⟩ := h
  have hsize := ha n (node?_eq_some hn).1
  exact Span.fits_of_stop_lt (by omega)

end Model

end FlowGraph
