import Mathlib
import FlowGraph.Model.Order

/-! Finding nodes by their ids and outlets by their addresses, and what a node depends on. -/
namespace FlowGraph

/-- Everything that a node reads, inlet by inlet. -/
def Node.spans (n : Node) : List Span := n.inlets.flatMap (·.selection.spans)

theorem Selection.mem_nodes {e : Selection} {id : NodeId} :
    id ∈ e.nodes ↔ ∃ s ∈ e.spans, s.source.node = id := by
  simp only [Selection.nodes, List.mem_eraseDups, List.mem_map]

theorem Node.mem_spans {n : Node} {s : Span} :
    s ∈ n.spans ↔ ∃ i ∈ n.inlets, s ∈ i.selection.spans := by
  simp only [Node.spans, List.mem_flatMap]

theorem Node.mem_dependencies {n : Node} {id : NodeId} :
    id ∈ n.dependencies ↔ ∃ s ∈ n.spans, s.source.node = id := by
  simp only [Node.dependencies, List.mem_eraseDups, List.mem_flatMap, Selection.mem_nodes,
    Node.mem_spans]
  constructor
  · intro h
    obtain ⟨i, hi, s, hs, rfl⟩ := h
    exact ⟨s, ⟨i, hi, hs⟩, rfl⟩
  · intro h
    obtain ⟨s, ⟨i, hi, hs⟩, rfl⟩ := h
    exact ⟨i, hi, s, hs, rfl⟩

theorem Node.spans_output {n : Node} {source : Selection} (h : n.body = .output source) :
    n.spans = source.spans := by
  simp [Node.spans, Node.inlets, h]

theorem Node.spans_operation {n : Node} {numeric : n.type.isNumeric = true} {op : Operation}
    {left right : Selection} (h : n.body = .operation numeric op left right) :
    n.spans = left.spans ++ right.spans := by
  simp [Node.spans, Node.inlets, h]

theorem Node.inlet_type {n : Node} {i : Inlet} (h : i ∈ n.inlets) : i.type = n.type := by
  rcases n with ⟨id, t, body, buffer⟩
  cases body <;> simp only [Node.inlets, List.not_mem_nil, List.mem_cons, or_false] at h
  · rw [h]
  · rcases h with rfl | rfl <;> rfl

namespace Model

theorem length_ids (m : Model) : m.ids.length = m.size := List.length_map _

theorem mem_ids {m : Model} {id : NodeId} : id ∈ m.ids ↔ ∃ n ∈ m.nodes, n.id = id := by
  simp only [ids, List.mem_map]

theorem node?_eq_some {m : Model} {id : NodeId} {n : Node} (h : m.node? id = some n) :
    n ∈ m.nodes ∧ n.id = id := by
  refine ⟨List.mem_of_find?_eq_some h, ?_⟩
  simpa using List.find?_some h

theorem node?_of_mem {m : Model} (hd : m.ids.Nodup) {n : Node} (hn : n ∈ m.nodes) :
    m.node? n.id = some n := by
  cases hf : m.node? n.id with
  | none =>
    have hne := List.find?_eq_none.mp hf n hn
    simp at hne
  | some k =>
    obtain ⟨hk, hid⟩ := node?_eq_some hf
    rw [List.inj_on_of_nodup_map hd hk hn hid]

theorem contains_iff {m : Model} {id : NodeId} : m.contains id = true ↔ id ∈ m.ids := by
  simp only [contains, node?, List.find?_isSome, decide_eq_true_eq, mem_ids]

theorem contains_eq_false {m : Model} {id : NodeId} : m.contains id = false ↔ id ∉ m.ids := by
  rw [← contains_iff, Bool.not_eq_true]

theorem node_ok {m : Model} {id : NodeId} {n : Node} : m.node id = .ok n ↔ m.node? id = some n := by
  unfold node
  cases m.node? id <;> simp

theorem outlet_ok {m : Model} {a : OutletRef} {o : Outlet} :
    m.outlet a = .ok o ↔
      ∃ n, m.node? a.node = some n ∧ a.name = Node.outletName ∧ o = n.outlet := by
  unfold outlet
  cases m.node? a.node with
  | none => simp
  | some n =>
    by_cases hname : a.name = Node.outletName
    · simp [Node.outletNamed, hname, eq_comm]
    · simp [Node.outletNamed, hname]

end Model

end FlowGraph
