import Mathlib.Logic.Function.Basic
import FlowGraph.Model.Order

/-! The order of a model by counting: for every node, how many of those it depends on are not listed
yet. Each step lists the first node that waits for none, and the nodes that read from it wait for
one less. -/
namespace FlowGraph.Model

/-- Where each node is. A node that is inserted is put down with the number of those before it. -/
def index (m : Model) : NodeId → Option Nat :=
  m.ids.zipIdx.foldl (fun table p => Function.update table p.1 (some p.2)) fun _ => none

/-- Who waits for how many, and who reads from whom. Nodes are known by their positions. -/
structure Tally where
  waiting : Nat → Nat := fun _ => 0
  readers : Nat → List Nat := fun _ => []

/-- The node at `i` reads from the node at `j`. -/
def Tally.link (t : Tally) (i j : Nat) : Tally :=
  ⟨Function.update t.waiting i (t.waiting i + 1), Function.update t.readers j (t.readers j ++ [i])⟩

/-- Every position with every id that the node there depends on. -/
def links (m : Model) : List (Nat × NodeId) :=
  m.nodes.zipIdx.flatMap fun (n, i) => n.dependencies.map (i, ·)

/-- Enters a link, which has to lead to a node. -/
def enter (m : Model) (t : Tally) (link : Nat × NodeId) : Except GraphError Tally :=
  match m.index link.2 with
  | some j => .ok (t.link link.1 j)
  | none => .error (.unknownNode link.2)

def tally (m : Model) : Except GraphError Tally := m.links.foldlM m.enter {}

/-- Who still waits for how many, and who can be listed, in no particular order. -/
structure Queue where
  waiting : Nat → Nat
  ready : List Nat

/-- The node at `k` waits for one less. There is no queue after that if it waited for none. -/
def Queue.release (q : Queue) (k : Nat) : Option Queue :=
  if q.waiting k = 0 then none
  else
    let left := q.waiting k - 1
    some ⟨Function.update q.waiting k left, if left = 0 then k :: q.ready else q.ready⟩

/-- Lists the first of the nodes that are ready until none is. -/
def drain (m : Model) (readers : Nat → List Nat) :
    Nat → List NodeId → Queue → Option (List NodeId × Queue)
  | 0, done, q => if q.ready.isEmpty then some (done, q) else none
  | steps + 1, done, q =>
    match q.ready.min? with
    | none => some (done, q)
    | some i => do
      let n ← m.nodes[i]?
      let q ← (readers i).foldlM Queue.release { q with ready := q.ready.erase i }
      m.drain readers steps (done ++ [n.id]) q

/-- At first those are ready that wait for none. -/
def Tally.queue (m : Model) (t : Tally) : Queue :=
  ⟨t.waiting, (List.range m.size).filter (t.waiting · = 0)⟩

/-- The nodes that still wait, as they were added. -/
def Queue.stuck (m : Model) (q : Queue) : List NodeId :=
  (m.nodes.zipIdx.filter fun p => 0 < q.waiting p.2).map fun p => p.1.id

/-- The order found by counting. There is none if a count falls below zero, or if a position is
listed that no node has. -/
def countedOrder (m : Model) : Option (Except GraphError (List NodeId)) :=
  match m.tally with
  | .error e => some (.error e)
  | .ok t => do
    let (ids, q) ← m.drain t.readers m.size [] (t.queue m)
    return if ids.length < m.size then .error (.cycleDetected (q.stuck m)) else .ok ids

end FlowGraph.Model
