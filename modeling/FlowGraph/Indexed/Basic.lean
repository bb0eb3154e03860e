import FlowGraph.Indexed.Slot
import FlowGraph.Model.Counting

/-! A model with an index of its nodes. The index is written where a node is inserted and nowhere
else, and every search for a node goes through it. -/
namespace FlowGraph

structure Indexed where
  slots : List Slot := []
  /-- Every id with the position of its node, the one entered last first. -/
  index : List (NodeId × Nat) := []

namespace Indexed

def size (g : Indexed) : Nat := g.slots.length

/-- The nodes alone. -/
def model (g : Indexed) : Model := ⟨g.slots.map Slot.toNode⟩

def ids (g : Indexed) : List NodeId := g.slots.map (·.id)

def contains (g : Indexed) (id : NodeId) : Bool := (g.index.lookup id).isSome

def slot? (g : Indexed) (id : NodeId) : Option Slot := do g.slots[← g.index.lookup id]?

def slot (g : Indexed) (id : NodeId) : Except GraphError Slot :=
  (g.slot? id).elim (.error (.unknownNode id)) .ok

/-- Changes the node at the position that the index has for an id. -/
def put (g : Indexed) (id : NodeId) (s : Slot) : Indexed :=
  match g.index.lookup id with
  | some k => { g with slots := g.slots.set k s }
  | none => g

/-- The node whose outlet is at an address. -/
def target (g : Indexed) (address : OutletRef) : Except GraphError Slot :=
  match g.slot? address.node with
  | none => .error (.danglingReference address "no such node in the model")
  | some s =>
    if address.name = Node.outletName then .ok s
    else .error (.danglingReference address
      (address.node.text ++ " has no output port '" ++ address.name ++ "'"))

/-- Checks a span of an inlet against the type and the size of the outlet that it names. -/
def checkSpan (g : Indexed) (i : Inlet) (s : Span) : Except GraphError Unit :=
  match g.target s.source with
  | .error _ =>
    .error (.danglingReference s.source
      ("referenced by input '" ++ i.name ++ "' of " ++ i.node.text))
  | .ok o =>
    if o.type ≠ i.type then
      .error (.typeMismatch (i.node.text ++ "." ++ i.name) i.type o.type)
    else if o.size < s.stop then
      .error (.rangeOutOfBounds s.source s.start.toNat s.stop o.size)
    else .ok ()

def checkNode (g : Indexed) (n : Node) : Except GraphError Unit :=
  n.inlets.forM fun i => i.selection.spans.forM (g.checkSpan i)

/-- Puts a node at the end, and its position into the index. -/
def insert (g : Indexed) (s : Slot) : Indexed := ⟨g.slots ++ [s], (s.id, g.size) :: g.index⟩

def addUnchecked (g : Indexed) (s : Slot) : Except GraphError Indexed :=
  if g.contains s.id then .error (.duplicateNode s.id) else .ok (g.insert s)

def add (g : Indexed) (s : Slot) : Except GraphError Indexed := do
  if g.contains s.id then throw (.duplicateNode s.id)
  g.checkNode s.toNode
  return g.insert s

/-- Enters a link, which has to lead to a node of the index. -/
def enter (g : Indexed) (t : Model.Tally) (link : Nat × NodeId) : Except GraphError Model.Tally :=
  match g.index.lookup link.2 with
  | some j => .ok (t.link link.1 j)
  | none => .error (.unknownNode link.2)

/-- The order found by counting, as `Model.countedOrder` finds it. -/
def countedOrder (g : Indexed) : Option (Except GraphError (List NodeId)) :=
  match g.model.links.foldlM g.enter {} with
  | .error e => some (.error e)
  | .ok t => do
    let (ids, q) ← g.model.drain t.readers g.size [] (t.queue g.model)
    return if ids.length < g.size then .error (.cycleDetected (q.stuck g.model)) else .ok ids

/-- The order of the nodes. Counting has a result whenever the index is that of the nodes, and the
default is never taken then. -/
def order (g : Indexed) : Except GraphError (List NodeId) :=
  g.countedOrder.getD (.error (.cycleDetected g.ids))

def validate (g : Indexed) : Except GraphError Unit := do
  g.slots.forM fun s => g.checkNode s.toNode
  let _ ← g.order

/-- Goes on from the nodes still to be looked at, the last one first. -/
def ancestorsFrom (g : Indexed) : Nat → List NodeId → List NodeId →
    Except GraphError (List NodeId)
  | _, seen, [] => .ok seen
  | 0, seen, _ => .ok seen
  | steps + 1, seen, id :: rest =>
    if seen.contains id then ancestorsFrom g steps seen rest
    else
      match g.slot? id with
      | none => .error (.unknownNode id)
      | some s => ancestorsFrom g steps (id :: seen) (s.dependencies.reverse ++ rest)

/-- The nodes `roots` and all they depend on, in as many steps as `Model.ancestors` takes. -/
def ancestors (g : Indexed) (roots : List NodeId) : Except GraphError (List NodeId) :=
  let steps := roots.length + (g.slots.flatMap fun s => s.dependencies).length
  g.ancestorsFrom steps [] roots.reverse

/-- The nodes that mark results, in the order of the model. -/
def outputs (g : Indexed) : Except GraphError (List NodeId) := do
  return (← g.order).filter fun id => (g.slot? id).any (·.isOutput)

end Indexed

end FlowGraph
