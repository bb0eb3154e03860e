import FlowGraph.Graph.Node

namespace FlowGraph

/-- Nodes in the order in which they were added. What is connected to what is said by their
selections alone. -/
structure Model where
  nodes : List Node := []

instance : Inhabited Model := ⟨{}⟩

namespace Model

def empty : Model := ⟨[]⟩

def size (m : Model) : Nat := m.nodes.length

def isEmpty (m : Model) : Bool := m.nodes.isEmpty

def ids (m : Model) : List NodeId := m.nodes.map Node.id

def node? (m : Model) (id : NodeId) : Option Node := m.nodes.find? (·.id = id)

def contains (m : Model) (id : NodeId) : Bool := (m.node? id).isSome

def node (m : Model) (id : NodeId) : Except GraphError Node :=
  (m.node? id).elim (.error (.unknownNode id)) .ok

/-- Puts a node in the place of the one with its id. -/
def replace (m : Model) (n : Node) : Model :=
  ⟨m.nodes.map fun old => if old.id = n.id then n else old⟩

/-- The outlet at an address. -/
def outlet (m : Model) (address : OutletRef) : Except GraphError Outlet :=
  match m.node? address.node with
  | none => .error (.danglingReference address "no such node in the model")
  | some n =>
    match n.outletNamed address.name with
    | .ok o => .ok o
    | .error _ =>
      .error (.danglingReference address
        (address.node.text ++ " has no output port '" ++ address.name ++ "'"))

/-- The values at an address, which have to be of type `t`. -/
def values (m : Model) (t : ElementType) (address : OutletRef) :
    Except GraphError (List t.Value) := do
  let o ← m.outlet address
  if same : o.type = t then return same ▸ o.values
  else throw (.typeMismatch address.text t o.type)

def readSpan (m : Model) (t : ElementType) (s : Span) : Except GraphError (List t.Value) := do
  let values ← m.values t s.source
  match valuesBetween? values s.start.toNat s.stop with
  | some run => return run
  | none => throw (.rangeOutOfBounds s.source s.start.toNat s.stop values.length)

/-- The current values of a selection, in its order. -/
def read (m : Model) (t : ElementType) (e : Selection) : Except GraphError (List t.Value) := do
  return (← e.spans.mapM (m.readSpan t)).flatten

/-- Checks that a span of an inlet is one of elements of its type in the model. -/
def checkSpan (m : Model) (i : Inlet) (s : Span) : Except GraphError Unit :=
  match m.outlet s.source with
  | .error _ =>
    .error (.danglingReference s.source
      ("referenced by input '" ++ i.name ++ "' of " ++ i.node.text))
  | .ok o =>
    if o.type ≠ i.type then
      .error (.typeMismatch (i.node.text ++ "." ++ i.name) i.type o.type)
    -- the type is compared first: bounds say nothing about another type
    else if o.size < s.stop then
      .error (.rangeOutOfBounds s.source s.start.toNat s.stop o.size)
    else .ok ()

def checkInlet (m : Model) (i : Inlet) : Except GraphError Unit :=
  i.selection.spans.forM (m.checkSpan i)

def checkNode (m : Model) (n : Node) : Except GraphError Unit := n.inlets.forM m.checkInlet

def insert (m : Model) (n : Node) : Model := ⟨m.nodes ++ [n]⟩

/-- Adds a node without looking at what it reads. -/
def addUnchecked (m : Model) (n : Node) : Except GraphError Model :=
  if m.contains n.id then .error (.duplicateNode n.id) else .ok (m.insert n)

/-- Adds a node that reads only nodes of the model. -/
def add (m : Model) (n : Node) : Except GraphError Model := do
  if m.contains n.id then throw (.duplicateNode n.id)
  m.checkNode n
  return m.insert n

end Model

end FlowGraph
