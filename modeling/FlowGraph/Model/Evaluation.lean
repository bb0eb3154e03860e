import FlowGraph.Model.Order

namespace FlowGraph

/-- The results of an operation on two lists, as far as both go. -/
def Node.combine (n : Node) (op : Operation) :
    Nat → List n.type.Value → List n.type.Value → Except GraphError (List n.type.Value)
  | index, x :: xs, y :: ys =>
    match op.apply n.type x y with
    | some z => do return z :: (← combine n op (index + 1) xs ys)
    | none =>
      .error (.arithmetic n.id (n.type.display x ++ " " ++ op.name ++ " " ++ n.type.display y ++
        " is undefined at element " ++ toString index))
  | _, _, _ => .ok []

namespace Model

/-- The values a node has with the current values of the others. -/
def evaluate (m : Model) (n : Node) : Except GraphError (List n.type.Value) := do
  let values ← match n.body with
    | .input values | .constant values => pure values
    | .output source => m.read n.type source
    | .operation _ op left right => do
      n.combine op 0 (← m.read n.type left) (← m.read n.type right)
  n.outlet.checkValues values

/-- The node with its new values. -/
def computed (m : Model) (n : Node) : Except GraphError Node := do
  return { n with buffer := ← m.evaluate n }

def computeNode (m : Model) (id : NodeId) : Except GraphError Model := do
  return m.replace (← m.computed (← m.node id))

/-- Computes nodes one after the other. The nodes before a failure keep their new values. -/
def computeAll (m : Model) : List NodeId → Except GraphError Unit × Model
  | [] => (.ok (), m)
  | id :: rest =>
    match m.computeNode id with
    | .ok m => computeAll m rest
    | .error e => (.error e, m)

/-- Computes every node, in the order of the model. -/
def compute (m : Model) : Except GraphError Unit × Model :=
  match m.order with
  | .ok ids => m.computeAll ids
  | .error e => (.error e, m)

/-- The nodes that have to be computed for a selection, in the order of the model. -/
def needed (m : Model) (e : Selection) : Except GraphError (List NodeId) := do
  -- an address that leads nowhere is an error before anything is computed
  e.spans.forM fun s => discard (m.outlet s.source)
  let needed ← m.ancestors e.nodes
  return (← m.order).filter needed.contains

/-- Computes only what a selection depends on, and reads it. -/
def computeSelection (m : Model) (t : ElementType) (e : Selection) :
    Except GraphError (List t.Value) × Model :=
  match m.needed e with
  | .error e => (.error e, m)
  | .ok ids =>
    match m.computeAll ids with
    | (.error e, m) => (.error e, m)
    | (.ok (), m) => (m.read t e, m)

end Model

end FlowGraph
