import FlowGraph.Model.Basic

namespace FlowGraph.Model

/-- The first dependency that is not a node of the model. -/
def missing? (m : Model) : Option NodeId :=
  (m.nodes.flatMap Node.dependencies).find? (!m.contains ·)

def isReady (done : List NodeId) (n : Node) : Bool := n.dependencies.all done.contains

/-- Lists the first of the `pending` nodes whose dependencies are all `done`, then the next one.
Nodes are left over when none is ready. -/
def orderFrom : Nat → List NodeId → List Node → List NodeId × List Node
  | 0, done, pending => (done, pending)
  | steps + 1, done, pending =>
    match pending.find? (isReady done) with
    -- what `eraseP` takes out is `n`, the first one that is ready
    | some n => orderFrom steps (done ++ [n.id]) (pending.eraseP (isReady done))
    | none => (done, pending)

/-- The nodes in an order in which each follows its dependencies. Of the nodes that can come next,
the one added first does. -/
def order (m : Model) : Except GraphError (List NodeId) :=
  match m.missing? with
  | some id => .error (.unknownNode id)
  | none =>
    match orderFrom m.size [] m.nodes with
    | (ids, []) => .ok ids
    | (_, stuck) => .error (.cycleDetected (stuck.map Node.id))

/-- Checks every node, and that none depends on itself. -/
def validate (m : Model) : Except GraphError Unit := do
  m.nodes.forM m.checkNode
  let _ ← m.order

/-- Goes on from the nodes still to be looked at, the last one first. -/
def ancestorsFrom (m : Model) : Nat → List NodeId → List NodeId →
    Except GraphError (List NodeId)
  | _, seen, [] => .ok seen
  | 0, seen, _ => .ok seen
  | steps + 1, seen, id :: rest =>
    if seen.contains id then ancestorsFrom m steps seen rest
    else
      match m.node? id with
      | none => .error (.unknownNode id)
      -- reversed, so that the dependency named last is looked at first
      | some n => ancestorsFrom m steps (id :: seen) (n.dependencies.reverse ++ rest)

/-- The nodes `roots` and all they depend on. Every node adds its dependencies once, which bounds
the steps. -/
def ancestors (m : Model) (roots : List NodeId) : Except GraphError (List NodeId) :=
  let steps := roots.length + (m.nodes.flatMap Node.dependencies).length
  m.ancestorsFrom steps [] roots.reverse

/-- The nodes that accept values, in the order of the model. -/
def inputs (m : Model) : Except GraphError (List NodeId) := do
  return (← m.order).filter fun id => (m.node? id).any Node.isInput

/-- The nodes that mark results, in the order of the model. -/
def outputs (m : Model) : Except GraphError (List NodeId) := do
  return (← m.order).filter fun id => (m.node? id).any Node.isOutput

end FlowGraph.Model
