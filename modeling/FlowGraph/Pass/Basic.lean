import FlowGraph.Transformer.Transform

namespace FlowGraph

namespace Model

/-- Keeps the nodes that mark results, and what they depend on. -/
def prune (m : Model) : Drawing Model := do
  let live ← Drawing.ofExcept (do m.ancestors (← m.outputs))
  -- what is live is closed under dependencies, so no copy misses an operand
  m.rebuild fun n => if live.contains n.id then n.copy else pure ()

def constantSpan? (m : Model) (t : ElementType) (s : Span) : Option (List t.Value) := do
  let n ← m.node? s.source.node
  let values ← n.constants? t
  valuesBetween? values s.start.toNat s.stop

/-- The values of a selection that reads nothing but constants. -/
def constants? (m : Model) (t : ElementType) (e : Selection) : Option (List t.Value) := do
  return (← e.spans.mapM (m.constantSpan? t)).flatten

/-- The values of an operation on constants, if every one of them is defined. -/
def folded? (m : Model) (t : ElementType) (op : Operation) (left right : Selection) :
    Option (List t.Value) := do
  let xs ← m.constants? t left
  let ys ← m.constants? t right
  (xs.zip ys).mapM fun (x, y) => op.apply t x y

end Model

/-- Puts a constant in the place of an operation whose operands are constants in the destination.
Every other node is copied. -/
def Node.fold (n : Node) : Visit Unit := do
  match n.body with
  | .operation _ op left right =>
    let left ← Visit.relocate left
    let right ← Visit.relocate right
    -- in the destination, where an operand that was folded is a constant by now
    match (← Visit.destination).folded? n.type op left right with
    | some values => Visit.substitute n.outlet (.constant (← Visit.drawId) n.type values)
    | none => n.copy
  | _ => n.copy

/-- Computes what depends on constants alone. The constants that were read stay. -/
def Model.fold (m : Model) : Drawing Model := m.rebuild Node.fold

/-- A step from a model to another one. -/
inductive Pass
  | identity
  | prune
  | foldConstants
deriving DecidableEq, Repr

namespace Pass

def name : Pass → String
  | identity => "identity"
  | prune => "prune"
  | foldConstants => "fold-constants"

/-- Reads a name of a pass, in any case. -/
def ofName? (text : String) : Option Pass :=
  match Text.lowercase text with
  | "identity" | "copy" => some identity
  | "prune" | "prune-unused" => some prune
  | "fold-constants" | "fold" => some foldConstants
  | _ => none

def run (p : Pass) (m : Model) : Drawing Model :=
  match p with
  | identity => m.rebuild Node.copy
  | prune => m.prune
  | foldConstants => m.fold

end Pass

end FlowGraph
