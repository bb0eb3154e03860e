import FlowGraph.Model.Order

namespace FlowGraph

/-- What a transformer knows while it builds a model. -/
structure Transformer.Context where
  destination : Model := .empty
  /-- Where the elements of an outlet of the source are in the destination. -/
  mapping : List (OutletRef × Selection) := []
  visited : List NodeId := []

/-- A transformer is idle, or in the middle of building a model. -/
structure Transformer where
  context : Option Transformer.Context := none

namespace Transformer

def idle : Transformer := ⟨none⟩

def isTransforming (t : Transformer) : Bool := t.context.isSome

def running (t : Transformer) : Except GraphError Context :=
  t.context.elim (.error .transformerIdle) .ok

/-- The model built so far. -/
def destination (t : Transformer) : Except GraphError Model := do
  return (← t.running).destination

/-- Adds a node to the destination. -/
def add (t : Transformer) (n : Node) : Except GraphError Transformer := do
  let c ← t.running
  return ⟨some { c with destination := ← c.destination.add n }⟩

/-- Checks that a span of the destination has elements of the type of `old`. -/
def checkTarget (destination : Model) (old : Outlet) (s : Span) : Except GraphError Unit := do
  let target ← destination.outlet s.source
  if target.type ≠ old.type then
    throw (.typeMismatch old.address.text old.type target.type)

/-- Records where the elements of an outlet of the source are now. -/
def map (t : Transformer) (old : Outlet) (e : Selection) : Except GraphError Transformer := do
  -- sizes are compared even when no transform is running
  if old.size ≠ e.size then throw (.sizeMismatch old.address.text old.size e.size)
  let c ← t.running
  e.spans.forM (checkTarget c.destination old)
  return ⟨some { c with mapping := (old.address, e) :: c.mapping }⟩

/-- Where the elements of an outlet of the source are now. -/
def corresponding (t : Transformer) (address : OutletRef) : Except GraphError Selection := do
  let c ← t.running
  -- a visited node without a mapping was left out on purpose
  if !c.visited.contains address.node then throw (.notYetVisited address.node)
  match c.mapping.lookup address with
  | some e => return e
  | none => throw (.danglingReference address "the output was elided by the transform")

def relocateSpan (t : Transformer) (s : Span) : Except GraphError Selection := do
  let mapped ← t.corresponding s.source
  match mapped.slice? s.start.toNat s.count.toNat with
  | some e => return e
  | none => throw (.rangeOutOfBounds s.source s.start.toNat s.stop mapped.size)

/-- The elements of the destination for those of the source. -/
def relocate (t : Transformer) (e : Selection) : Except GraphError Selection := do
  return (← e.spans.mapM t.relocateSpan).foldl Selection.append .empty

/-- Marks a node of the source as visited. -/
def visit (t : Transformer) (id : NodeId) : Except GraphError Transformer := do
  let c ← t.running
  return ⟨some { c with visited := id :: c.visited }⟩

end Transformer

end FlowGraph
