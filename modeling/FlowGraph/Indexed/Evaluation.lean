import FlowGraph.Indexed.Basic

namespace FlowGraph.Indexed

/-- The values of a span. They are taken from the buffer; the size of the outlet is only told in the
error. -/
def readSpan (g : Indexed) (t : ElementType) (s : Span) : Except GraphError (List t.Value) := do
  let o ← g.target s.source
  if same : o.type = t then
    match valuesBetween? (same ▸ o.buffer : List t.Value) s.start.toNat s.stop with
    | some run => return run
    | none => throw (.rangeOutOfBounds s.source s.start.toNat s.stop o.size)
  else throw (.typeMismatch s.source.text t o.type)

def read (g : Indexed) (t : ElementType) (e : Selection) : Except GraphError (List t.Value) := do
  return (← e.spans.mapM (g.readSpan t)).flatten

/-- The values that a node puts into its buffer. -/
def evaluate (g : Indexed) (s : Slot) : Except GraphError (List s.type.Value) :=
  match s.body with
  | .input values | .constant values => .ok values
  | .output source => g.read s.type source
  | .operation _ op left right => do
    s.combine op 0 (← g.read s.type left) (← g.read s.type right)

def computeNode (g : Indexed) (id : NodeId) : Except GraphError Indexed := do
  let s ← g.slot id
  return g.put id (← s.setOutput (← g.evaluate s))

/-- Computes nodes one after the other. The nodes before a failure keep their new values. -/
def computeAll (g : Indexed) : List NodeId → Except GraphError Unit × Indexed
  | [] => (.ok (), g)
  | id :: rest =>
    match g.computeNode id with
    | .ok g => computeAll g rest
    | .error e => (.error e, g)

def compute (g : Indexed) : Except GraphError Unit × Indexed :=
  match g.order with
  | .ok ids => g.computeAll ids
  | .error e => (.error e, g)

def needed (g : Indexed) (e : Selection) : Except GraphError (List NodeId) := do
  e.spans.forM fun s => discard (g.target s.source)
  let needed ← g.ancestors e.nodes
  return (← g.order).filter needed.contains

def computeSelection (g : Indexed) (t : ElementType) (e : Selection) :
    Except GraphError (List t.Value) × Indexed :=
  match g.needed e with
  | .error e => (.error e, g)
  | .ok ids =>
    match g.computeAll ids with
    | (.error e, g) => (.error e, g)
    | (.ok (), g) => (g.read t e, g)

def setInput (g : Indexed) (id : NodeId) (t : ElementType) (values : List t.Value) :
    Except GraphError Indexed :=
  match g.slot? id with
  | some s => do return g.put id (← s.setInputOf t values)
  | none => .ok g

def setInputTexts (g : Indexed) (id : NodeId) (texts : List String) :
    Except GraphError Indexed := do
  let s ← g.slot id
  return g.put id (← s.setInputTexts texts)

end FlowGraph.Indexed
