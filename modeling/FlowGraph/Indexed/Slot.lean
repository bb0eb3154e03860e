import FlowGraph.Session

/-! Nodes whose outlet has a size of its own, beside the buffer. The buffer and the size are written
apart, and only the operations keep the one as long as the other says. -/
namespace FlowGraph

/-- A node, and the size that its outlet was given. -/
structure Slot extends Node where
  size : Nat

namespace Slot

/-- A node whose outlet is new: it has the given size, and as many defaults in its buffer. -/
def fresh (id : NodeId) (t : ElementType) (body : Body t) (size : Nat) : Slot :=
  ⟨⟨id, t, body, List.replicate size t.default⟩, size⟩

def make (id : NodeId) : Recipe → Except GraphError Slot
  | .input t dimension => .ok (fresh id t (.input (List.replicate dimension t.default)) dimension)
  | .constant t values => .ok (fresh id t (.constant values) values.length)
  | .output t source => .ok (fresh id t (.output source) source.size)
  | .operation t numeric op left right =>
    if left.size = right.size then
      .ok (fresh id t (.operation numeric op left right) left.size)
    else .error (.sizeMismatch (id.text ++ ".input2") left.size right.size)

/-- A node without elements. -/
def blank (id : NodeId) : NodeType → Slot
  | .input t => fresh id t (.input []) 0
  | .constant t => fresh id t (.constant []) 0
  | .output t => fresh id t (.output .empty) 0
  | .operation t numeric => fresh id t (.operation numeric .add .empty .empty) 0

/-- All elements of the outlet. -/
def all (s : Slot) : Selection := .single ⟨s.address, 0, UInt64.ofNat s.size⟩

/-- Puts values into the buffer if there are as many as the outlet has elements. -/
def setOutput (s : Slot) (values : List s.type.Value) : Except GraphError Slot :=
  if values.length = s.size then .ok { s with buffer := values }
  else .error (.sizeMismatch s.address.text s.size values.length)

/-- Sets the values of an input node, which have to be as many as the outlet has elements. -/
def setInput (s : Slot) (values : List s.type.Value) : Except GraphError Slot :=
  match s.body with
  | .input _ =>
    if values.length = s.size then .ok { s with body := .input values }
    else .error (.invalidDimension s.id s.size values.length)
  | _ => .error (.wrongNodeKind s.id "an input node")

def setInputTexts (s : Slot) (texts : List String) : Except GraphError Slot :=
  if s.isInput then
    match texts.mapM s.type.parse with
    | .ok values => s.setInput values
    | .error e => .error (.invalidValue s.id e)
  else .error (.wrongNodeKind s.id "an input node")

/-- Sets the values of an input node for elements of type `t`. Any other node stays as it is. -/
def setInputOf (s : Slot) (t : ElementType) (values : List t.Value) : Except GraphError Slot :=
  if same : t = s.type ∧ s.isInput = true then s.setInput (same.1 ▸ values) else .ok s

/-- A buffer of defaults, unless it would be too long. -/
def freshBuffer (t : ElementType) (size : Nat) : Except Archive.Error (List t.Value) :=
  if storedSizeLimit < size then .error (.outOfRange "port size" (toString size))
  else .ok (List.replicate size t.default)

/-- Gives the outlet another size, and a buffer for it. -/
def resize (s : Slot) (size : Nat) : Except Archive.Error Slot := do
  return { s with buffer := ← freshBuffer s.type size, size := size }

/-- Reads the outlet of a node. -/
def readOutlet (s : Slot) (a : Archive) : Except Archive.Error Slot := do
  checkStoredType s.type a
  s.resize (← a.read Archive.Value.asSize "size").toNat

/-- The node after its state has been read from an archive. -/
def restored (s : Slot) (a : Archive) : Except Archive.Error Slot := do
  match s.body with
  | .input _ =>
    let s ← a.readObject Node.outletName s.readOutlet
    return { s with body := .input (← freshBuffer s.type s.size) }
  | .constant _ =>
    let values ← a.read (Archive.Value.asList s.type.ofStored) "values"
    let s ← a.readObject Node.outletName { s with body := .constant values }.readOutlet
    Node.agree (s.size = values.length) (toString values.length ++
      " values for an output of size " ++ toString s.size)
    return s
  | .output _ =>
    let source ← Node.readInlet a s.type "input"
    let s ← a.readObject Node.outletName { s with body := .output source }.readOutlet
    Node.agree (source.size = s.size) ("input has " ++ toString source.size ++
      " elements but output has " ++ toString s.size)
    return s
  | .operation numeric _ _ _ =>
    let op ← Node.readOperation a
    let left ← Node.readInlet a s.type "input1"
    let right ← Node.readInlet a s.type "input2"
    let s ← a.readObject Node.outletName
      { s with body := .operation numeric op left right }.readOutlet
    Node.agree (left.size = right.size && left.size = s.size) ("port sizes disagree: input1 " ++
      toString left.size ++ ", input2 " ++ toString right.size ++ ", output " ++ toString s.size)
    return s

end Slot

end FlowGraph
