import FlowGraph.Element.Operation
import FlowGraph.Graph.Outlet

namespace FlowGraph

/-- What a node for elements of type `t` does. Only types with arithmetic have operations. -/
inductive Body (t : ElementType)
  /-- Gives the values it was last set to. -/
  | input (values : List t.Value)
  /-- Always gives the same values. -/
  | constant (values : List t.Value)
  /-- Gives what it reads; marks a result of the model. -/
  | output (source : Selection)
  /-- Combines what it reads element by element. -/
  | operation (numeric : t.isNumeric = true) (op : Operation) (left right : Selection)

structure Node where
  id : NodeId
  type : ElementType
  body : Body type
  /-- The values last produced. -/
  buffer : List type.Value

/-- The kinds of nodes, for elements of a type. -/
inductive NodeType
  | input (t : ElementType)
  | constant (t : ElementType)
  | output (t : ElementType)
  | operation (t : ElementType) (numeric : t.isNumeric = true)
deriving DecidableEq, Repr

namespace NodeType

def name : NodeType → String
  | input t => t.qualify "InputNode"
  | constant t => t.qualify "ConstantNode"
  | output t => t.qualify "OutputNode"
  | operation t _ => t.qualify "BinaryOperationNode"

end NodeType

namespace Node

def outletName : String := "output"

def address (n : Node) : OutletRef := ⟨n.id, outletName⟩

def outlet (n : Node) : Outlet := ⟨n.address, n.type, n.buffer⟩

def size (n : Node) : Nat := n.buffer.length

def inlets (n : Node) : List Inlet :=
  match n.body with
  | .input _ | .constant _ => []
  | .output source => [⟨n.id, "input", n.type, source⟩]
  | .operation _ _ left right => [⟨n.id, "input1", n.type, left⟩, ⟨n.id, "input2", n.type, right⟩]

def nodeType (n : Node) : NodeType :=
  match n.body with
  | .input _ => .input n.type
  | .constant _ => .constant n.type
  | .output _ => .output n.type
  | .operation numeric _ _ _ => .operation n.type numeric

def isInput (n : Node) : Bool := n.body matches .input _

def isOutput (n : Node) : Bool := n.body matches .output _

/-- An input node with `dimension` elements. -/
def input (id : NodeId) (t : ElementType) (dimension : Nat) : Node :=
  ⟨id, t, .input (List.replicate dimension t.default), List.replicate dimension t.default⟩

def constant (id : NodeId) (t : ElementType) (values : List t.Value) : Node :=
  ⟨id, t, .constant values, List.replicate values.length t.default⟩

def output (id : NodeId) (t : ElementType) (source : Selection) : Node :=
  ⟨id, t, .output source, List.replicate source.size t.default⟩

/-- An operation on two selections of the same size. -/
def operation (id : NodeId) (t : ElementType) (numeric : t.isNumeric = true) (op : Operation)
    (left right : Selection) : Except GraphError Node :=
  if left.size = right.size then
    .ok ⟨id, t, .operation numeric op left right, List.replicate left.size t.default⟩
  else .error (.sizeMismatch (id.text ++ ".input2") left.size right.size)

/-- A node without elements. -/
def blank (id : NodeId) : NodeType → Node
  | .input t => input id t 0
  | .constant t => constant id t []
  | .output t => output id t .empty
  | .operation t numeric => ⟨id, t, .operation numeric .add .empty .empty, []⟩

def inlet (n : Node) (name : String) : Except GraphError Inlet :=
  (n.inlets.find? (·.name = name)).elim (.error (.unknownName n.id .input name)) .ok

def outletNamed (n : Node) (name : String) : Except GraphError Outlet :=
  if name = outletName then .ok n.outlet else .error (.unknownName n.id .output name)

/-- The nodes that a node reads from, each once. -/
def dependencies (n : Node) : List NodeId :=
  (n.inlets.flatMap (·.selection.nodes)).eraseDups

/-- The values an input node for elements of type `t` was set to. -/
def inputs? (n : Node) (t : ElementType) : Option (List t.Value) :=
  match n.body with
  | .input values => if same : n.type = t then some (same ▸ values) else none
  | _ => none

/-- The values of a constant node for elements of type `t`. -/
def constants? (n : Node) (t : ElementType) : Option (List t.Value) :=
  match n.body with
  | .constant values => if same : n.type = t then some (same ▸ values) else none
  | _ => none

def operator? (n : Node) : Option Operation :=
  match n.body with
  | .operation _ op _ _ => some op
  | _ => none

def shape (name : String) (t : ElementType) (size : Nat) : String :=
  name ++ ":" ++ t.name ++ "[" ++ toString size ++ "]"

/-- The node on one line: its id, its type and what it reads and gives. -/
def summary (n : Node) : String :=
  let inlets := n.inlets.map fun i => shape i.name i.type i.size
  n.id.text ++ " " ++ n.nodeType.name ++ " in(" ++ ", ".intercalate inlets ++ ") out(" ++
    shape outletName n.type n.size ++ ")"

/-- Sets the values of an input node, which have to be as many as before. -/
def setInput (n : Node) (values : List n.type.Value) : Except GraphError Node :=
  match n.body with
  | .input _ =>
    if values.length = n.size then .ok { n with body := .input values }
    else .error (.invalidDimension n.id n.size values.length)
  | _ => .error (.wrongNodeKind n.id "an input node")

/-- Sets the values of an input node from texts. Nothing is set if one cannot be read. -/
def setInputTexts (n : Node) (texts : List String) : Except GraphError Node :=
  if n.isInput then
    -- all texts are read before the first value changes
    match texts.mapM n.type.parse with
    | .ok values => n.setInput values
    | .error e => .error (.invalidValue n.id e)
  else .error (.wrongNodeKind n.id "an input node")

/-- The node with other selections to read, one for each inlet; nothing is checked. -/
def rewire (n : Node) (change : Inlet → Selection) : Node :=
  match n.body with
  | .output source => { n with body := .output (change ⟨n.id, "input", n.type, source⟩) }
  | .operation numeric op left right =>
    { n with
      body := .operation numeric op (change ⟨n.id, "input1", n.type, left⟩)
        (change ⟨n.id, "input2", n.type, right⟩) }
  | _ => n

/-- Renames the nodes that the inlets read from. The first name that cannot be replaced is the
error. -/
def renameInlets (n : Node) (rename : NodeId → Option NodeId) :
    Except (String × OutletRef) Node := do
  match n.body with
  | .output source => return { n with body := .output (← source.renamed rename "input") }
  | .operation numeric op left right =>
    -- the left operand is the first to fail, whatever the right one reads
    let left ← left.renamed rename "input1"
    return { n with body := .operation numeric op left (← right.renamed rename "input2") }
  | _ => return n

end Node

end FlowGraph
