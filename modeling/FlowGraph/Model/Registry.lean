import FlowGraph.Graph.Node
import FlowGraph.Archive.Value

namespace FlowGraph

/-- Something that draws ids. The ids it has drawn stay drawn when it fails. -/
abbrev Drawing := ExceptT GraphError (StateM Supply)

namespace Drawing

variable {α : Type}

def runWith (d : Drawing α) (s : Supply) : Except GraphError α × Supply := d.run s

def drawId : Drawing NodeId := fun s =>
  let (id, s) := s.draw
  (.ok id, s)

def ofExcept (result : Except GraphError α) : Drawing α := fun s => (result, s)

end Drawing

/-- The node types that can be made by name, in the order of their names. -/
structure Registry where
  entries : List (String × NodeType) := []

namespace Registry

def empty : Registry := ⟨[]⟩

/-- Registers a type under a name, in place of what had that name. -/
def registerAs (r : Registry) (name : String) (type : NodeType) : Registry :=
  ⟨insertNamed name type r.entries⟩

/-- Registers a type under its own name. -/
def register (r : Registry) (type : NodeType) : Registry := r.registerAs type.name type

def operationType? (t : ElementType) : Option NodeType :=
  if numeric : t.isNumeric = true then some (.operation t numeric) else none

/-- Every node type there is. -/
def allTypes : List NodeType :=
  ElementType.all.flatMap (fun t => [.input t, .output t, .constant t]) ++
    ElementType.all.filterMap operationType?

/-- Every node type under its own name. -/
def builtin : Registry := allTypes.foldl register empty

def names (r : Registry) : List String := r.entries.map Prod.fst

def contains (r : Registry) (name : String) : Bool := (r.entries.lookup name).isSome

/-- Makes a node without elements. -/
def create (r : Registry) (name : String) : Drawing Node :=
  match r.entries.lookup name with
  -- an unknown name costs no id
  | some type => do return .blank (← Drawing.drawId) type
  | none => throw (.unknownNodeType name)

end Registry

end FlowGraph
