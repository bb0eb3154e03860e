import FlowGraph.Binary.Number

/-! Archives: trees of named, typed properties, the form in which everything is stored. -/
namespace FlowGraph

/-- Puts a value in its place, or in the place of the one of that name. -/
def insertNamed {α : Type} (name : String) (value : α) : List (String × α) → List (String × α)
  | [] => [(name, value)]
  | (other, old) :: rest =>
    if name < other then (name, value) :: (other, old) :: rest
    else if name = other then (name, value) :: rest
    else (other, old) :: insertNamed name value rest

end FlowGraph

namespace FlowGraph.Archive

/-- The type tag of a value. -/
inductive Kind
  | bool
  | int
  | uint
  | float
  | string
  | array
  | object
deriving DecidableEq, Repr

def Kind.name : Kind → String
  | bool => "bool"
  | int => "int"
  | uint => "uint"
  | float => "float"
  | string => "string"
  | array => "array"
  | object => "object"

def Kind.all : List Kind := [bool, int, uint, float, string, array, object]

def Kind.ofName? (name : String) : Option Kind := Kind.all.find? (·.name = name)

/-- A property value. The properties of an object are kept in the order of their names. -/
inductive Value
  | bool (b : Bool)
  | int (n : Int64)
  | uint (n : UInt64)
  | float (x : Binary .double)
  | string (s : String)
  | array (items : List Value)
  | object (properties : List (String × Value))
deriving Inhabited

def Value.kind : Value → Kind
  | bool _ => .bool
  | int _ => .int
  | uint _ => .uint
  | float _ => .float
  | string _ => .string
  | array _ => .array
  | object _ => .object

end FlowGraph.Archive

namespace FlowGraph

/-- Named properties, in the order of their names. -/
structure Archive where
  properties : List (String × Archive.Value) := []

namespace Archive

def empty : Archive := ⟨[]⟩

instance : Inhabited Archive := ⟨empty⟩

def insert (a : Archive) (name : String) (value : Value) : Archive :=
  ⟨insertNamed name value a.properties⟩

/-- Inserts properties one after the other; of two with one name the later stays. -/
def ofList (properties : List (String × Value)) : Archive :=
  properties.foldl (fun a property => a.insert property.1 property.2) empty

def get? (a : Archive) (name : String) : Option Value := a.properties.lookup name

def contains (a : Archive) (name : String) : Bool := (a.get? name).isSome

def size (a : Archive) : Nat := a.properties.length

def isEmpty (a : Archive) : Bool := a.properties.isEmpty

def names (a : Archive) : List String := a.properties.map Prod.fst

def toValue (a : Archive) : Value := .object a.properties

end Archive

end FlowGraph
