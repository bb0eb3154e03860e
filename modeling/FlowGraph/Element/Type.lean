import FlowGraph.Text.Lowercase

namespace FlowGraph

/-- What the elements of an outlet are. -/
inductive ElementType
  | bool
  | int
  | int64
  | float
  | double
deriving DecidableEq, Repr, Inhabited

namespace ElementType

def all : List ElementType := [.bool, .int, .int64, .float, .double]

def name : ElementType → String
  | bool => "bool"
  | int => "int"
  | int64 => "int64"
  | float => "float"
  | double => "double"

def byteSize : ElementType → Nat
  | bool => 1
  | int => 4
  | int64 => 8
  | float => 4
  | double => 8

/-- Types with arithmetic. -/
def isNumeric : ElementType → Bool
  | bool => false
  | _ => true

/-- Reads a type name or one of its synonyms, in any case. -/
def ofName? (text : String) : Option ElementType :=
  match Text.lowercase text with
  | "bool" | "boolean" => some bool
  | "int" | "i32" | "int32" => some int
  | "int64" | "i64" | "bigint" => some int64
  | "float" | "f32" | "float32" => some float
  | "double" | "f64" | "float64" | "real" => some double
  | _ => none

/-- The name of a node type made for elements of this type. -/
def qualify (t : ElementType) (base : String) : String := base ++ "<" ++ t.name ++ ">"

end ElementType

end FlowGraph
