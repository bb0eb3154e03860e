import FlowGraph.Element.Type
import FlowGraph.Text.Basic
import FlowGraph.Decimal.Layout
import FlowGraph.Decimal.Reader

namespace FlowGraph

/-- An element of type `t`. -/
def ElementType.Value : ElementType → Type
  | .bool => Bool
  | .int => Int32
  | .int64 => Int64
  | .float => Binary .single
  | .double => Binary .double

instance : (t : ElementType) → DecidableEq t.Value
  | .bool => inferInstanceAs (DecidableEq Bool)
  | .int => inferInstanceAs (DecidableEq Int32)
  | .int64 => inferInstanceAs (DecidableEq Int64)
  | .float => inferInstanceAs (DecidableEq (Binary .single))
  | .double => inferInstanceAs (DecidableEq (Binary .double))

/-- A text that is no value of its type. -/
structure Unreadable where
  text : String
  type : ElementType
deriving DecidableEq, Repr

def Unreadable.message (e : Unreadable) : String :=
  "cannot parse '" ++ e.text ++ "' as " ++ e.type.name

/-- Digits with an optional sign. -/
def readInteger? (text : List Char) : Option Int :=
  let (negative, digits) := Decimal.splitSign text
  if digits.isEmpty || !digits.all Char.isDigit then none
  else
    let magnitude : Int := Decimal.ofDigits digits
    some (if negative then -magnitude else magnitude)

namespace ElementType

/-- The value of an element nobody has set. -/
def default : (t : ElementType) → t.Value
  | .bool => false
  | .int => (0 : Int32)
  | .int64 => (0 : Int64)
  | .float => (⟨0⟩ : Binary .single)
  | .double => (⟨0⟩ : Binary .double)

instance (t : ElementType) : Inhabited t.Value := ⟨t.default⟩

def displayBool (b : Bool) : String := if b then "true" else "false"

def displayBinary {f : Binary.Format} (x : Binary f) : String :=
  if x.isNaN then "NaN"
  else if x.isFinite then Decimal.Layout.plain.write x
  else if x.negative then "-inf" else "inf"

/-- A value as text. -/
def display : (t : ElementType) → t.Value → String
  | .bool, b => displayBool b
  | .int, n => toString (n : Int32).toInt
  | .int64, n => toString (n : Int64).toInt
  | .float, x => displayBinary (x : Binary .single)
  | .double, x => displayBinary (x : Binary .double)

def readTrimmed? : (t : ElementType) → String → Option t.Value
  | .bool, text =>
    match Text.lowercase text with
    | "true" | "1" => some true
    | "false" | "0" => some false
    | _ => none
  | .int, text => do
    let n ← readInteger? text.toList
    if Int32.minValue.toInt ≤ n ∧ n ≤ Int32.maxValue.toInt then some (Int32.ofInt n) else none
  | .int64, text => do
    let n ← readInteger? text.toList
    if Int64.minValue.toInt ≤ n ∧ n ≤ Int64.maxValue.toInt then some (Int64.ofInt n) else none
  | .float, text => (Decimal.readBinary? text.toList : Option (Binary .single))
  | .double, text => (Decimal.readBinary? text.toList : Option (Binary .double))

/-- Reads a value, with blanks around it or none. -/
def parse (t : ElementType) (text : String) : Except Unreadable t.Value :=
  match t.readTrimmed? (Text.trim text) with
  | some v => .ok v
  | none => .error ⟨text, t⟩

end ElementType

end FlowGraph
