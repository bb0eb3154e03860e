import FlowGraph.Element.Value

namespace FlowGraph

/-- Element-wise arithmetic. -/
inductive Operation
  | add
  | subtract
  | multiply
  | divide
deriving DecidableEq, Repr, Inhabited

namespace Operation

def name : Operation → String
  | add => "add"
  | subtract => "subtract"
  | multiply => "multiply"
  | divide => "divide"

/-- Reads a name, a short name or a sign, in any case. -/
def ofName? (text : String) : Option Operation :=
  match Text.lowercase text with
  | "add" | "+" => some add
  | "subtract" | "sub" | "-" => some subtract
  | "multiply" | "mul" | "*" => some multiply
  | "divide" | "div" | "/" => some divide
  | _ => none

def applyInt32 (op : Operation) (x y : Int32) : Option Int32 :=
  match op with
  | add => some (x + y)
  | subtract => some (x - y)
  | multiply => some (x * y)
  -- the least number divided by minus one is the only quotient out of range
  | divide => if y = 0 ∨ (x = Int32.minValue ∧ y = -1) then none else some (x / y)

def applyInt64 (op : Operation) (x y : Int64) : Option Int64 :=
  match op with
  | add => some (x + y)
  | subtract => some (x - y)
  | multiply => some (x * y)
  | divide => if y = 0 ∨ (x = Int64.minValue ∧ y = -1) then none else some (x / y)

def applyBinary {f : Binary.Format} (op : Operation) (x y : Binary f) : Binary f :=
  match op with
  | add => x.add y
  | subtract => x.sub y
  | multiply => x.mul y
  | divide => x.div y

/-- The result of an operation, if it has one. Integers wrap around, division drops the fraction and
has no result for a zero divisor or one that does not fit; truth values have no arithmetic. -/
def apply (op : Operation) : (t : ElementType) → t.Value → t.Value → Option t.Value
  | .bool, _, _ => none
  | .int, x, y => op.applyInt32 x y
  | .int64, x, y => op.applyInt64 x y
  | .float, x, y => some (op.applyBinary (f := .single) x y)
  | .double, x, y => some (op.applyBinary (f := .double) x y)

end Operation

end FlowGraph
