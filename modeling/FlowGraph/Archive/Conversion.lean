import FlowGraph.Archive.Error
import FlowGraph.Decimal.Layout

/-! Typed reading of values. The kind has to be right: an integer is never read as a float. Integers
of either sign are read into any integer type that holds them. -/
namespace FlowGraph.Archive.Value

def wrongType {α : Type} (v : Value) (expected : Kind) : Except Error α :=
  .error (.wrongType expected v.kind)

def asBool : Value → Except Error Bool
  | bool b => .ok b
  | v => v.wrongType .bool

def asInt64 : Value → Except Error Int64
  | int n => .ok n
  | uint n =>
    if n.toNat ≤ Int64.maxValue.toInt then .ok (Int64.ofInt n.toNat)
    else .error (.outOfRange "i64" (toString n.toNat))
  | v => v.wrongType .int

def asInt32 (v : Value) : Except Error Int32 := do
  let n ← v.asInt64
  if Int32.minValue.toInt ≤ n.toInt ∧ n.toInt ≤ Int32.maxValue.toInt then
    .ok (Int32.ofInt n.toInt)
  else .error (.outOfRange "i32" (toString n.toInt))

def asUInt64 : Value → Except Error UInt64
  | uint n => .ok n
  | int n =>
    if 0 ≤ n.toInt then .ok (UInt64.ofNat n.toInt.toNat)
    else .error (.outOfRange "u64" (toString n.toInt))
  | v => v.wrongType .uint

def asUInt32 (v : Value) : Except Error UInt32 := do
  let n ← v.asUInt64
  if n.toNat < UInt32.size then .ok (UInt32.ofNat n.toNat)
  else .error (.outOfRange "u32" (toString n.toNat))

/-- A size has 64 bits. -/
def asSize (v : Value) : Except Error UInt64 := v.asUInt64

def asDouble : Value → Except Error (Binary .double)
  | float x => .ok x
  | v => v.wrongType .float

/-- The greatest finite number of the 32 bit format. -/
def greatestSingle : Binary .double :=
  Binary.convert (.ofMagnitude false (Binary.Format.single.infinity - 1) : Binary .single)

def asSingle (v : Value) : Except Error (Binary .single) := do
  let x ← v.asDouble
  if x.isFinite && greatestSingle.magnitude < x.magnitude then
    .error (.outOfRange "f32" (Decimal.Layout.plain.write x))
  else .ok x.convert

def asString : Value → Except Error String
  | string s => .ok s
  | v => v.wrongType .string

def asArchive : Value → Except Error Archive
  | object properties => .ok ⟨properties⟩
  | v => v.wrongType .object

/-- A list whose items are all read the same way. The first item that fails decides. -/
def asList {α : Type} (read : Value → Except Error α) : Value → Except Error (List α)
  | array items => items.mapM read
  | v => v.wrongType .array

def ofInt32 (n : Int32) : Value := .int (Int64.ofInt n.toInt)

def ofUInt32 (n : UInt32) : Value := .uint (UInt64.ofNat n.toNat)

/-- Widening a number loses nothing. -/
def ofSingle (x : Binary .single) : Value := .float x.convert

def ofList {α : Type} (write : α → Value) (items : List α) : Value := .array (items.map write)

end FlowGraph.Archive.Value
