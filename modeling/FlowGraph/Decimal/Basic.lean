import FlowGraph.Binary.Number

namespace FlowGraph

/-- The number `coefficient * 10 ^ exponent`. -/
structure Decimal where
  coefficient : Nat
  exponent : Int
deriving DecidableEq, Repr

namespace Decimal

def digitValue (c : Char) : Nat := c.toNat - '0'.toNat

def ofDigits (digits : List Char) : Nat :=
  digits.foldl (fun total c => 10 * total + digitValue c) 0

/-- The magnitude of `f` nearest to a decimal, infinity if there is none. Powers of ten that decide
the answer by their size alone are not computed. -/
def nearest (f : Binary.Format) (d : Decimal) : Nat :=
  if d.coefficient = 0 then 0
  else
    match d.exponent with
    -- such a power overflows, whatever the coefficient
    | .ofNat e => if f.depth < e then f.infinity else f.nearest (d.coefficient * Nat.pow 10 e) 1
    | .negSucc e =>
      if f.depth + d.coefficient.log2 < e then 0 else f.nearest d.coefficient (Nat.pow 10 (e + 1))

def toBinary {f : Binary.Format} (d : Decimal) (negative : Bool) : Binary f :=
  .ofMagnitude negative (d.nearest f)

/-- A number as it is written, without its sign. -/
structure Numeral where
  whole : List Char
  /-- The digits after the point; there is no point without them. -/
  fraction : List Char
  exponent : Option Int
deriving DecidableEq, Repr

namespace Numeral

def decimal (n : Numeral) : Decimal :=
  ⟨ofDigits (n.whole ++ n.fraction), n.exponent.getD 0 - n.fraction.length⟩

def isWhole (n : Numeral) : Bool := n.fraction.isEmpty && n.exponent.isNone

def ofNat (n : Nat) : Numeral := ⟨Nat.toDigits 10 n, [], none⟩

def exponentText : Option Int → List Char
  | none => []
  | some e => 'e' :: (if e < 0 then '-' else '+') :: Nat.toDigits 10 e.natAbs

def text (n : Numeral) : List Char :=
  n.whole ++ (if n.fraction.isEmpty then [] else '.' :: n.fraction) ++ exponentText n.exponent

end Numeral

end Decimal

end FlowGraph
