import FlowGraph.Decimal.Basic

/-! The shortest decimal that reads back as a given number, of all decimals with the fewest digits
that are read as it the nearest, and how it is laid out. -/
namespace FlowGraph.Decimal

/-- What to do when two shortest decimals are equally near. -/
inductive Tie
  | up
  | even
deriving DecidableEq, Repr

/-- The least `e` with `num / den < 10 ^ e`, unless `num / den` is a power of ten below one. -/
def leadingExponent (num den : Nat) : Int :=
  if den ≤ num then (Nat.toDigits 10 (num / den)).length
  else 1 - (Nat.toDigits 10 (den / num)).length

/-- The two neighbours of `num / den` among the multiples of `10 ^ exponent` that are read as
`magnitude`; the nearer one if both are. -/
def onGrid? (f : Binary.Format) (tie : Tie) (magnitude num den : Nat) (exponent : Int) :
    Option Decimal :=
  let num := num * Nat.pow 10 (-exponent).toNat
  let den := den * Nat.pow 10 exponent.toNat
  let lower : Decimal := ⟨num / den, exponent⟩
  let upper : Decimal := ⟨num / den + 1, exponent⟩
  -- both may round to `magnitude`, then the nearer one is meant
  let nearer :=
    if 2 * (num % den) < den then lower
    else if den < 2 * (num % den) then upper
    else match tie with
      | .up => upper
      | .even => if lower.coefficient % 2 = 0 then lower else upper
  if nearer.nearest f = magnitude then some nearer
  else if lower.nearest f = magnitude then some lower
  else if upper.nearest f = magnitude then some upper
  else none

/-- Tries grids of `digits`, `digits + 1`, … digits. -/
def searchFrom (f : Binary.Format) (tie : Tie) (magnitude : Nat) (top : Int) (digits : Nat) :
    Nat → Decimal
  | 0 => ⟨f.steps magnitude * Nat.pow 5 f.depth, -f.depth⟩
  | fuel + 1 =>
    match onGrid? f tie magnitude (f.steps magnitude) (1 <<< f.depth) (top - digits) with
    | some d => d
    | none => searchFrom f tie magnitude top (digits + 1) fuel

/-- The shortest decimal read as the finite `magnitude`. A number has no more decimal digits than
binary ones; past that, its exact expansion is left. -/
def shortest (f : Binary.Format) (tie : Tie) (magnitude : Nat) : Decimal :=
  if magnitude = 0 then ⟨0, 0⟩
  else
    searchFrom f tie magnitude (leadingExponent (f.steps magnitude) (1 <<< f.depth)) 1 f.precision

/-- How a format writes finite numbers. -/
structure Layout where
  tie : Tie
  /-- The powers of ten of a first digit that are written without an exponent. -/
  positional : Int → Bool
  /-- The digits after the point of a whole number written without an exponent. -/
  wholeFraction : List Char

/-- Never an exponent, and no point after a whole number. -/
def Layout.plain : Layout := ⟨.up, fun _ => true, []⟩

def zeros (count : Nat) : List Char := List.replicate count '0'

/-- The digits without the zeros at their end, and the place of the point among them. -/
def significant (d : Decimal) : List Char × Int :=
  let digits := Nat.toDigits 10 d.coefficient
  let kept := (digits.reverse.dropWhile (· = '0')).reverse
  -- zero has no other digits
  if kept.isEmpty then (['0'], 1) else (kept, digits.length + d.exponent)

def Layout.arrange (l : Layout) (d : Decimal) : Numeral :=
  let (digits, point) := d.significant
  if !l.positional (point - 1) then ⟨digits.take 1, digits.drop 1, some (point - 1)⟩
  else if point ≤ 0 then ⟨['0'], zeros (-point).toNat ++ digits, none⟩
  else if digits.length ≤ point.toNat then
    ⟨digits ++ zeros (point.toNat - digits.length), l.wholeFraction, none⟩
  else ⟨digits.take point.toNat, digits.drop point.toNat, none⟩

/-- A finite number, without its sign, as its shortest decimal. -/
def Layout.numeral (l : Layout) {f : Binary.Format} (x : Binary f) : Numeral :=
  l.arrange (shortest f l.tie x.magnitude)

def Layout.write (l : Layout) {f : Binary.Format} (x : Binary f) : String :=
  (if x.negative then "-" else "") ++ String.ofList (l.numeral x).text

end FlowGraph.Decimal
