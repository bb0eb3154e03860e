/-! Binary interchange formats. The positive numbers of a format are counted in steps, one step
being its least positive number, so that rounding to a format is one division of naturals. -/
namespace FlowGraph.Binary

structure Format where
  /-- Significant bits, the hidden one included. -/
  precision : Nat
  exponentBits : Nat
deriving DecidableEq, Repr

namespace Format

/-- The 32 bit format. -/
def single : Format := ⟨24, 8⟩

/-- The 64 bit format. -/
def double : Format := ⟨53, 11⟩

def fractionBits (f : Format) : Nat := f.precision - 1

/-- Bits of a word without its sign. -/
def magnitudeBits (f : Format) : Nat := f.exponentBits + f.fractionBits

def width (f : Format) : Nat := f.magnitudeBits + 1

/-- One step is `2 ^ -depth`. -/
def depth (f : Format) : Nat := 1 <<< (f.exponentBits - 1) - 3 + f.precision

/-- The magnitude of infinity; those above it are not numbers. -/
def infinity (f : Format) : Nat := (1 <<< f.exponentBits - 1) <<< f.fractionBits

/-- How many steps a finite magnitude stands for. -/
def steps (f : Format) (magnitude : Nat) : Nat :=
  let exponent := magnitude >>> f.fractionBits
  let fraction := magnitude % (1 <<< f.fractionBits)
  -- without an exponent there is no hidden bit
  if exponent = 0 then fraction else (fraction + 1 <<< f.fractionBits) <<< (exponent - 1)

/-- The quotient rounded to the nearest natural, a half going to the even neighbour. -/
def halfEven (num den : Nat) : Nat :=
  let quotient := num / den
  let rest := num % den
  if 2 * rest < den then quotient
  else if den < 2 * rest then quotient + 1
  -- exactly half way: an odd quotient goes up, an even one stays
  else quotient + quotient % 2

/-- The magnitude nearest to `num / den`. The exponent `k` leaves `precision` bits of the quotient,
or fewer below the normal range; a carry out of the fraction moves into the exponent by itself. -/
def nearest (f : Format) (num den : Nat) : Nat :=
  let scaled := num <<< f.depth
  -- cut off at zero, which is what keeps fewer bits below the normal range
  let k := (scaled / den).log2 - f.fractionBits
  min (k <<< f.fractionBits + halfEven scaled (den <<< k)) f.infinity

end Format

end FlowGraph.Binary
