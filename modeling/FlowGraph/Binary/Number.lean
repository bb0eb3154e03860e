import FlowGraph.Binary.Format

/-! Numbers of a binary format, kept as their bits. Every operation is exact on steps and rounds
once. -/
namespace FlowGraph

/-- A number of the format `f`. -/
structure Binary (f : Binary.Format) where
  bits : BitVec f.width
deriving DecidableEq, Repr

namespace Binary

variable {f g : Format}

instance : Inhabited (Binary f) := ⟨⟨0⟩⟩

def negative (x : Binary f) : Bool := x.bits.msb

def magnitude (x : Binary f) : Nat := x.bits.toNat % (1 <<< f.magnitudeBits)

def isNaN (x : Binary f) : Bool := f.infinity < x.magnitude

def isFinite (x : Binary f) : Bool := x.magnitude < f.infinity

def steps (x : Binary f) : Nat := f.steps x.magnitude

/-- The finite number with its sign, in steps. -/
def signedSteps (x : Binary f) : Int := if x.negative then -(x.steps : Int) else x.steps

def ofMagnitude (negative : Bool) (magnitude : Nat) : Binary f :=
  ⟨BitVec.ofNat _ (magnitude + if negative then 1 <<< f.magnitudeBits else 0)⟩

def infinity (negative : Bool) : Binary f := ofMagnitude negative f.infinity

/-- The quiet bit, the highest one of the fraction. -/
def quietBit (f : Format) : Nat := 1 <<< (f.fractionBits - 1)

def nan (negative : Bool) : Binary f := ofMagnitude negative (f.infinity ||| quietBit f)

/-- The number nearest to `± num / den`. -/
def ofRatio (negative : Bool) (num den : Nat) : Binary f :=
  ofMagnitude negative (f.nearest num den)

def negate (x : Binary f) : Binary f := ofMagnitude (!x.negative) x.magnitude

/-- A NaN with its quiet bit set. -/
def quieten (x : Binary f) : Binary f := ofMagnitude x.negative (x.magnitude ||| quietBit f)

/-- The same number in another format, rounded once. A NaN keeps its sign and the leading bits of
its fraction, and is made quiet. -/
def convert (x : Binary f) : Binary g :=
  if x.isNaN then
    let fraction := x.magnitude % (1 <<< f.fractionBits)
    -- a narrower format has room for the leading bits only
    let moved := (fraction <<< g.fractionBits) >>> f.fractionBits
    ofMagnitude x.negative (g.infinity ||| moved ||| quietBit g)
  else if x.isFinite then ofRatio x.negative x.steps (1 <<< f.depth)
  else infinity x.negative

/-- What an operation without a result gives. -/
def undefined : Binary f := nan true

/-- A NaN operand is the result, the first one if both are. -/
def orNaN (x y : Binary f) (result : Binary f) : Binary f :=
  if x.isNaN then x.quieten else if y.isNaN then y.quieten else result

/-- The sum of two numbers that are not NaN. A sum of zero is negative only if both terms are. -/
def sum (x y : Binary f) : Binary f :=
  if x.isFinite && y.isFinite then
    let total := x.signedSteps + y.signedSteps
    let negative := if total = 0 then x.negative && y.negative else decide (total < 0)
    ofRatio negative total.natAbs (1 <<< f.depth)
  else if x.isFinite then y
  -- infinities of opposite signs have no sum
  else if y.isFinite || x.negative == y.negative then x
  else undefined

def add (x y : Binary f) : Binary f := orNaN x y (sum x y)

def sub (x y : Binary f) : Binary f := orNaN x y (sum x y.negate)

def mul (x y : Binary f) : Binary f :=
  let negative := x.negative != y.negative
  orNaN x y <|
    if x.isFinite && y.isFinite then ofRatio negative (x.steps * y.steps) (1 <<< (2 * f.depth))
    -- infinity times zero
    else if x.magnitude = 0 || y.magnitude = 0 then undefined
    else infinity negative

def div (x y : Binary f) : Binary f :=
  let negative := x.negative != y.negative
  orNaN x y <|
    -- a quotient by infinity is zero, unless it is one of two infinities
    if !y.isFinite then if x.isFinite then ofMagnitude negative 0 else undefined
    else if !x.isFinite then infinity negative
    else if y.magnitude = 0 then if x.magnitude = 0 then undefined else infinity negative
    -- the unit of a step cancels out
    else ofRatio negative x.steps y.steps

end Binary

end FlowGraph
