import FlowGraph.Decimal.Basic

namespace FlowGraph.Decimal

def splitSign : List Char → Bool × List Char
  | '-' :: rest => (true, rest)
  | '+' :: rest => (false, rest)
  | text => (false, text)

/-- The power of ten after an exponent mark. -/
def readPower? (text : List Char) : Option Int :=
  let (negative, digits) := splitSign text
  if digits.isEmpty || !digits.all Char.isDigit then none
  else some (if negative then -(ofDigits digits : Int) else ofDigits digits)

/-- What may follow the digits: nothing, or an exponent. -/
def readExponent? : List Char → Option (Option Int)
  | [] => some none
  | c :: rest => if c = 'e' || c = 'E' then (readPower? rest).map some else none

/-- Digits with at most one point among or beside them, then perhaps an exponent. -/
def Numeral.read? (text : List Char) : Option Numeral :=
  let whole := text.takeWhile Char.isDigit
  let rest := text.dropWhile Char.isDigit
  let (fraction, rest) := match rest with
    | '.' :: rest => (rest.takeWhile Char.isDigit, rest.dropWhile Char.isDigit)
    | _ => ([], rest)
  -- a point alone is no number
  if whole.isEmpty && fraction.isEmpty then none
  else (readExponent? rest).map fun exponent => ⟨whole, fraction, exponent⟩

/-- A number of a binary format: a numeral, an infinity or NaN, with an optional sign. Names are
read in any case. -/
def readBinary? {f : Binary.Format} (text : List Char) : Option (Binary f) :=
  let (negative, rest) := splitSign text
  let name := rest.map Char.toLower
  if name = "inf".toList || name = "infinity".toList then some (.infinity negative)
  else if name = "nan".toList then some (.nan negative)
  else (Numeral.read? rest).map (·.decimal.toBinary negative)

end FlowGraph.Decimal
