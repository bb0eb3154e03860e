import FlowGraph.Decimal.Reader
import FlowGraph.Toml.Table

/-! Values without delimiters: truth values, numbers, dates and times of day. -/
namespace FlowGraph.Toml

def isScalarChar (c : Char) : Bool :=
  c.isAlphanum || c = '_' || c = '+' || c = '-' || c = '.' || c = ':'

/-- Digits, with single underscores between them. -/
def isGrouped (isDigit : Char → Bool) : List Char → Bool
  | [] => false
  | [c] => isDigit c
  | c :: '_' :: rest => isDigit c && isGrouped isDigit rest
  | c :: rest => isDigit c && isGrouped isDigit rest

def ungroup (text : List Char) : List Char := text.filter (· ≠ '_')

/-- A whole part has no zero before other digits. -/
def isWhole (text : List Char) : Bool :=
  isGrouped Char.isDigit text && (text.length = 1 || text.head? ≠ some '0')

def readBase? (base : Nat) (text : List Char) : Option Int :=
  let digitValue (c : Char) : Nat :=
    if c.isDigit then c.toNat - 0x30 else c.toLower.toNat - 0x57
  let isDigit (c : Char) : Bool := (c.isDigit || c.toLower.isLower) && digitValue c < base
  if isGrouped isDigit text then
    some ((ungroup text).foldl (fun n c => base * n + digitValue c) 0 : Nat)
  else none

def readWhole? (text : List Char) : Option Int :=
  let (negative, digits) := Decimal.splitSign text
  if isWhole digits then
    let n : Int := Decimal.ofDigits (ungroup digits)
    some (if negative then -n else n)
  else none

/-- An integer, which has to have 64 bits. -/
def readInteger? (text : List Char) : Option Value := do
  let n ← match text with
    | '0' :: 'x' :: digits => readBase? 16 digits
    | '0' :: 'o' :: digits => readBase? 8 digits
    | '0' :: 'b' :: digits => readBase? 2 digits
    | _ => readWhole? text
  if Int64.minValue.toInt ≤ n ∧ n ≤ Int64.maxValue.toInt then some (.integer (.ofInt n)) else none

/-- Digits after a mark, up to the exponent. -/
def isFraction (text : List Char) : Bool :=
  match text with
  | '.' :: digits => isGrouped Char.isDigit digits
  | _ => text.isEmpty

def isExponent (text : List Char) : Bool :=
  match text with
  | _ :: power => isGrouped Char.isDigit (Decimal.splitSign power).2
  | [] => true

/-- A number with a fraction or an exponent, or the name of one that is not finite. A number above
the range is refused, one below it is an infinity. -/
def readFloat? (text : List Char) : Option Value := do
  let (negative, magnitude) := Decimal.splitSign text
  let isMark (c : Char) : Bool := c = 'e' || c = 'E'
  let mantissa := magnitude.takeWhile (!isMark ·)
  let whole := mantissa.takeWhile (· ≠ '.')
  let isNumber := isWhole whole && whole.length < magnitude.length &&
    isFraction (mantissa.drop whole.length) && isExponent (magnitude.drop mantissa.length)
  let isName := magnitude = "inf".toList || magnitude = "nan".toList
  if !isNumber && !isName then none
  let x ← (Decimal.readBinary? (ungroup text) : Option (Binary .double))
  -- only a positive number can be too great
  if isNumber && !negative && !x.isFinite then none
  return .float x

/-- A number of `width` digits between two limits. -/
def readField? (width low high : Nat) (text : List Char) : Option Nat :=
  let n := Decimal.ofDigits text
  if text.length = width && text.all Char.isDigit && low ≤ n && n ≤ high then some n else none

def daysInMonth (year month : Nat) : Nat :=
  if month = 2 then
    if year % 4 = 0 ∧ (year % 100 ≠ 0 ∨ year % 400 = 0) then 29 else 28
  else if [4, 6, 9, 11].contains month then 30 else 31

/-- A date of the calendar, as in 1999-12-31. -/
def isDate (text : List Char) : Bool :=
  let read : Option Bool := do
    let year ← readField? 4 0 9999 (text.take 4)
    let month ← readField? 2 1 12 ((text.drop 5).take 2)
    let day ← readField? 2 1 31 (text.drop 8)
    return text[4]? = some '-' && text[7]? = some '-' && day ≤ daysInMonth year month
  read = some true

/-- Hours and minutes. -/
def isClock (text : List Char) : Bool :=
  (readField? 2 0 23 (text.take 2)).isSome && text[2]? = some ':' &&
    (readField? 2 0 59 (text.drop 3)).isSome

/-- A time of day with its seconds, perhaps with a part of one. -/
def isTime (text : List Char) : Bool :=
  let part := text.drop 8
  isClock (text.take 5) && text[5]? = some ':' &&
    (readField? 2 0 60 ((text.drop 6).take 2)).isSome &&
    (part.isEmpty || part.head? = some '.' && 1 < part.length && part.tail.all Char.isDigit)

/-- The distance from universal time, or none. -/
def isOffset (text : List Char) : Bool :=
  match text with
  | [] | ['Z'] | ['z'] => true
  | sign :: clock => (sign = '+' || sign = '-') && isClock clock

def isMoment (text : List Char) : Bool :=
  let date := text.take 10
  let rest := text.drop 11
  let isTimeChar (c : Char) : Bool := c.isDigit || c = ':' || c = '.'
  isTime text || isDate date && (text.length = 10 ||
    (text[10]? = some 'T' || text[10]? = some 't') && isTime (rest.takeWhile isTimeChar) &&
      isOffset (rest.dropWhile isTimeChar))

def readWord? (text : List Char) : Option Value :=
  if text = "true".toList then some (.boolean true)
  else if text = "false".toList then some (.boolean false)
  else if isMoment text then some (.moment (String.ofList text))
  else readFloat? text <|> readInteger? text

/-- Reads a value without delimiters. A date and a time may also have a blank between them. -/
def readScalar? (text : List Char) : Option (Value × List Char) := do
  let word := text.takeWhile isScalarChar
  let (word, rest) := match isDate word, text.drop word.length with
    | true, ' ' :: c :: rest =>
      if c.isDigit then
        (word ++ 'T' :: (c :: rest).takeWhile isScalarChar, (c :: rest).dropWhile isScalarChar)
      else (word, ' ' :: c :: rest)
    | _, rest => (word, rest)
  return (← readWord? word, rest)

end FlowGraph.Toml
