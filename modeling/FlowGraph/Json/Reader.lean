import FlowGraph.Json.Quoted
import FlowGraph.Json.Basic

/-! The grammar of JSON. Whether a string is well encoded or a number representable is left to the
reader of the tree. -/
namespace FlowGraph.Json

open Decimal (Numeral)

def isBlank (b : UInt8) : Bool := b = 0x20 || b = 10 || b = 13 || b = 9

def skipBlanks (text : List UInt8) : List UInt8 := text.dropWhile isBlank

def isDigit (b : UInt8) : Bool := 0x30 ≤ b && b ≤ 0x39

/-- The digits at the start of a text, and the rest. -/
def takeDigits (text : List UInt8) : List Char × List UInt8 :=
  ((text.takeWhile isDigit).map Char.ofUInt8, text.dropWhile isDigit)

/-- A whole part has no zero before other digits. -/
def readWhole? : List UInt8 → Option (List Char × List UInt8)
  | 0x30 :: rest => some (['0'], rest)
  | text =>
    let (digits, rest) := takeDigits text
    if digits.isEmpty then none else some (digits, rest)

def readFraction? : List UInt8 → Option (List Char × List UInt8)
  | 0x2E :: rest =>
    let (digits, rest) := takeDigits rest
    if digits.isEmpty then none else some (digits, rest)
  | text => some ([], text)

def splitSign : List UInt8 → Bool × List UInt8
  | 0x2D :: rest => (true, rest)
  | 0x2B :: rest => (false, rest)
  | text => (false, text)

def readExponent? : List UInt8 → Option (Option Int × List UInt8)
  | [] => some (none, [])
  | b :: rest =>
    if b = 0x65 || b = 0x45 then
      let (negative, rest) := splitSign rest
      let (digits, rest) := takeDigits rest
      let power : Int := Decimal.ofDigits digits
      if digits.isEmpty then none else some (some (if negative then -power else power), rest)
    else some (none, b :: rest)

def readNumeral? (text : List UInt8) : Option (Numeral × List UInt8) := do
  let (whole, rest) ← readWhole? text
  let (fraction, rest) ← readFraction? rest
  let (exponent, rest) ← readExponent? rest
  return (⟨whole, fraction, exponent⟩, rest)

/-- The inside of a string up to its closing quote, and what follows. -/
def readRaw? : List UInt8 → Option (List UInt8 × List UInt8)
  | [] => none
  | 0x22 :: rest => some ([], rest)
  -- the escape is checked here, but kept as it is written
  | 0x5C :: letter :: rest => do
    let digits := rest.take 4
    if letter = 0x75 then
      if digits.length < 4 || !digits.all (hexValue? · |>.isSome) then none
    else if (escaped? letter).isNone then none
    let (raw, rest) ← readRaw? rest
    return (0x5C :: letter :: raw, rest)
  | b :: rest => do
    if b < 0x20 then none
    let (raw, rest) ← readRaw? rest
    return (b :: raw, rest)

/-- What follows a given word. -/
def afterWord? (word : String) (text : List UInt8) : Option (List UInt8) :=
  let bytes := Text.utf8 word
  if bytes.isPrefixOf text then some (text.drop bytes.length) else none

mutual

/-- Reads one value with the blanks before it. Every second step at least takes a byte, which bounds
the steps. -/
def readValue : Nat → List UInt8 → Option (Json × List UInt8)
  | 0, _ => none
  | steps + 1, text =>
    match skipBlanks text with
    | [] => none
    | b :: rest =>
      if b = 0x7B then
        match skipBlanks rest with
        | 0x7D :: rest => some (object [], rest)
        | rest => do
          let (members, rest) ← readMembers steps rest
          return (object members, rest)
      else if b = 0x5B then
        match skipBlanks rest with
        | 0x5D :: rest => some (array [], rest)
        | rest => do
          let (items, rest) ← readItems steps rest
          return (array items, rest)
      else if b = 0x22 then do
        let (raw, rest) ← readRaw? rest
        return (string raw, rest)
      -- a minus sign belongs to the number, a plus sign starts none
      else if b = 0x2D then do
        let (numeral, rest) ← readNumeral? rest
        return (number true numeral, rest)
      else if isDigit b then do
        let (numeral, rest) ← readNumeral? (b :: rest)
        return (number false numeral, rest)
      else if b = 0x6E then (afterWord? "ull" rest).map (null, ·)
      else if b = 0x74 then (afterWord? "rue" rest).map (bool true, ·)
      else if b = 0x66 then (afterWord? "alse" rest).map (bool false, ·)
      else none

/-- Reads items up to the closing bracket. -/
def readItems : Nat → List UInt8 → Option (List Json × List UInt8)
  | 0, _ => none
  | steps + 1, text => do
    let (item, rest) ← readValue steps text
    match skipBlanks rest with
    | 0x2C :: rest =>
      let (items, rest) ← readItems steps rest
      return (item :: items, rest)
    | 0x5D :: rest => return ([item], rest)
    | _ => none

/-- Reads members up to the closing brace. -/
def readMembers : Nat → List UInt8 → Option (List (List UInt8 × Json) × List UInt8)
  | 0, _ => none
  | steps + 1, text =>
    match skipBlanks text with
    | 0x22 :: rest => do
      let (name, rest) ← readRaw? rest
      match skipBlanks rest with
      | 0x3A :: rest =>
        let (item, rest) ← readValue steps rest
        match skipBlanks rest with
        | 0x2C :: rest =>
          let (members, rest) ← readMembers steps rest
          return ((name, item) :: members, rest)
        | 0x7D :: rest => return ([(name, item)], rest)
        | _ => none
      | _ => none
    | _ => none

end

/-- The blanks before a value are nothing to its reader, nor those before items and members. -/
theorem readValue_congr {text text' : List UInt8} (h : skipBlanks text = skipBlanks text')
    (steps : Nat) : readValue steps text = readValue steps text' := by
  cases steps with
  | zero => rfl
  | succ steps => rw [readValue, readValue, h]

theorem readItems_congr {text text' : List UInt8} (h : skipBlanks text = skipBlanks text')
    (steps : Nat) : readItems steps text = readItems steps text' := by
  cases steps with
  | zero => rfl
  | succ steps => rw [readItems, readItems, readValue_congr h]

theorem readMembers_congr {text text' : List UInt8} (h : skipBlanks text = skipBlanks text')
    (steps : Nat) : readMembers steps text = readMembers steps text' := by
  cases steps with
  | zero => rfl
  | succ steps => rw [readMembers, readMembers, h]

/-- Reads a whole text. -/
def read? (text : List UInt8) : Option Json := do
  let (json, rest) ← readValue (2 * text.length + 2) text
  if (skipBlanks rest).isEmpty then some json else none

end FlowGraph.Json
