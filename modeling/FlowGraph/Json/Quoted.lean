import FlowGraph.Text.Basic

/-! The inside of a quoted string. Writing escapes what has to be escaped and nothing else; reading
accepts every escape. -/
namespace FlowGraph.Json

def hexDigit (n : Nat) : UInt8 :=
  if n < 10 then UInt8.ofNat (0x30 + n) else UInt8.ofNat (0x57 + n)

def hexValue? (b : UInt8) : Option Nat :=
  if 0x30 ≤ b && b ≤ 0x39 then some (b.toNat - 0x30)
  else if 0x61 ≤ b && b ≤ 0x66 then some (b.toNat - 0x57)
  else if 0x41 ≤ b && b ≤ 0x46 then some (b.toNat - 0x37)
  else none

/-- The letter after the backslash for characters that have one. -/
def shortEscape? (c : Char) : Option UInt8 :=
  if c = '"' then some 0x22
  else if c = '\\' then some 0x5C
  else if c.toNat = 8 then some 0x62
  else if c.toNat = 9 then some 0x74
  else if c.toNat = 10 then some 0x6E
  else if c.toNat = 12 then some 0x66
  else if c.toNat = 13 then some 0x72
  else none

def quoteChar (c : Char) : List UInt8 :=
  match shortEscape? c with
  | some letter => [0x5C, letter]
  | none =>
    if c.toNat < 0x20 then
      [0x5C, 0x75, 0x30, 0x30, hexDigit (c.toNat / 16), hexDigit (c.toNat % 16)]
    else String.utf8EncodeChar c

def quote (text : String) : List UInt8 := text.toList.flatMap quoteChar

/-- What a letter after a backslash stands for. -/
def escaped? (letter : UInt8) : Option UInt8 :=
  if letter = 0x22 || letter = 0x5C || letter = 0x2F then some letter
  else if letter = 0x62 then some 8
  else if letter = 0x74 then some 9
  else if letter = 0x6E then some 10
  else if letter = 0x66 then some 12
  else if letter = 0x72 then some 13
  else none

/-- A piece of a quoted string: a byte, or a code unit written in hexadecimal. -/
inductive Piece
  | byte (b : UInt8)
  | unit (n : Nat)

def pieces? : List UInt8 → Option (List Piece)
  | [] => some []
  | 0x5C :: 0x75 :: a :: b :: c :: d :: rest => do
    let n := (((← hexValue? a) * 16 + (← hexValue? b)) * 16 + (← hexValue? c)) * 16
      + (← hexValue? d)
    return .unit n :: (← pieces? rest)
  | 0x5C :: letter :: rest => do
    return .byte (← escaped? letter) :: (← pieces? rest)
  | b :: rest => do
    if b = 0x5C then none else return .byte b :: (← pieces? rest)

/-- Joins the pieces to bytes. A high surrogate needs a low one after it. -/
def join? : List Piece → Option (List UInt8)
  | [] => some []
  | .byte b :: rest => return b :: (← join? rest)
  | .unit n :: rest =>
    -- a low surrogate on its own
    if 0xDC00 ≤ n && n ≤ 0xDFFF then none
    else if 0xD800 ≤ n && n ≤ 0xDBFF then
      match rest with
      | .unit low :: rest =>
        if 0xDC00 ≤ low && low ≤ 0xDFFF then do
          let point := 0x10000 + (n - 0xD800) * 0x400 + (low - 0xDC00)
          return String.utf8EncodeChar (Char.ofNat point) ++ (← join? rest)
        else none
      | _ => none
    else return String.utf8EncodeChar (Char.ofNat n) ++ (← join? rest)

/-- The text inside the quotes, if its escapes and its encoding are right. -/
def unquote? (raw : List UInt8) : Option String := do
  Text.ofUtf8? (← join? (← pieces? raw))

end FlowGraph.Json
