import FlowGraph.Toml.Blank

/-! Texts as quoted strings, in the plainest of the four ways that can hold them. -/
namespace FlowGraph.Toml

/-- What decides how a text is quoted. -/
structure Texture where
  hasNewline : Bool
  hasBackslash : Bool
  /-- A character that only an escape can stand for. -/
  hasControl : Bool
  /-- The length of the longest run of each quote. -/
  doubles : Nat
  singles : Nat

/-- The length of the longest run of `quote`, after a run of `current`. -/
def longestRun (quote : Char) (current : Nat) : List Char → Nat
  | [] => current
  | c :: rest =>
    if c = quote then longestRun quote (current + 1) rest
    else max current (longestRun quote 0 rest)

def Texture.ofText (text : List Char) : Texture where
  hasNewline := text.contains '\n'
  hasBackslash := text.contains '\\'
  hasControl := text.any fun c => !isPlain c && c ≠ '\n'
  doubles := longestRun '"' 0 text
  singles := longestRun '\'' 0 text

def hexDigit (n : Nat) : Char :=
  if n < 10 then Char.ofNat (0x30 + n) else Char.ofNat (0x37 + n)

/-- The character with escapes where it needs them, but for quotes. -/
def escape (long : Bool) (c : Char) : List Char :=
  match c with
  | '\x08' => ['\\', 'b']
  | '\t' => ['\\', 't']
  | '\n' => if long then ['\n'] else ['\\', 'n']
  | '\x0c' => ['\\', 'f']
  | '\r' => ['\\', 'r']
  | '\\' => ['\\', '\\']
  | _ =>
    if isPlain c then [c]
    else ['\\', 'u', '0', '0', hexDigit (c.toNat / 16), hexDigit (c.toNat % 16)]

/-- Escapes a text. Of more than `allowed` quotes in a row the next one is escaped. -/
def escapeAll (long : Bool) (allowed : Nat) : Nat → List Char → List Char
  | _, [] => []
  | run, c :: rest =>
    if c = '"' then
      if run < allowed then c :: escapeAll long allowed (run + 1) rest
      else '\\' :: c :: escapeAll long allowed 0 rest
    else escape long c ++ escapeAll long allowed 0 rest

def quoteBasic (text : List Char) : List Char := '"' :: escapeAll false 0 0 text ++ ['"']

def quoteLiteral (text : List Char) : List Char := '\'' :: text ++ ['\'']

/-- A long string with a line end in it begins on a line of its own. -/
def quoteLong (quote : Char) (hasNewline : Bool) (inside : List Char) : List Char :=
  let quotes := List.replicate 3 quote
  quotes ++ (if hasNewline then ['\n'] else []) ++ inside ++ quotes

/-- Quotes a text in the plainest way that needs no escapes, or else with escapes. -/
def quote (text : String) : String :=
  let chars := text.toList
  let t := Texture.ofText chars
  let longBasic := quoteLong '"' t.hasNewline (escapeAll true 2 0 chars)
  let escapeFree := !t.hasControl && !t.hasBackslash
  String.ofList <|
    if escapeFree && t.doubles = 0 && !t.hasNewline then quoteBasic chars
    else if !t.hasControl && t.singles = 0 && !t.hasNewline then quoteLiteral chars
    else if escapeFree && t.doubles ≤ 2 then longBasic
    else if !t.hasControl && t.singles ≤ 2 then quoteLong '\'' t.hasNewline chars
    else if t.hasNewline then longBasic
    else quoteBasic chars

end FlowGraph.Toml
