import FlowGraph.Toml.Blank

/-! Quoted strings. Basic ones have escapes, literal ones have none; both may be long, between three
quotes on either side, and then go over several lines. -/
namespace FlowGraph.Toml

def hexValue? (c : Char) : Option Nat :=
  if c.isDigit then some (c.toNat - 0x30)
  else if 'a' ≤ c ∧ c ≤ 'f' then some (c.toNat - 0x57)
  else if 'A' ≤ c ∧ c ≤ 'F' then some (c.toNat - 0x37)
  else none

/-- The character with a code point in hexadecimal. -/
def charOfHex? (digits : List Char) : Option Char := do
  let n := (← digits.mapM hexValue?).foldl (fun n d => 16 * n + d) 0
  if n.isValidChar then some (Char.ofNat n) else none

/-- What a letter after a backslash stands for. -/
def escaped? (letter : Char) : Option Char :=
  match letter with
  | 'b' => some '\x08'
  | 't' => some '\t'
  | 'n' => some '\n'
  | 'f' => some '\x0c'
  | 'r' => some '\r'
  | '"' | '\\' => some letter
  | _ => none

/-- A backslash at the end of a line, which joins it to the next one. -/
def endsLine (text : List Char) : Bool := (afterNewline? (skipBlanks text)).isSome

/-- The text for what stands between the quotes. Line ends are allowed in long strings only, and
after a joining backslash they are skipped with the blanks around them. -/
def unescape? (long : Bool) : Bool → List Char → Option (List Char)
  | _, [] => some []
  | joining, '\r' :: '\n' :: rest | joining, '\n' :: rest =>
    if !long then none
    else if joining then unescape? long true rest
    else (unescape? long false rest).map ('\n' :: ·)
  | _, '\\' :: 'u' :: a :: b :: c :: d :: rest => do
    return (← charOfHex? [a, b, c, d]) :: (← unescape? long false rest)
  | _, '\\' :: 'U' :: a :: b :: c :: d :: e :: f :: g :: h :: rest => do
    return (← charOfHex? [a, b, c, d, e, f, g, h]) :: (← unescape? long false rest)
  | _, '\\' :: letter :: rest => do
    -- no letter, but a line end that is joined to the next line
    if long && endsLine (letter :: rest) then unescape? long true (letter :: rest)
    else return (← escaped? letter) :: (← unescape? long false rest)
  | joining, c :: rest =>
    if joining && isBlank c then unescape? long true rest
    else if c = '\\' || !isPlain c then none
    else (unescape? long false rest).map (c :: ·)

/-- The text of a literal string. -/
def literal? (long : Bool) : List Char → Option (List Char)
  | [] => some []
  | '\r' :: '\n' :: rest | '\n' :: rest =>
    if long then (literal? long rest).map ('\n' :: ·) else none
  | c :: rest => if isPlain c then (literal? long rest).map (c :: ·) else none

/-- Splits at the closing quote. With escapes, a backslash takes the next character with it. -/
def splitShort? (quote : Char) (escapes : Bool) : List Char → Option (List Char × List Char)
  | [] => none
  | c :: rest =>
    if c = quote then some ([], rest)
    else
      match escapes && c = '\\', rest with
      | true, d :: rest =>
        (splitShort? quote escapes rest).map fun (raw, rest) => (c :: d :: raw, rest)
      | _, rest => (splitShort? quote escapes rest).map fun (raw, rest) => (c :: raw, rest)

/-- The quotes, two at most, that stand before three closing ones. -/
def extraQuotes (quote : Char) (rest : List Char) : List Char :=
  (rest.take 2).takeWhile (· = quote)

/-- Splits at the three closing quotes. -/
def splitLong? (quote : Char) (escapes : Bool) : List Char → Option (List Char × List Char)
  | a :: b :: c :: rest =>
    if a = quote ∧ b = quote ∧ c = quote then
      -- of up to five quotes in a row, the last three close the string
      let extra := extraQuotes quote rest
      some (extra, rest.drop extra.length)
    else if escapes ∧ a = '\\' then
      (splitLong? quote escapes (c :: rest)).map fun (raw, rest) => (a :: b :: raw, rest)
    else (splitLong? quote escapes (b :: c :: rest)).map fun (raw, rest) => (a :: raw, rest)
  | _ => none

/-- A long string may begin on the line after its quotes. -/
def dropFirstNewline (text : List Char) : List Char := (afterNewline? text).getD text

/-- Reads a string between single quotes of its kind. -/
def readShort? : List Char → Option (String × List Char)
  | '"' :: rest => do
    let (raw, rest) ← splitShort? '"' true rest
    return (String.ofList (← unescape? false false raw), rest)
  | '\'' :: rest => do
    let (raw, rest) ← splitShort? '\'' false rest
    return (String.ofList (← literal? false raw), rest)
  | _ => none

def readString? : List Char → Option (String × List Char)
  | '"' :: '"' :: '"' :: rest => do
    let (raw, rest) ← splitLong? '"' true (dropFirstNewline rest)
    return (String.ofList (← unescape? true false raw), rest)
  | '\'' :: '\'' :: '\'' :: rest => do
    let (raw, rest) ← splitLong? '\'' false (dropFirstNewline rest)
    return (String.ofList (← literal? true raw), rest)
  | text => readShort? text

end FlowGraph.Toml
