namespace FlowGraph.Toml

def isBlank (c : Char) : Bool := c = ' ' || c = '\t'

/-- Characters that may stand in comments and, but for their delimiter, in strings. -/
def isPlain (c : Char) : Bool := c = '\t' || (0x20 ≤ c.toNat && c.toNat ≠ 0x7F)

def skipBlanks (text : List Char) : List Char := text.dropWhile isBlank

def afterNewline? : List Char → Option (List Char)
  | '\n' :: rest | '\r' :: '\n' :: rest => some rest
  | _ => none

/-- Skips blanks, line ends and comments, from inside a comment or not. -/
def skipGapFrom : Bool → List Char → List Char
  | _, '\n' :: rest | _, '\r' :: '\n' :: rest => skipGapFrom false rest
  | _, [] => []
  -- a control character ends the comment, and fails as the next statement
  | true, c :: rest => if isPlain c then skipGapFrom true rest else c :: rest
  | false, c :: rest =>
    if isBlank c then skipGapFrom false rest
    else if c = '#' then skipGapFrom true rest
    else c :: rest

def skipGap (text : List Char) : List Char := skipGapFrom false text

/-- The next line, if nothing but blanks and a comment is left of this one. -/
def nextLine? (text : List Char) : Option (List Char) :=
  let text := skipBlanks text
  let text := match text with
    | '#' :: rest => rest.dropWhile isPlain
    | _ => text
  if text.isEmpty then some [] else afterNewline? text

end FlowGraph.Toml
