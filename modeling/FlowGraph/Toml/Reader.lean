import FlowGraph.Toml.Scalar
import FlowGraph.Toml.Table
import FlowGraph.Toml.Text

namespace FlowGraph.Toml

def isBareChar (c : Char) : Bool := c.isAlphanum || c = '_' || c = '-'

/-- Keys have fewer parts than this, and lists and tables are nested less deep. -/
def depthLimit : Nat := 80

def readPart? (text : List Char) : Option (String × List Char) :=
  match text with
  | '"' :: _ | '\'' :: _ => readShort? text
  | _ =>
    let bare := text.takeWhile isBareChar
    if bare.isEmpty then none else some (String.ofList bare, text.drop bare.length)

/-- Reads up to `parts` parts of a key with points between them, and the blanks around them. -/
def readParts? : Nat → List Char → Option (List String × List Char)
  | 0, _ => none
  | parts + 1, text => do
    let (part, rest) ← readPart? (skipBlanks text)
    match skipBlanks rest with
    | '.' :: rest => do
      let (more, rest) ← readParts? parts rest
      return (part :: more, rest)
    | rest => return ([part], rest)

def readKey? (text : List Char) : Option (List String × List Char) :=
  readParts? (depthLimit - 1) text

/-- Reads a key and the mark after it. -/
def readAssigned? (text : List Char) : Option (List String × List Char) := do
  let (key, rest) ← readKey? text
  match rest with
  | '=' :: rest => return (key, skipBlanks rest)
  | _ => none

mutual

/-- Reads one value, with `depth` more levels inside it at most. Every second step at least takes a
character, which bounds the steps. -/
def readValue : Nat → Nat → List Char → Option (Value × List Char)
  | 0, _, _ => none
  | steps + 1, depth, text =>
    match text, depth with
    | '"' :: _, _ | '\'' :: _, _ => (readString? text).map fun (s, rest) => (.string s, rest)
    | '[' :: rest, depth + 1 => do
      let (items, rest) ← readItems steps depth (skipGap rest)
      return (.array items, rest)
    | '\x7b' :: rest, depth + 1 =>
      match skipBlanks rest with
      | '\x7d' :: rest => some (.table .closed [], rest)
      | rest => do
        let (entries, rest) ← readEntries steps depth [] rest
        return (.table .closed entries, rest)
    | _, _ => readScalar? text

/-- Reads items up to the closing bracket; the last one may have a comma too. -/
def readItems : Nat → Nat → List Char → Option (List Value × List Char)
  | 0, _, _ => none
  -- an empty list, or the end after a trailing comma
  | _, _, ']' :: rest => some ([], rest)
  | steps + 1, depth, text => do
    let (item, rest) ← readValue steps depth text
    match skipGap rest with
    | ',' :: rest => do
      let (items, rest) ← readItems steps depth (skipGap rest)
      return (item :: items, rest)
    | ']' :: rest => return ([item], rest)
    | _ => none

/-- Reads entries up to the closing brace, after other ones. -/
def readEntries : Nat → Nat → Entries → List Char → Option (Entries × List Char)
  | 0, _, _, _ => none
  | steps + 1, depth, entries, text => do
    let (key, rest) ← readAssigned? text
    let (value, rest) ← readValue steps depth rest
    let entries ← insertDotted? key value entries
    match skipBlanks rest with
    | ',' :: rest => readEntries steps depth entries rest
    | '\x7d' :: rest => return (entries, rest)
    | _ => none

end

/-- A line of a document. -/
inductive Statement
  | entry (key : List String) (value : Value)
  | table (header : List String)
  | next (header : List String)

def readStatement? (text : List Char) : Option (Statement × List Char) := do
  match text with
  | '[' :: '[' :: rest =>
    match ← readKey? rest with
    | (header, ']' :: ']' :: rest) => return (.next header, rest)
    | _ => none
  | '[' :: rest =>
    match ← readKey? rest with
    | (header, ']' :: rest) => return (.table header, rest)
    | _ => none
  | _ =>
    let (key, rest) ← readAssigned? text
    let (value, rest) ← readValue (2 * rest.length + 2) (depthLimit - 1) rest
    return (.entry key value, rest)

/-- Reads statements, one a line. Each one takes a character. -/
def readStatements? : Nat → List Char → Option (List Statement)
  | 0, _ => none
  | steps + 1, text =>
    match skipGap text with
    | [] => some []
    | text => do
      let (statement, rest) ← readStatement? text
      return statement :: (← readStatements? steps (← nextLine? rest))

/-- Adds what statements say to a document, the entries under the header that came last. -/
def build? : List String → Entries → List Statement → Option Entries
  | _, document, [] => some document
  | header, document, .entry key value :: rest => do
    build? header (← insertUnder? header key value document) rest
  | _, document, .table header :: rest => do build? header (← openTable? header document) rest
  | _, document, .next header :: rest => do build? header (← openNext? header document) rest

/-- Reads a document, which may begin with a byte order mark. -/
def read? (text : String) : Option Entries := do
  let text := match text.toList with
    | '\ufeff' :: rest => rest
    | text => text
  build? [] [] (← readStatements? (text.length + 1) text)

end FlowGraph.Toml
