import FlowGraph.Binary.Number

/-! Adding to tables. A key is given once, a header too, and what one of them has made the other
does not extend, except for tables that exist only because longer headers pass through them. -/
namespace FlowGraph.Toml

/-- How a table came to be, which decides what may still be added to it. -/
inductive Origin
  /-- It has a header of its own. -/
  | header
  /-- A longer header passes through it. -/
  | implied
  /-- A dotted key passes through it. -/
  | dotted
  /-- It is written out as a value. -/
  | closed
deriving DecidableEq, Repr

inductive Value
  | string (text : String)
  | integer (n : Int64)
  | float (x : Binary .double)
  | boolean (b : Bool)
  /-- A date, a time of day or both. -/
  | moment (text : String)
  | array (items : List Value)
  | table (origin : Origin) (entries : List (String × Value))
  /-- Tables under one repeated header. -/
  | tables (items : List (List (String × Value)))

/-- The entries of a table, in the order in which they were added. -/
abbrev Entries := List (String × Value)

/-- Puts a value in the place of the one with its key, or at the end. -/
def put (key : String) (v : Value) : Entries → Entries
  | [] => [(key, v)]
  | (other, old) :: rest =>
    if other = key then (key, v) :: rest else (other, old) :: put key v rest

/-- Changes the last of some tables. -/
def changeLast? (change : Entries → Option Entries) : List Entries → Option (List Entries)
  | [] => none
  | [last] => do return [← change last]
  | first :: rest => do return first :: (← changeLast? change rest)

/-- Adds a value under a dotted key. A table on the way may not have a header of its own, and the
last one has to come from a dotted key itself. -/
def insertDotted? : List String → Value → Entries → Option Entries
  | [], _, _ => none
  | [key], v, entries =>
    if (entries.lookup key).isSome then none else some (entries ++ [(key, v)])
  | key :: next :: rest, v, entries => do
    let inside := insertDotted? (next :: rest) v
    let isLast := rest.isEmpty
    let changed ← match entries.lookup key with
      | none => (inside []).map (.table .dotted)
      | some (.table .dotted inner) => (inside inner).map (.table .dotted)
      | some (.table .implied inner) =>
        if isLast then none else (inside inner).map (.table .implied)
      -- the last table on the way has to come from a dotted key, not from a header
      | some (.tables items) => if isLast then none else (changeLast? inside items).map .tables
      | _ => none
    return put key changed entries

/-- Changes what a header names. Of repeated tables on the way the last one is meant. -/
def changeAt? (change : Option Value → Option Value) : List String → Entries → Option Entries
  | [], _ => none
  | [key], entries => do return put key (← change (entries.lookup key)) entries
  | key :: next :: rest, entries => do
    let inside := changeAt? change (next :: rest)
    let changed ← match entries.lookup key with
      | none => (inside []).map (.table .implied)
      | some (.table .closed _) => none
      | some (.table origin inner) => (inside inner).map (.table origin)
      | some (.tables items) => (changeLast? inside items).map .tables
      | _ => none
    return put key changed entries

/-- Begins the table under a header. -/
def openTable? (header : List String) : Entries → Option Entries :=
  changeAt? (fun
    | none => some (.table .header [])
    | some (.table .implied inner) => some (.table .header inner)
    | _ => none) header

/-- Begins the next one of the tables under a repeated header. -/
def openNext? (header : List String) : Entries → Option Entries :=
  changeAt? (fun
    | none => some (.tables [[]])
    | some (.tables items) => some (.tables (items ++ [[]]))
    | _ => none) header

/-- Adds a value to the table under a header, or to the document if there is none yet. -/
def insertUnder? (header key : List String) (v : Value) (entries : Entries) : Option Entries :=
  if header.isEmpty then insertDotted? key v entries
  else
    changeAt? (fun
      | some (.table origin inner) => (insertDotted? key v inner).map (.table origin)
      | some (.tables items) => (changeLast? (insertDotted? key v) items).map .tables
      | _ => none) header entries

end FlowGraph.Toml
