import FlowGraph.Decimal.Basic
import FlowGraph.Text.Basic

namespace FlowGraph

/-- A JSON text as it is written: strings and member names still escaped, numbers still digits. -/
inductive Json
  | null
  | bool (b : Bool)
  | number (negative : Bool) (numeral : Decimal.Numeral)
  | string (raw : List UInt8)
  | array (items : List Json)
  | object (members : List (List UInt8 × Json))
deriving Inhabited

end FlowGraph

namespace FlowGraph.Json

open Text (utf8)

/-- A line break and the indentation of the next line, two blanks a level. -/
def lineBreak (level : Nat) : List UInt8 := 10 :: List.replicate (2 * level) 0x20

def quoted (raw : List UInt8) : List UInt8 := 0x22 :: raw ++ [0x22]

mutual

/-- One item or member on a line; empty lists and objects without a line break. -/
def write (level : Nat) : Json → List UInt8
  | null => utf8 "null"
  | bool b => utf8 (if b then "true" else "false")
  | number negative numeral =>
    (if negative then [0x2D] else []) ++ utf8 (String.ofList numeral.text)
  | string raw => quoted raw
  | array [] => utf8 "[]"
  | array (item :: rest) =>
    0x5B :: lineBreak (level + 1) ++ write (level + 1) item ++ writeItems (level + 1) rest
      ++ lineBreak level ++ [0x5D]
  | object [] => utf8 "\x7b\x7d"
  | object ((name, item) :: rest) =>
    0x7B :: lineBreak (level + 1) ++ quoted name ++ [0x3A, 0x20] ++ write (level + 1) item
      ++ writeMembers (level + 1) rest ++ lineBreak level ++ [0x7D]

def writeItems (level : Nat) : List Json → List UInt8
  | [] => []
  | item :: rest => 0x2C :: lineBreak level ++ write level item ++ writeItems level rest

def writeMembers (level : Nat) : List (List UInt8 × Json) → List UInt8
  | [] => []
  | (name, item) :: rest =>
    0x2C :: lineBreak level ++ quoted name ++ [0x3A, 0x20] ++ write level item
      ++ writeMembers level rest

end

end FlowGraph.Json
