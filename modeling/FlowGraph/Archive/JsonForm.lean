import FlowGraph.Archive.Error
import FlowGraph.Archive.Tagged
import FlowGraph.Decimal.Layout
import FlowGraph.Json.Reader
import FlowGraph.Json.Basic

/-! Archives as JSON. A value is an object of its kind and its content; a number that is not finite
becomes null, which no kind accepts. -/
namespace FlowGraph.Archive

open Json (quote unquote?)
open Decimal (Numeral)

/-- First digits from `10 ^ -5` to `10 ^ 15` are written without an exponent, whole numbers with a
zero after the point, and of two equally near decimals the even one. -/
def numberLayout : Decimal.Layout := ⟨.even, fun e => -5 ≤ e && e < 16, ['0']⟩

def taggedJson (kind : Kind) (content : Json) : Json :=
  .object [(quote "type", .string (quote kind.name)), (quote "value", content)]

mutual

/-- The stored form of a value, with these digits for the numbers that have some. -/
def Value.toJson (digits : Binary .double → Numeral) : Value → Json
  | .bool b => taggedJson .bool (.bool b)
  | .int n => taggedJson .int (.number (n < 0) (.ofNat n.toInt.natAbs))
  | .uint n => taggedJson .uint (.number false (.ofNat n.toNat))
  | .float x =>
    taggedJson .float (if x.isFinite then .number x.negative (digits x) else .null)
  | .string s => taggedJson .string (.string (quote s))
  | .array items => taggedJson .array (.array (itemsToJson digits items))
  | .object properties => taggedJson .object (.object (propertiesToJson digits properties))

def itemsToJson (digits : Binary .double → Numeral) : List Value → List Json
  | [] => []
  | item :: rest => item.toJson digits :: itemsToJson digits rest

def propertiesToJson (digits : Binary .double → Numeral) :
    List (String × Value) → List (List UInt8 × Json)
  | [] => []
  | (name, v) :: rest => (quote name, v.toJson digits) :: propertiesToJson digits rest

end

def toJson (a : Archive) (digits : Binary .double → Numeral) : Json :=
  .object (propertiesToJson digits a.properties)

def encodeJson (a : Archive) : List UInt8 := (a.toJson numberLayout.numeral).write 0

def jsonParts? : Json → Option (Tagged Json)
  | .array items => Tagged.ofList? items
  | .object members => do
    Tagged.ofEntries? (← members.mapM fun (raw, item) => do return (.ofName (← unquote? raw), item))
  | _ => none

/-- The number of a numeral without point and exponent. Minus zero is no integer. -/
def wholeNumber? (negative : Bool) (numeral : Numeral) : Option Int :=
  let magnitude := Decimal.ofDigits numeral.whole
  if !numeral.isWhole || negative && magnitude = 0 then none
  else some (if negative then -magnitude else magnitude)

/-- A kind is its name. Under its own name it may be the only member of an object, with null; held
back, an empty object does as well, and a list may begin with the place among the kinds. The object
is one of at most `depth` that nest. -/
def jsonKind? (held : Bool) (depth : Nat) : Arrangement → Json → Option Kind
  | _, .string raw => do Kind.ofName? (← unquote? raw)
  | .listed, .number negative numeral => do
    let place ← wholeNumber? negative numeral
    if held && 0 ≤ place then Kind.all[place.toNat]? else none
  | .listed, _ => none
  | _, .object [(raw, content)] => do
    let kind ← Kind.ofName? (← unquote? raw)
    match content with
    | .null => if 0 < depth then some kind else none
    | .object [] => if held then some kind else none
    | _ => none
  | _, _ => none

def finite? (negative : Bool) (numeral : Numeral) : Option (Binary .double) :=
  let x := numeral.decimal.toBinary negative
  if x.isFinite then some x else none

/-- Whether all strings and numbers can be read and at most `depth` lists and objects nest. -/
def soundJson : Nat → Json → Bool
  | _, .null => true
  | _, .bool _ => true
  | _, .number negative numeral => (finite? negative numeral).isSome
  | _, .string raw => (unquote? raw).isSome
  | 0, .array _ => false
  | depth + 1, .array items => items.all (soundJson depth)
  | 0, .object _ => false
  | depth + 1, .object members =>
    members.all fun (raw, item) => (unquote? raw).isSome && soundJson depth item

def propertiesOfJson? (readValue : Json → Option Value) (members : List (List UInt8 × Json)) :
    Option Archive :=
  members.foldlM (fun a (raw, item) => do return a.insert (← unquote? raw) (← readValue item)) empty

/-- The content of a value of a kind. A list or an object takes a reader of what is `inside`. -/
def Value.ofJsonContent? (inside : Option (Json → Option Value)) : Kind → Json → Option Value
  | .bool, .bool b => some (.bool b)
  | .int, .number negative numeral => do
    let n ← wholeNumber? negative numeral
    if Int64.minValue.toInt ≤ n ∧ n ≤ Int64.maxValue.toInt then some (.int (Int64.ofInt n))
    else none
  | .uint, .number negative numeral => do
    let n ← wholeNumber? negative numeral
    if 0 ≤ n ∧ n < UInt64.size then some (.uint (UInt64.ofNat n.toNat)) else none
  | .float, .number negative numeral => (finite? negative numeral).map .float
  | .string, .string raw => (unquote? raw).map .string
  | .array, .array items => do (items.mapM (← inside)).map .array
  | .object, .object members => do (propertiesOfJson? (← inside) members).map toValue
  | _, _ => none

/-- Reads a value in which at most `depth` lists and objects nest, its own included. Content before
its kind is checked as a whole, entries without a meaning are not. -/
def Value.ofJson? (held : Bool) : Nat → Json → Option Value
  | 0, _ => none
  | depth + 1, json => do
    let parts ← jsonParts? json
    let kind ← jsonKind? held depth parts.arrangement parts.kind
    if !held && parts.contentFirst && !soundJson depth parts.content then none
    let inside := match depth with
      | 0 => none
      | inner + 1 => some (Value.ofJson? (held || parts.contentFirst) inner)
    Value.ofJsonContent? inside kind parts.content

/-- How many lists and objects may nest in a text. -/
def jsonDepth : Nat := 127

def ofJson? : Json → Option Archive
  | .object members => propertiesOfJson? (Value.ofJson? false (jsonDepth - 1)) members
  | _ => none

def decodeJson (text : List UInt8) : Except Error Archive :=
  match Json.read? text with
  | some json => (ofJson? json).elim (.error .json) .ok
  | none => .error .json

end FlowGraph.Archive
