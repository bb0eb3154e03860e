import FlowGraph.Archive.Error
import FlowGraph.Archive.Tagged
import FlowGraph.Decimal.Basic
import FlowGraph.MessagePack.Reader
import FlowGraph.MessagePack.Writer
import FlowGraph.Text.Basic

/-! Archives as MessagePack. A value is a map of its kind and its content. -/
namespace FlowGraph.Archive

def packedName (name : String) : MessagePack := .str (Text.utf8 name)

def taggedPack (kind : Kind) (content : MessagePack) : MessagePack :=
  .map [(packedName "type", packedName kind.name), (packedName "value", content)]

mutual

def Value.toMessagePack : Value → MessagePack
  | .bool b => taggedPack .bool (.bool b)
  | .int n => taggedPack .int (.ofInt64 n)
  | .uint n => taggedPack .uint (.ofUInt64 n)
  | .float x => taggedPack .float (.double x)
  | .string s => taggedPack .string (packedName s)
  | .array items => taggedPack .array (.array (itemsToMessagePack items))
  | .object properties => taggedPack .object (.map (propertiesToMessagePack properties))

def itemsToMessagePack : List Value → List MessagePack
  | [] => []
  | item :: rest => item.toMessagePack :: itemsToMessagePack rest

def propertiesToMessagePack : List (String × Value) → List (MessagePack × MessagePack)
  | [] => []
  | (name, v) :: rest => (packedName name, v.toMessagePack) :: propertiesToMessagePack rest

end

def toMessagePack (a : Archive) : MessagePack := .map (propertiesToMessagePack a.properties)

def encodeMessagePack (a : Archive) : List UInt8 := a.toMessagePack.write

/-- A string, or bytes that are one. -/
def packedString? : MessagePack → Option String
  | .str bytes => Text.ofUtf8? bytes
  | .bin bytes => Text.ofUtf8? bytes
  | _ => none

/-- What chooses among alternatives: a name, or a place in the list of them. -/
inductive Label
  | name (bytes : List UInt8)
  | place (n : Nat)

/-- A place that was held back has one byte or eight. -/
def label? (held : Bool) : MessagePack → Option Label
  | .str bytes | .bin bytes => some (.name bytes)
  | .uint width n =>
    if held && (width = .two || width = .four) then none else some (.place n.toNat)
  | _ => none

def Label.field : Label → Field
  | name bytes => (Text.ofUtf8? bytes).elim .other .ofName
  | place n => if n = 0 then .kind else if n = 1 then .content else .other

def Label.kind? : Label → Option Kind
  | name bytes => do Kind.ofName? (← Text.ofUtf8? bytes)
  | place n => Kind.all[n]?

def packedParts? (held : Bool) : MessagePack → Option (Tagged MessagePack)
  | .array items => Tagged.ofList? items
  | .map entries => do
    Tagged.ofEntries? (← entries.mapM fun (key, item) => do
      return ((← label? held key).field, item))
  | _ => none

/-- A kind under its name may be the only key of a map, with nil; held back, an empty map does as
well, and without the map only a string will do. -/
def packedKind? (held : Bool) : Arrangement → MessagePack → Option Kind
  | .listed, label => do (← label? held label).kind?
  | _, .map [(label, .nil)] => do (← label? held label).kind?
  | _, .map [(label, .map [])] => do if held then (← label? held label).kind? else none
  | _, .str bytes => (Label.name bytes).kind?
  | _, label => do if held then none else (← label? held label).kind?

def nearestInteger (n : Int) : Binary .double :=
  (⟨n.natAbs, 0⟩ : Decimal).toBinary (n < 0)

def propertiesOfPack? (readValue : MessagePack → Option Value)
    (entries : List (MessagePack × MessagePack)) : Option Archive :=
  entries.foldlM
    (fun a (key, item) => do return a.insert (← packedString? key) (← readValue item)) empty

/-- The content of a value of a kind. A list or an object takes a reader of what is `inside`. Bytes
that are met in their turn are a list of numbers, which are no values. -/
def Value.ofPackedContent? (held : Bool) (inside : Option (MessagePack → Option Value)) :
    Kind → MessagePack → Option Value
  | .bool, .bool b => some (.bool b)
  | .int, .int n => some (.int n)
  | .int, .uint _ n =>
    if n.toNat ≤ Int64.maxValue.toInt then some (.int (Int64.ofInt n.toNat)) else none
  | .uint, .uint _ n => some (.uint n)
  | .uint, .int n => if 0 ≤ n.toInt then some (.uint (UInt64.ofNat n.toInt.toNat)) else none
  | .float, .double x => some (.float x)
  | .float, .single x => some (.float x.convert)
  | .float, .uint _ n => some (.float (nearestInteger n.toNat))
  | .float, .int n => some (.float (nearestInteger n.toInt))
  | .string, content => (packedString? content).map .string
  | .array, .bin [] => if held then none else some (.array [])
  | .array, .array items => do (items.mapM (← inside)).map .array
  | .object, .map entries => do (propertiesOfPack? (← inside) entries).map toValue
  | _, _ => none

/-- Reads a value in which at most `depth` lists and maps nest, its own included. The map around a
kind does not count. -/
def Value.ofMessagePack? (held : Bool) : Nat → MessagePack → Option Value
  | 0, _ => none
  | depth + 1, pack => do
    let parts ← packedParts? held pack
    let kind ← packedKind? held parts.arrangement parts.kind
    let passed := if parts.contentFirst then parts.content :: parts.others else parts.others
    if !held && !passed.all (·.nestsWithin depth) then none
    let held := held || parts.contentFirst
    let inside := match depth with
      | 0 => none
      | inner + 1 => some (Value.ofMessagePack? held inner)
    Value.ofPackedContent? held inside kind parts.content

/-- How many lists and maps may nest. -/
def messagePackDepth : Nat := 1023

def ofMessagePack? : MessagePack → Option Archive
  | .map entries => propertiesOfPack? (Value.ofMessagePack? false (messagePackDepth - 1)) entries
  | _ => none

/-- Reads the archive at the start of a text; what follows it does not matter. One level more than
may nest is read, for the map around a kind. -/
def decodeMessagePack (text : List UInt8) : Except Error Archive :=
  match MessagePack.read (messagePackDepth + 1) text with
  | some (pack, _) => (ofMessagePack? pack).elim (.error .messagePack) .ok
  | none => .error .messagePack

end FlowGraph.Archive
