import FlowGraph.Binary.Number

namespace FlowGraph

/-- The bytes that an unsigned number takes behind its marker. The marker itself holds a number
below 128. -/
inductive MessagePack.Width
  | none
  | one
  | two
  | four
  | eight
deriving DecidableEq

def MessagePack.Width.bytes : Width → Nat
  | none => 0
  | one => 1
  | two => 2
  | four => 4
  | eight => 8

/-- The least width for a number. -/
def MessagePack.Width.least (n : Nat) : Width :=
  if n < 0x80 then none
  else if n < UInt8.size then one
  else if n < UInt16.size then two
  else if n < UInt32.size then four
  else eight

/-- A MessagePack object. Numbers of signed and of unsigned formats are kept apart. -/
inductive MessagePack
  | nil
  | bool (b : Bool)
  | uint (width : MessagePack.Width) (n : UInt64)
  | int (n : Int64)
  | single (x : Binary .single)
  | double (x : Binary .double)
  | str (bytes : List UInt8)
  | bin (bytes : List UInt8)
  | array (items : List MessagePack)
  | map (entries : List (MessagePack × MessagePack))
  | ext (bytes : List UInt8)
deriving Inhabited

namespace MessagePack

/-- The shortest form of an unsigned number. -/
def ofUInt64 (n : UInt64) : MessagePack := uint (.least n.toNat) n

/-- The shortest form of a number; one that is not negative is unsigned. -/
def ofInt64 (n : Int64) : MessagePack := if n < 0 then int n else ofUInt64 n.toUInt64

/-- Whether at most `depth` lists, maps and extensions nest. -/
def nestsWithin : Nat → MessagePack → Bool
  | 0, array _ | 0, map _ | 0, ext _ => false
  | depth + 1, array items => items.all (nestsWithin depth)
  | depth + 1, map entries =>
    entries.all fun (key, item) => nestsWithin depth key && nestsWithin depth item
  | _, _ => true

end MessagePack

end FlowGraph
