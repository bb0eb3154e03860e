import FlowGraph.MessagePack.Tree

namespace FlowGraph.MessagePack

/-- The last `count` bytes of a number, most significant first. -/
def bigEndian (count n : Nat) : List UInt8 :=
  ((List.range count).map fun i => UInt8.ofNat (n / Nat.pow 256 i)).reverse

def writeUInt (n : Nat) : Width → List UInt8
  | .none => [UInt8.ofNat n]
  | .one => 0xCC :: bigEndian 1 n
  | .two => 0xCD :: bigEndian 2 n
  | .four => 0xCE :: bigEndian 4 n
  | .eight => 0xCF :: bigEndian 8 n

/-- The shortest signed form of a number. -/
def writeInt (n : Int) : List UInt8 :=
  let complement (count : Nat) := bigEndian count (n + Nat.pow 256 count).toNat
  if -32 ≤ n ∧ n < 0 then complement 1
  else if -128 ≤ n ∧ n < 128 then 0xD0 :: complement 1
  else if -32768 ≤ n ∧ n < 32768 then 0xD1 :: complement 2
  else if -2147483648 ≤ n ∧ n < 2147483648 then 0xD2 :: complement 4
  else 0xD3 :: complement 8

/-- A length in the shortest of the forms for it: within the marker, or in two or four bytes. -/
def writeLength (small limit wide n : Nat) : List UInt8 :=
  if n < limit then [UInt8.ofNat (small + n)]
  else if n < UInt16.size then UInt8.ofNat wide :: bigEndian 2 n
  else UInt8.ofNat (wide + 1) :: bigEndian 4 n

def writeStr (bytes : List UInt8) : List UInt8 :=
  (if 32 ≤ bytes.length ∧ bytes.length < UInt8.size then 0xD9 :: bigEndian 1 bytes.length
    else writeLength 0xA0 32 0xDA bytes.length) ++ bytes

def writeBin (bytes : List UInt8) : List UInt8 :=
  (if bytes.length < UInt8.size then 0xC4 :: bigEndian 1 bytes.length
    else writeLength 0 0 0xC5 bytes.length) ++ bytes

mutual

def write : MessagePack → List UInt8
  | nil => [0xC0]
  | bool b => [if b then 0xC3 else 0xC2]
  | uint width n => writeUInt n.toNat width
  | int n => writeInt n.toInt
  | single x => 0xCA :: bigEndian 4 x.bits.toNat
  | double x => 0xCB :: bigEndian 8 x.bits.toNat
  | str bytes => writeStr bytes
  | bin bytes => writeBin bytes
  | array items => writeLength 0x90 16 0xDC items.length ++ writeItems items
  | map entries => writeLength 0x80 16 0xDE entries.length ++ writeEntries entries
  | ext bytes => 0xC9 :: bigEndian 4 (bytes.length - 1) ++ bytes

def writeItems : List MessagePack → List UInt8
  | [] => []
  | item :: rest => write item ++ writeItems rest

def writeEntries : List (MessagePack × MessagePack) → List UInt8
  | [] => []
  | (key, item) :: rest => write key ++ write item ++ writeEntries rest

end

end FlowGraph.MessagePack
