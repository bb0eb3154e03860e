import FlowGraph.MessagePack.Tree

namespace FlowGraph.MessagePack

/-- A reader takes a value off the front of a text. -/
abbrev Take (α : Type) := List UInt8 → Option (α × List UInt8)

def takeBytes (count : Nat) : Take (List UInt8) := fun text =>
  if text.length < count then none else some (text.take count, text.drop count)

/-- A number of `count` bytes, most significant first. -/
def takeNat (count : Nat) : Take Nat := fun text => do
  let (bytes, rest) ← takeBytes count text
  return (bytes.foldl (fun n b => 256 * n + b.toNat) 0, rest)

/-- A number of `count` bytes in two's complement. -/
def takeInt (count : Nat) : Take Int := fun text => do
  let (n, rest) ← takeNat count text
  return (Int.bmod n (Nat.pow 256 count), rest)

def takeMany {α : Type} (take : Take α) : Nat → Take (List α)
  | 0 => fun text => some ([], text)
  | count + 1 => fun text => do
    let (first, rest) ← take text
    let (others, rest) ← takeMany take count rest
    return (first :: others, rest)

def takePair {α : Type} (take : Take α) : Take (α × α) := fun text => do
  let (key, rest) ← take text
  let (item, rest) ← take rest
  return ((key, item), rest)

/-- What a length of `width` bytes is followed by. -/
def takeSized (width extra : Nat) : Take (List UInt8) := fun text => do
  let (count, rest) ← takeNat width text
  takeBytes (count + extra) rest

def readUInt (width : Width) : Take MessagePack := fun text => do
  let (n, rest) ← takeNat width.bytes text
  return (uint width (UInt64.ofNat n), rest)

def readInt (width : Nat) : Take MessagePack := fun text => do
  let (n, rest) ← takeInt width text
  return (int (Int64.ofInt n), rest)

def readBytes (make : List UInt8 → MessagePack) (width extra : Nat) : Take MessagePack :=
  fun text => do
    let (bytes, rest) ← takeSized width extra text
    return (make bytes, rest)

/-- Everything but lists and maps. -/
def readScalar (marker : Nat) : Take MessagePack := fun text =>
  if marker < 0x80 then some (uint .none (UInt64.ofNat marker), text)
  else if 0xA0 ≤ marker && marker < 0xC0 then do
    let (bytes, rest) ← takeBytes (marker - 0xA0) text
    return (str bytes, rest)
  -- a marker that is a negative number itself
  else if 0xE0 ≤ marker then some (int (Int64.ofInt (marker - 256)), text)
  else match marker with
    | 0xC0 => some (nil, text)
    | 0xC2 => some (bool false, text)
    | 0xC3 => some (bool true, text)
    | 0xC4 => readBytes bin 1 0 text
    | 0xC5 => readBytes bin 2 0 text
    | 0xC6 => readBytes bin 4 0 text
    | 0xC7 => readBytes ext 1 1 text
    | 0xC8 => readBytes ext 2 1 text
    | 0xC9 => readBytes ext 4 1 text
    | 0xCA => do
      let (n, rest) ← takeNat 4 text
      return (single ⟨BitVec.ofNat _ n⟩, rest)
    | 0xCB => do
      let (n, rest) ← takeNat 8 text
      return (double ⟨BitVec.ofNat _ n⟩, rest)
    | 0xCC => readUInt .one text
    | 0xCD => readUInt .two text
    | 0xCE => readUInt .four text
    | 0xCF => readUInt .eight text
    | 0xD0 => readInt 1 text
    | 0xD1 => readInt 2 text
    | 0xD2 => readInt 4 text
    | 0xD3 => readInt 8 text
    | 0xD4 => readBytes ext 0 2 text
    | 0xD5 => readBytes ext 0 3 text
    | 0xD6 => readBytes ext 0 5 text
    | 0xD7 => readBytes ext 0 9 text
    | 0xD8 => readBytes ext 0 17 text
    | 0xD9 => readBytes str 1 0 text
    | 0xDA => readBytes str 2 0 text
    | 0xDB => readBytes str 4 0 text
    | _ => none

/-- The length of a list, if `marker` starts one. -/
def listLength? (marker : Nat) : Option (Take Nat) :=
  if 0x90 ≤ marker && marker < 0xA0 then some fun text => some (marker - 0x90, text)
  else if marker = 0xDC then some (takeNat 2)
  else if marker = 0xDD then some (takeNat 4)
  else none

/-- The length of a map, if `marker` starts one. -/
def mapLength? (marker : Nat) : Option (Take Nat) :=
  if 0x80 ≤ marker && marker < 0x90 then some fun text => some (marker - 0x80, text)
  else if marker = 0xDE then some (takeNat 2)
  else if marker = 0xDF then some (takeNat 4)
  else none

/-- Reads an object in which at most `depth` lists and maps nest. -/
def read : Nat → Take MessagePack
  | _, [] => none
  | depth, marker :: text =>
    match listLength? marker.toNat, mapLength? marker.toNat, depth with
    | some takeLength, _, inner + 1 => do
      let (count, rest) ← takeLength text
      let (items, rest) ← takeMany (read inner) count rest
      return (array items, rest)
    | none, some takeLength, inner + 1 => do
      let (count, rest) ← takeLength text
      let (entries, rest) ← takeMany (takePair (read inner)) count rest
      return (map entries, rest)
    | none, none, _ => readScalar marker.toNat text
    -- a list or a map with no level left for it
    | _, _, 0 => none

theorem read_list {marker : UInt8} {takeLength : Take Nat}
    (h : listLength? marker.toNat = some takeLength) {text rest rest' : List UInt8} {count : Nat}
    (hcount : takeLength text = some (count, rest)) {inner : Nat} {items : List MessagePack}
    (hitems : takeMany (read inner) count rest = some (items, rest')) :
    read (inner + 1) (marker :: text) = some (array items, rest') := by
  simp only [read.eq_2 _ _ _ _ h, hcount, hitems, Option.bind_eq_bind, Option.bind_some,
    Option.pure_def]

theorem read_map {marker : UInt8} {takeLength : Take Nat}
    (hlist : listLength? marker.toNat = none) (h : mapLength? marker.toNat = some takeLength)
    {text rest rest' : List UInt8} {count : Nat} (hcount : takeLength text = some (count, rest))
    {inner : Nat} {entries : List (MessagePack × MessagePack)}
    (hentries : takeMany (takePair (read inner)) count rest = some (entries, rest')) :
    read (inner + 1) (marker :: text) = some (map entries, rest') := by
  simp only [read.eq_3 _ _ _ _ hlist h, hcount, hentries, Option.bind_eq_bind, Option.bind_some,
    Option.pure_def]

/-- What begins neither a list nor a map is left to the reader of scalars. -/
theorem read_other {marker : UInt8} (hlist : listLength? marker.toNat = none)
    (hmap : mapLength? marker.toNat = none) (depth : Nat) (text : List UInt8) :
    read depth (marker :: text) = readScalar marker.toNat text :=
  read.eq_4 _ _ _ hlist hmap

end FlowGraph.MessagePack
