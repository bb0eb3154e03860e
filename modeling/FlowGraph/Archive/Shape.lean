import FlowGraph.Archive.Conversion

namespace FlowGraph.Archive

/-- The types that values are written from and read into. -/
inductive Shape
  | bool
  | int32
  | int64
  | uint32
  | uint64
  | size
  | single
  | double
  | string
  | archive
  | list (item : Shape)
deriving DecidableEq, Repr

namespace Shape

def Carrier : Shape → Type
  | bool => Bool
  | int32 => Int32
  | int64 => Int64
  | uint32 => UInt32
  | uint64 => UInt64
  | size => UInt64
  | single => Binary .single
  | double => Binary .double
  | string => String
  | archive => Archive
  | list item => List item.Carrier

def write : (s : Shape) → s.Carrier → Value
  | bool, b => .bool b
  | int32, n => .ofInt32 n
  | int64, n => .int n
  | uint32, n => .ofUInt32 n
  | uint64, n => .uint n
  | size, n => .uint n
  | single, x => .ofSingle x
  | double, x => .float x
  | string, s => .string s
  | archive, a => Archive.toValue a
  | list item, items => .ofList item.write items

def read : (s : Shape) → Value → Except Error s.Carrier
  | bool => Value.asBool
  | int32 => Value.asInt32
  | int64 => Value.asInt64
  | uint32 => Value.asUInt32
  | uint64 => Value.asUInt64
  | size => Value.asSize
  | single => Value.asSingle
  | double => Value.asDouble
  | string => Value.asString
  | archive => Value.asArchive
  | list item => Value.asList item.read

end Shape

end FlowGraph.Archive
