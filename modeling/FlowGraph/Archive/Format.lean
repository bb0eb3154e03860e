import FlowGraph.Archive.JsonForm
import FlowGraph.Archive.MessagePackForm
import FlowGraph.Path
import FlowGraph.Text.Lowercase

namespace FlowGraph.Archive

/-- The encodings of an archive. -/
inductive Format
  | json
  | messagePack
deriving DecidableEq, Repr, Inhabited

namespace Format

def name : Format → String
  | json => "json"
  | messagePack => "msgpack"

/-- The file extension that a format writes. -/
def extension (format : Format) : String := format.name

/-- Reads a name of a format, in any case. -/
def ofName? (text : String) : Option Format :=
  match Text.lowercase text with
  | "json" => some json
  | "msgpack" | "messagepack" | "message_pack" | "mpk" => some messagePack
  | _ => none

def parse (text : String) : Except Error Format :=
  (ofName? text).elim (.error (.unknownFormat text)) .ok

/-- The format that the extension of a path names. -/
def ofPath? (path : String) : Option Format := do
  ofName? (← Path.extension? path)

def encode : Format → Archive → List UInt8
  | json, a => a.encodeJson
  | messagePack, a => a.encodeMessagePack

def decode : Format → List UInt8 → Except Error Archive
  | json, text => decodeJson text
  | messagePack, text => decodeMessagePack text

/-- The error of a codec that does not write an archive. -/
def writeError : Format → Error
  | json => .json
  | messagePack => .packing

/-- The error of a codec that does not read a text. -/
def readError : Format → Error
  | json => .json
  | messagePack => .messagePack

end Format

/-- A writer and a reader of archives, as a library offers them. Either may refuse. -/
structure Codec where
  write : Archive → Option (List UInt8)
  read : List UInt8 → Option Archive

/-- A codec for each format. -/
abbrev Codecs := Format → Codec

namespace Codecs

def encode (codecs : Codecs) (format : Format) (a : Archive) : Except Error (List UInt8) :=
  ((codecs format).write a).elim (.error format.writeError) .ok

def decode (codecs : Codecs) (format : Format) (text : List UInt8) : Except Error Archive :=
  ((codecs format).read text).elim (.error format.readError) .ok

theorem encode_ok {codecs : Codecs} {format : Format} {a : Archive} {bytes : List UInt8} :
    codecs.encode format a = .ok bytes ↔ (codecs format).write a = some bytes := by
  cases h : (codecs format).write a <;> simp [encode, h]

theorem decode_ok {codecs : Codecs} {format : Format} {a : Archive} {text : List UInt8} :
    codecs.decode format text = .ok a ↔ (codecs format).read text = some a := by
  cases h : (codecs format).read text <;> simp [decode, h]

theorem decode_cases (codecs : Codecs) (format : Format) (text : List UInt8) :
    (∃ a, codecs.decode format text = .ok a) ∨
      codecs.decode format text = .error format.readError := by
  cases h : (codecs format).read text with
  | none => exact .inr (by simp [decode, h])
  | some a => exact .inl ⟨a, decode_ok.mpr h⟩

/-- The codecs of this library itself. -/
def native : Codecs := fun format =>
  ⟨fun a => some (format.encode a), fun text => (format.decode text).toOption⟩

end Codecs

end FlowGraph.Archive
