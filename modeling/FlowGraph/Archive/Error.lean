import FlowGraph.Archive.Value

namespace FlowGraph.Archive

/-- Why an archive could not be read. -/
inductive Error
  | missingProperty (name : String)
  | wrongType (expected found : Kind)
  | outOfRange (target value : String)
  /-- What went wrong inside a property. -/
  | property (name : String) (cause : Error)
  /-- A property of the right type with an unacceptable content. -/
  | invalidValue (detail : String)
  | unsupportedVersion (found supported : UInt64)
  | unknownFormat (name : String)
  | io
  | json
  | messagePack
  /-- An archive could not be written as MessagePack. -/
  | packing
deriving DecidableEq, Repr

namespace Error

def message : Error → String
  | missingProperty name => "missing property '" ++ name ++ "'"
  | wrongType expected found => "expected " ++ expected.name ++ ", found " ++ found.name
  | outOfRange target value => "value " ++ value ++ " out of range for " ++ target
  | property name cause => "property '" ++ name ++ "': " ++ cause.message
  | invalidValue detail => "invalid value: " ++ detail
  | unsupportedVersion found supported =>
    "unsupported archive version " ++ toString found.toNat ++
      " (supported: " ++ toString supported.toNat ++ ")"
  | unknownFormat name => "unknown archive format '" ++ name ++ "'"
  | io => "archive I/O error"
  | json => "JSON archive error"
  | messagePack => "MessagePack decode error"
  | packing => "MessagePack encode error"

/-- The error without the properties it is in. -/
def innermost : Error → Error
  | property _ cause => cause.innermost
  | e => e

/-- The message of the error and of everything inside it, outermost first. -/
def chain : Error → List String
  | property name cause => (property name cause).message :: cause.chain
  | e => [e.message]

end Error

end FlowGraph.Archive
