import FlowGraph.Graph.Error
import FlowGraph.Pass.Basic

namespace FlowGraph.Tool

/-- Why a text is no index. -/
inductive IndexError
  | empty
  | invalidDigit
  | tooLarge
deriving DecidableEq, Repr

def IndexError.message : IndexError → String
  | empty => "cannot parse integer from empty string"
  | invalidDigit => "invalid digit found in string"
  | tooLarge => "number too large to fit in target type"

/-- Why a command of the tool stops. -/
inductive Failure
  | unreadableSettings (path : String)
  | malformedSettings
  | unknownPass (name : String)
  | loading (path : String) (cause : GraphError)
  | saving (path : String) (cause : GraphError)
  /-- What was read back is not what was written. -/
  | changed (path : String) (written found : Nat)
  | pass (p : Pass) (cause : GraphError)
  | noAssignment (text : String)
  | badIndex (text index : String) (cause : IndexError)
  | noSuchInput (index inputs : Nat)
  | setting (index : Nat) (cause : GraphError)
  | graph (cause : GraphError)
deriving DecidableEq, Repr

namespace Failure

def message : Failure → String
  | unreadableSettings path => "cannot read config '" ++ path ++ "'"
  | malformedSettings => "TOML parse error"
  | unknownPass name =>
    "unknown pass '" ++ Text.lowercase name ++
      "'; expected 'identity', 'prune', or 'fold-constants'"
  | loading path _ => "failed to load model from '" ++ path ++ "'"
  | saving path _ => "failed to save model to '" ++ path ++ "'"
  | changed path written found =>
    "round trip of '" ++ path ++ "' changed the model: " ++ toString written ++
      " nodes written, " ++ toString found ++ " read back"
  | pass p _ => "pass '" ++ p.name ++ "' failed"
  | noAssignment text => "input '" ++ text ++ "' is not of the form <index>=<v1,v2,...>"
  | badIndex text index _ => "input '" ++ text ++ "': bad index '" ++ index ++ "'"
  | noSuchInput index inputs =>
    "input index " ++ toString index ++ " out of range; the model has " ++ toString inputs ++
      " input nodes"
  | setting index _ => "cannot set input " ++ toString index
  | graph cause => cause.message

/-- The message of the failure and of everything inside it, outermost first. -/
def chain (f : Failure) : List String :=
  match f with
  | loading _ cause | saving _ cause | pass _ cause | setting _ cause => f.message :: cause.chain
  | badIndex _ _ cause => [f.message, cause.message]
  | graph cause => cause.chain
  | _ => [f.message]

end Failure

end FlowGraph.Tool
