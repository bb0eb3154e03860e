import FlowGraph.Tool.Arguments

namespace FlowGraph.Tool

/-- How a run of the tool ends. -/
inductive Outcome
  | done
  | failed (cause : Failure)
  /-- The command line is not acceptable. -/
  | rejected
deriving DecidableEq, Repr

def Outcome.exitCode : Outcome → UInt8
  | done => 0
  | failed _ => 1
  | rejected => 2

def usage : String :=
  "Inspect, transform and evaluate model IR archives\n\n" ++
    "Usage: ir-tool [-c <CONFIG>] [-v]... <COMMAND>\n\nCommands:\n" ++
    "  inspect    -m <MODEL>\n" ++
    "  transform  -m <MODEL> -o <OUTPUT> [-p <PASS>]...\n" ++
    "  convert    -m <MODEL> -o <OUTPUT>\n" ++
    "  compute    -m <MODEL> [-i <INDEX>=<V1,V2,...>]...\n" ++
    "  demo       -o <OUTPUT>\n"

def Inquiry.answer : Inquiry → String
  | .help => usage
  | .version => "ir-tool 0.1.0\n"

variable {m : Type → Type} [Monad m]

/-- Runs the tool on the words of a command line. Ids start anew. -/
def run (h : Host m) (words : List String) : m Outcome := do
  match Request.read? words with
  | none => return .rejected
  | some (.inquiry i) =>
    h.print i.answer
    return .done
  | some (.command config c) =>
    let job : Job m Unit := do c.perform h (← loadSettings h config)
    match (← StateT.run job.run {}).1 with
    | .ok () => return .done
    | .error cause => return .failed cause

end FlowGraph.Tool
