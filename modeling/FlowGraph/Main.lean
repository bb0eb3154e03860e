import FlowGraph.Tool.Run

open FlowGraph.Tool

def consoleHost : Host IO where
  codecs := .native
  read path := do
    try
      return some (← IO.FS.readBinFile path).data.toList
    catch _ => return none
  write path content := do
    try
      IO.FS.writeBinFile path (ByteArray.mk content.toArray)
      return true
    catch _ => return false
  print text := do
    (← IO.getStdout).putStr text

def main (words : List String) : IO UInt32 := do
  let outcome ← run consoleHost words
  match outcome with
  | .failed cause => IO.eprintln ("Error: " ++ "\n  ".intercalate cause.chain)
  | .rejected => IO.eprint usage
  | .done => pure ()
  return outcome.exitCode.toUInt32
