namespace FlowGraph.Path

/-- What is between the slashes. -/
def pieces (path : String) : List String := (path.toList.splitOn '/').map String.ofList

/-- The names on the way, without empty ones and those that stay where they are. -/
def components (path : String) : List String :=
  (pieces path).filter fun name => name ≠ "" && name ≠ "."

def fileName? (path : String) : Option String :=
  match (components path).getLast? with
  | some ".." => none
  | name => name

/-- What follows the last dot of the file name. A dot at its start begins no extension. -/
def extension? (path : String) : Option String := do
  let name ← fileName? path
  let reversed := name.toList.reverse
  match reversed.dropWhile (· ≠ '.') with
  | [] | [_] => none
  | _ => some (String.ofList (reversed.takeWhile (· ≠ '.')).reverse)

end FlowGraph.Path
