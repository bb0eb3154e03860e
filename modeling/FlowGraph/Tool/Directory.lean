import FlowGraph.Path
import FlowGraph.Tool.Run

/-! A directory in memory for the tool to run in. -/
namespace FlowGraph.Tool

/-- Files by the names on the way to them. There are no directories but those with files in them. -/
structure Directory where
  files : List (List String × List UInt8) := []

namespace Directory

/-- The names on the way to a file. A path that starts at the root, ends as one of a directory or
goes up leads to no file here. -/
def locate? (path : String) : Option (List String) :=
  let last := (Path.pieces path).getLast?
  let names := Path.components path
  if path.startsWith "/" || last = some "" || last = some "." || names.contains ".." then none
  else some names

def read? (d : Directory) (path : String) : Option (List UInt8) := do
  d.files.lookup (← locate? path)

def isDirectory (d : Directory) (names : List String) : Bool :=
  names.isEmpty || d.files.any fun (file, _) => names.isPrefixOf file && names ≠ file

/-- Writes a file into a directory that is there. -/
def write? (d : Directory) (path : String) (content : List UInt8) : Option Directory := do
  let names ← locate? path
  if d.isDirectory names || !d.isDirectory names.dropLast then none
  else some ⟨(names, content) :: d.files.filter (·.1 ≠ names)⟩

/-- Puts a file there, with the directories on the way. -/
def put (d : Directory) (path : String) (content : List UInt8) : Directory :=
  let names := Path.components path
  ⟨(names, content) :: d.files.filter (·.1 ≠ names)⟩

end Directory

/-- A directory, and what has been printed. -/
structure World where
  directory : Directory := {}
  printed : String := ""

namespace World

def host (codecs : Archive.Codecs) : Host (StateM World) where
  codecs
  read path := do return (← get).directory.read? path
  write path content := do
    match (← get).directory.write? path content with
    | some directory =>
      modify fun w => { w with directory }
      return true
    | none => return false
  print text := modify fun w => { w with printed := w.printed ++ text }

/-- Runs the tool in a directory: how it ends, what it prints, and the directory afterwards. -/
def run (d : Directory) (words : List String) : Outcome × String × Directory :=
  let (outcome, w) := StateT.run (Tool.run (host .native) words) { directory := d }
  (outcome, w.printed, w.directory)

end World

end FlowGraph.Tool
