import FlowGraph.Archive.Format
import FlowGraph.Toml.Quoted
import FlowGraph.Toml.Reader
import FlowGraph.Tool.Failure

namespace FlowGraph.Tool

structure Settings where
  /-- The format of paths whose extension names none. -/
  defaultFormat : Archive.Format := .json
  /-- The passes of a transform for which none are given. -/
  passes : List String := []
  /-- Whether a model that was saved is read again and compared. -/
  verifyRoundTrip : Bool := false
deriving DecidableEq, Repr

namespace Settings

def formatNamed? (name : String) : Option Archive.Format :=
  match name with
  | "json" => some .json
  | "msgpack" | "message_pack" => some .messagePack
  | _ => none

/-- A format is given by its name, or by a table whose only entry has that name and is empty. -/
def readFormat? : Toml.Value → Option Archive.Format
  | .string name => formatNamed? name
  | .table _ [(name, .array [])] | .table _ [(name, .table _ [])] => formatNamed? name
  | _ => none

def readText? : Toml.Value → Option String
  | .string text => some text
  | _ => none

def readTexts? : Toml.Value → Option (List String)
  | .array items => items.mapM readText?
  | _ => none

def readFlag? : Toml.Value → Option Bool
  | .boolean b => some b
  | _ => none

/-- Reads an entry, or takes its default if it is missing. -/
def entry? {α : Type} (document : Toml.Entries) (key : String) (read : Toml.Value → Option α)
    (default : α) : Option α :=
  (document.lookup key).elim (some default) read

/-- Reads settings. Entries with other keys have no meaning. -/
def ofToml? (text : String) : Option Settings := do
  let document ← Toml.read? text
  let base : Settings := {}
  let defaultFormat ← entry? document "default_format" readFormat? base.defaultFormat
  let passes ← entry? document "passes" readTexts? base.passes
  let verifyRoundTrip ← entry? document "verify_round_trip" readFlag? base.verifyRoundTrip
  return { defaultFormat, passes, verifyRoundTrip }

/-- A list with one item at most stands on one line, a longer one has a line for each item. -/
def listText (items : List String) : String :=
  match items.map Toml.quote with
  | [] => "[]"
  | [item] => "[" ++ item ++ "]"
  | items => "[\n" ++ String.join (items.map fun item => "    " ++ item ++ ",\n") ++ "]"

def toToml (s : Settings) : String :=
  "default_format = " ++ Toml.quote s.defaultFormat.name ++
    "\npasses = " ++ listText s.passes ++
    "\nverify_round_trip = " ++ ElementType.displayBool s.verifyRoundTrip ++ "\n"

/-- The format of a path. -/
def formatFor (s : Settings) (path : String) : Archive.Format :=
  (Archive.Format.ofPath? path).getD s.defaultFormat

def readPass (name : String) : Except Failure Pass :=
  (Pass.ofName? name).elim (.error (.unknownPass name)) .ok

/-- The passes with the given names, or else those of the settings, or else a copy. -/
def choosePasses (s : Settings) (names : List String) : Except Failure (List Pass) :=
  match if names.isEmpty then s.passes else names with
  | [] => .ok [.identity]
  | names => names.mapM readPass

end Settings

end FlowGraph.Tool
