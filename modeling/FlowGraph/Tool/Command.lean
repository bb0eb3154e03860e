import FlowGraph.Model.Stored
import FlowGraph.Model.Text
import FlowGraph.Tool.Assignment
import FlowGraph.Tool.Settings

namespace FlowGraph

/-- Reads a model with the built-in node types. -/
def Model.ofBytes (codecs : Archive.Codecs) (format : Archive.Format) (bytes : List UInt8) :
    Drawing Model := do
  Registry.builtin.load (← Registry.ofArchive (codecs.decode format bytes))

def Model.toBytes (m : Model) (codecs : Archive.Codecs) (format : Archive.Format) :
    Except Archive.Error (List UInt8) :=
  codecs.encode format m.toArchive

def Model.typeNames (m : Model) : List String := m.nodes.map (·.nodeType.name)

namespace Model

/-- The number n / 2. -/
def half (n : Nat) : Binary .double := .ofRatio false n 2

/-- A small model with something to fold and something to prune. -/
def sample : Drawing Model := do
  let double (values : List Nat) : List (ElementType.double.Value) := values.map half
  let x := Node.input (← Drawing.drawId) .double 3
  let whole := Node.constant (← Drawing.drawId) .double (double [2, 4, 6])
  let halves := Node.constant (← Drawing.drawId) .double (double [1, 1, 1])
  let unused := Node.constant (← Drawing.drawId) .int [(42 : Int32)]
  let combine (op : Operation) (a b : Node) : Drawing Node := do
    let id ← Drawing.drawId
    Drawing.ofExcept (Node.operation id .double rfl op a.outlet.all b.outlet.all)
  let bias ← combine .add whole halves
  let shifted ← combine .add x bias
  let product ← combine .multiply shifted x
  let result := Node.output (← Drawing.drawId) .double product.outlet.all
  Drawing.ofExcept
    ([x, whole, halves, unused, bias, shifted, product, result].foldlM Model.add .empty)

end Model

namespace Tool

section Tables

def padRight (width : Nat) (text : String) : String :=
  text ++ String.ofList (List.replicate (width - text.length) ' ')

def padLeft (width : Nat) (text : String) : String :=
  String.ofList (List.replicate (width - text.length) ' ') ++ text

def rule (width : Nat) : String := String.ofList (List.replicate width '-')

/-- A text of `width` characters at most, with dots in place of what is cut off. -/
def shorten (width : Nat) (text : String) : String :=
  if text.length ≤ width then text else String.ofList (text.toList.take (width - 3)) ++ "..."

/-- The columns of the table of nodes; the last one is as wide as it has to be. -/
def nodeRow (place id type inputs outputs reads : String) : String :=
  " ".intercalate [padRight 4 place, padRight 10 id, padRight 32 type, padRight 24 inputs,
    padRight 24 outputs, reads]

def sized (name : String) (size : Nat) : String := name ++ "[" ++ toString size ++ "]"

def describe (place : Nat) (n : Node) : String :=
  nodeRow (toString place) n.id.text (shorten 32 n.nodeType.name)
    (" ".intercalate (n.inlets.map fun i => sized i.name i.size))
    (sized Node.outletName n.size)
    (", ".intercalate (n.dependencies.map NodeId.text))

/-- The nodes in the order of the model, a line for each, below a heading. -/
def nodeTable (m : Model) : Except GraphError (List String) := do
  let nodes ← (← m.order).mapM m.node
  return nodeRow "Idx" "Id" "Type" "Inputs" "Outputs" "Reads" :: rule 110 ::
    nodes.mapIdx describe

/-- A line of the table of passes. -/
def passRow (name count : String) : String := padRight 16 name ++ " " ++ padLeft 6 count

end Tables

inductive Command
  | inspect (model : String)
  | transform (model output : String) (passes : List String)
  | convert (model output : String)
  | compute (model : String) (inputs : List String)
  | demo (output : String)
deriving DecidableEq, Repr

/-- What commands need from where they run: files, a place to print to, and codecs. -/
structure Host (m : Type → Type) where
  codecs : Archive.Codecs
  /-- The content of a file, if it can be read. -/
  read : String → m (Option (List UInt8))
  /-- Whether a file could be written. -/
  write : String → List UInt8 → m Bool
  print : String → m Unit

/-- A command at work, with the ids that are left. -/
abbrev Job (m : Type → Type) := ExceptT Failure (StateT Supply m)

variable {m : Type → Type} [Monad m]

namespace Job

variable {α : Type}

def host (action : m α) : Job m α := ExceptT.lift (StateT.lift action)

def printLine (h : Host m) (line : String) : Job m Unit := host (h.print (line ++ "\n"))

/-- A line of what a command has to say. -/
def tell (h : Host m) (line : String) : Job m Unit := printLine h ("  " ++ line)

def check (result : Except Failure α) : Job m α := MonadExcept.ofExcept result

def draw (wrap : GraphError → Failure) (d : Drawing α) : Job m α :=
  ExceptT.mk fun supply =>
    let (result, supply) := d.runWith supply
    pure (result.mapError wrap, supply)

end Job

open Job

/-- The error of a file that cannot be read or written. -/
def ioError : GraphError := .archive .io

def loadModel (h : Host m) (s : Settings) (path : String) : Job m Model := do
  match ← host (h.read path) with
  | none => throw (.loading path ioError)
  | some bytes => draw (.loading path) (Model.ofBytes h.codecs (s.formatFor path) bytes)

/-- Saves a model and, if the settings say so, reads it back: its nodes have to be of the same
types. -/
def saveModel (h : Host m) (s : Settings) (path : String) (model : Model) : Job m Unit := do
  let encoded := model.toBytes h.codecs (s.formatFor path)
  let bytes ← check (encoded.mapError fun e => .saving path (.archive e))
  if !(← host (h.write path bytes)) then throw (.saving path ioError)
  if s.verifyRoundTrip then
    let found ← loadModel h s path
    if found.typeNames ≠ model.typeNames then throw (.changed path model.size found.size)

def banner : List String :=
  ["╔══════════════════════════════════════════════════════╗",
    "║               ir-tool · Model Inspector              ║",
    "╚══════════════════════════════════════════════════════╝",
    ""]

def inspect (h : Host m) (s : Settings) (path : String) : Job m Unit := do
  banner.forM (printLine h)
  let model ← loadModel h s path
  tell h ("File: " ++ path)
  tell h model.summary
  printLine h ""
  (← check ((nodeTable model).mapError .graph)).forM (tell h)
  printLine h ""

/-- Runs passes one after the other, with a line for each. -/
def runPasses (h : Host m) (model : Model) : List Pass → Job m Model
  | [] => return model
  | p :: rest => do
    let model ← draw (.pass p) (p.run model)
    tell h (passRow p.name (toString model.size))
    runPasses h model rest

def transform (h : Host m) (s : Settings) (source output : String) (passes : List String) :
    Job m Unit := do
  let passes ← check (s.choosePasses passes)
  let model ← loadModel h s source
  tell h (passRow "Pass" "Nodes")
  tell h (rule 23)
  tell h (passRow "(source)" (toString model.size))
  let model ← runPasses h model passes
  saveModel h s output model
  printLine h ""
  tell h ("Wrote " ++ output)

def convert (h : Host m) (s : Settings) (source output : String) : Job m Unit := do
  let model ← loadModel h s source
  saveModel h s output model
  let named (path : String) := path ++ " (" ++ (s.formatFor path).name ++ ")"
  tell h (named source ++ " -> " ++ named output ++ ", " ++ toString model.size ++ " nodes")

def compute (h : Host m) (s : Settings) (path : String) (inputs : List String) : Job m Unit := do
  let model ← loadModel h s path
  let assignments ← check (inputs.mapM Assignment.parse)
  (← check (model.answers assignments).1).forM fun (id, values) =>
    tell h (id.text ++ " = [" ++ ", ".intercalate values ++ "]")

def demo (h : Host m) (s : Settings) (path : String) : Job m Unit := do
  let model ← draw .graph Model.sample
  saveModel h s path model
  tell h ("Wrote sample model to " ++ path)
  tell h model.summary

def Command.perform (h : Host m) (s : Settings) : Command → Job m Unit
  | .inspect path => Tool.inspect h s path
  | .transform source output passes => Tool.transform h s source output passes
  | .convert source output => Tool.convert h s source output
  | .compute path inputs => Tool.compute h s path inputs
  | .demo path => Tool.demo h s path

def loadSettings (h : Host m) : Option String → Job m Settings
  | none => return {}
  | some path => do
    match (← host (h.read path)).bind Text.ofUtf8? with
    | none => throw (.unreadableSettings path)
    | some text => check ((Settings.ofToml? text).elim (.error .malformedSettings) .ok)

end Tool

end FlowGraph
