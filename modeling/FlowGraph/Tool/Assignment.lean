import FlowGraph.Model.Evaluation
import FlowGraph.Tool.Failure

namespace FlowGraph.Tool

/-- Values for one input of a model, which is named by its place among the inputs. -/
structure Assignment where
  index : Nat
  texts : List String
deriving DecidableEq, Repr

/-- Reads digits after a number. What goes wrong first is the error. -/
def readIndexFrom (n : Nat) : List Char → Except IndexError Nat
  | [] => .ok n
  | c :: rest =>
    let next := 10 * n + (c.toNat - '0'.toNat)
    if !c.isDigit then .error .invalidDigit
    else if sizeLimit < next then .error .tooLarge
    else readIndexFrom next rest

/-- Reads a size, perhaps with a plus sign. -/
def readIndex (text : String) : Except IndexError Nat :=
  match text.toList with
  | [] => .error .empty
  | '+' :: c :: rest => readIndexFrom 0 (c :: rest)
  | digits => readIndexFrom 0 digits

namespace Assignment

/-- Splits a list of values at its commas; blanks alone are no values. -/
def splitValues (text : List Char) : List String :=
  let parts := text.foldr (fun c parts =>
    if c = ',' then [] :: parts
    else match parts with
      | [] => [[c]]
      | part :: rest => (c :: part) :: rest) [[]]
  if (Text.trimChars text).isEmpty then []
  else parts.map fun part => String.ofList (Text.trimChars part)

/-- Reads an index and values with an equals sign between them. -/
def parse (text : String) : Except Failure Assignment :=
  let index := text.toList.takeWhile (· ≠ '=')
  match text.toList.dropWhile (· ≠ '=') with
  | [] => .error (.noAssignment text)
  | _ :: values =>
    let index := String.ofList index
    match readIndex (Text.trim index) with
    | .ok n => .ok ⟨n, splitValues values⟩
    | .error e => .error (.badIndex text index e)

end Assignment

end FlowGraph.Tool

namespace FlowGraph.Model

open Tool (Assignment Failure)

/-- Sets the input at a place in `inputs`. -/
def assign (inputs : List NodeId) (m : Model) (a : Assignment) : Except Failure Model := do
  match inputs[a.index]? with
  | none => throw (.noSuchInput a.index inputs.length)
  | some id =>
    let n ← (m.node id).mapError .graph
    return m.replace (← (n.setInputTexts a.texts).mapError (.setting a.index))

/-- Sets inputs one after the other. Those before a failure keep their new values. -/
def assignAll (inputs : List NodeId) (m : Model) : List Assignment → Except Failure Unit × Model
  | [] => (.ok (), m)
  | a :: rest =>
    match m.assign inputs a with
    | .ok m => assignAll inputs m rest
    | .error e => (.error e, m)

/-- The values of the output nodes, in the order of the model. -/
def results (m : Model) : Except GraphError (List (NodeId × List String)) := do
  return (← m.outputs).filterMap fun id => (m.node? id).map fun n => (id, n.outlet.texts)

/-- Sets inputs, computes the model, and gives the values of its outputs. What was set before a
failure stays set. -/
def answers (m : Model) (assignments : List Assignment) :
    Except Failure (List (NodeId × List String)) × Model :=
  match m.inputs with
  | .error e => (.error (.graph e), m)
  | .ok inputs =>
    match m.assignAll inputs assignments with
    | (.error e, m) => (.error e, m)
    | (.ok (), m) =>
      match m.compute with
      | (.error e, m) => (.error (.graph e), m)
      | (.ok (), m) => (m.results.mapError .graph, m)

end FlowGraph.Model
