import FlowGraph.Indexed.Building
import FlowGraph.Indexed.Evaluation

/-! What a program does with models that have an index, one action after the other. -/
namespace FlowGraph.Indexed

/-- A model that a program holds. -/
structure Held where
  graph : Indexed := {}
  /-- It was read from an archive. All other models began empty. -/
  loaded : Bool := false

structure Session where
  supply : Supply := {}
  made : List Slot := []
  held : List Held := []

/-- The new model, or the old one and why there is no new one. -/
def attempt (g : Indexed) : Except GraphError Indexed → Except GraphError Unit × Indexed
  | .ok g' => (.ok (), g')
  | .error e => (.error e, g)

namespace Session

/-- Changes the model at a place, if there is one. -/
def change (s : Session) (i : Nat) (f : Indexed → Except GraphError Unit × Indexed) :
    Except GraphError Unit × Session :=
  match s.held[i]? with
  | some h =>
    let (result, g) := f h.graph
    (result, { s with held := s.held.set i { h with graph := g } })
  | none => (.ok (), s)

/-- Holds one more model. What was drawn for it stays drawn if it fails. -/
def keep (s : Session) (loaded : Bool) (d : Drawing Indexed) : Except GraphError Unit × Session :=
  match d.runWith s.supply with
  | (.ok g, supply) => (.ok (), { s with supply, held := s.held ++ [⟨g, loaded⟩] })
  | (.error e, supply) => (.error e, { s with supply })

def perform (s : Session) : Action → Except GraphError Unit × Session
  | .make r =>
    let (id, supply) := s.supply.draw
    match Slot.make id r with
    | .ok n => (.ok (), { s with supply, made := s.made ++ [n] })
    | .error e => (.error e, { s with supply })
  | .prepare k t values =>
    match s.made[k]? with
    | some n =>
      match n.setInputOf t values with
      | .ok n => (.ok (), { s with made := s.made.set k n })
      | .error e => (.error e, s)
    | none => (.ok (), s)
  | .start => (.ok (), { s with held := s.held ++ [{}] })
  | .add i k =>
    match s.made[k]? with
    | some n => { s with made := s.made.eraseIdx k }.change i fun g => g.attempt (g.add n)
    | none => (.ok (), s)
  | .setInput i id t values => s.change i fun g => g.attempt (g.setInput id t values)
  | .setInputTexts i id texts => s.change i fun g => g.attempt (g.setInputTexts id texts)
  | .compute i => s.change i Indexed.compute
  | .computeSelection i t e =>
    s.change i fun g => ((g.computeSelection t e).1.map fun _ => (), (g.computeSelection t e).2)
  | .load r a => s.keep true (Indexed.load r a)
  | .pass i p =>
    match s.held[i]? with
    | some h => s.keep false (Indexed.pass p h.graph)
    | none => (.ok (), s)

/-- Carries actions out, whether those before them have failed or not. -/
def run (s : Session) (actions : List Action) : Session :=
  actions.foldl (fun s a => (s.perform a).2) s

end Session

end FlowGraph.Indexed
