import FlowGraph.Model.Evaluation
import FlowGraph.Model.Stored
import FlowGraph.Pass.Basic

/-! What a program does with models, one action after the other. It holds as many models as it
likes; an action that fails is reported, and the program goes on. -/
namespace FlowGraph

/-- What a node is made from. -/
inductive Recipe
  | input (t : ElementType) (dimension : Nat)
  | constant (t : ElementType) (values : List t.Value)
  | output (t : ElementType) (source : Selection)
  | operation (t : ElementType) (numeric : t.isNumeric = true) (op : Operation)
    (left right : Selection)

def Recipe.make (id : NodeId) : Recipe → Except GraphError Node
  | input t dimension => .ok (.input id t dimension)
  | constant t values => .ok (.constant id t values)
  | output t source => .ok (.output id t source)
  | operation t numeric op left right => Node.operation id t numeric op left right

/-- Sets the values of an input node for elements of type `t`. Any other node stays as it is. -/
def Node.setInputOf (n : Node) (t : ElementType) (values : List t.Value) :
    Except GraphError Node :=
  if same : t = n.type ∧ n.isInput = true then n.setInput (same.1 ▸ values) else .ok n

/-- A model that a program holds. -/
structure Held where
  model : Model := .empty
  /-- It was read from an archive. All other models began empty. -/
  loaded : Bool := false

structure Session where
  supply : Supply := {}
  /-- Nodes that are not in a model yet. -/
  made : List Node := []
  held : List Held := []

/-- Models, and nodes that are not in one yet, go by their places. -/
inductive Action
  | make (r : Recipe)
  | prepare (node : Nat) (t : ElementType) (values : List t.Value)
  | start
  | add (model node : Nat)
  /-- A single value is set as a list of one. -/
  | setInput (model : Nat) (id : NodeId) (t : ElementType) (values : List t.Value)
  | setInputTexts (model : Nat) (id : NodeId) (texts : List String)
  | compute (model : Nat)
  | computeSelection (model : Nat) (t : ElementType) (e : Selection)
  | load (r : Registry) (a : Archive)
  | pass (model : Nat) (p : Pass)

/-- Computing may change buffers before it fails. -/
def Action.computes : Action → Bool
  | compute _ | computeSelection _ _ _ => true
  | _ => false

/-- The new model, or the old one and why there is no new one. -/
def Model.attempt (m : Model) : Except GraphError Model → Except GraphError Unit × Model
  | .ok m' => (.ok (), m')
  | .error e => (.error e, m)

def Model.setInput (m : Model) (id : NodeId) (t : ElementType) (values : List t.Value) :
    Except GraphError Model :=
  match m.node? id with
  | some n => do return m.replace (← n.setInputOf t values)
  | none => .ok m

def Model.setInputTexts (m : Model) (id : NodeId) (texts : List String) :
    Except GraphError Model := do
  let n ← m.node id
  return m.replace (← n.setInputTexts texts)

namespace Session

/-- Changes the model at a place, if there is one. -/
def change (s : Session) (i : Nat) (f : Model → Except GraphError Unit × Model) :
    Except GraphError Unit × Session :=
  match s.held[i]? with
  | some h =>
    let (result, m) := f h.model
    (result, { s with held := s.held.set i { h with model := m } })
  | none => (.ok (), s)

/-- Holds one more model. What was drawn for it stays drawn if it fails. -/
def keep (s : Session) (loaded : Bool) (d : Drawing Model) : Except GraphError Unit × Session :=
  match d.runWith s.supply with
  | (.ok m, supply) => (.ok (), { s with supply, held := s.held ++ [⟨m, loaded⟩] })
  | (.error e, supply) => (.error e, { s with supply })

def perform (s : Session) : Action → Except GraphError Unit × Session
  | .make r =>
    let (id, supply) := s.supply.draw
    match r.make id with
    | .ok n => (.ok (), { s with supply, made := s.made ++ [n] })
    | .error e => (.error e, { s with supply })
  | .prepare k t values =>
    match s.made[k]? with
    | some n =>
      match n.setInputOf t values with
      | .ok n => (.ok (), { s with made := s.made.set k n })
      | .error e => (.error e, s)
    | none => (.ok (), s)
  | .start => (.ok (), { s with held := s.held ++ [{}] })
  | .add i k =>
    match s.made[k]? with
    -- a node that is rejected is gone all the same
    | some n => { s with made := s.made.eraseIdx k }.change i fun m => m.attempt (m.add n)
    | none => (.ok (), s)
  | .setInput i id t values => s.change i fun m => m.attempt (m.setInput id t values)
  | .setInputTexts i id texts => s.change i fun m => m.attempt (m.setInputTexts id texts)
  | .compute i => s.change i Model.compute
  | .computeSelection i t e =>
    s.change i fun m => ((m.computeSelection t e).1.map fun _ => (), (m.computeSelection t e).2)
  | .load r a => s.keep true (r.load a)
  | .pass i p =>
    match s.held[i]? with
    | some h => s.keep false (p.run h.model)
    | none => (.ok (), s)

/-- Carries actions out, whether those before them have failed or not. -/
def run (s : Session) (actions : List Action) : Session :=
  actions.foldl (fun s a => (s.perform a).2) s

end Session

end FlowGraph
