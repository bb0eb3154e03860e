import FlowGraph.Model.Registry
import FlowGraph.Transformer.Basic

/-! What a visitor does, as data: requests to the transformer, each with what follows its answer. A
visitor can do nothing to a transformer but ask. -/
namespace FlowGraph

inductive Request
  /-- A fresh id. -/
  | draw
  | add (n : Node)
  | map (old : Outlet) (e : Selection)
  | corresponding (address : OutletRef)
  | relocate (e : Selection)
  | destination
  | isTransforming
  /-- Another transform by the same transformer. -/
  | restart

def Request.Answer : Request → Type
  | draw => NodeId
  | add _ => Except GraphError NodeId
  | map _ _ => Except GraphError Unit
  | corresponding _ => Except GraphError Selection
  | relocate _ => Except GraphError Selection
  | destination => Except GraphError Model
  | isTransforming => Bool
  | restart => Except GraphError Unit

/-- What requests are made of: ids, and a transformer. -/
structure Workspace where
  supply : Supply := {}
  transformer : Transformer := .idle

namespace Workspace

/-- Keeps the changed transformer, or tells why there is none. -/
def update {α : Type} (w : Workspace) (result : Except GraphError Transformer) (answer : α) :
    Except GraphError α × Workspace :=
  match result with
  | .ok t => (.ok answer, { w with transformer := t })
  | .error e => (.error e, w)

theorem update_ok {α : Type} {w w' : Workspace} {result : Except GraphError Transformer} {a b : α} :
    w.update result a = (.ok b, w') ↔
      a = b ∧ ∃ t, result = .ok t ∧ w' = { w with transformer := t } := by
  cases result <;> simp [update, eq_comm]

theorem update_error {α : Type} {w w' : Workspace} {result : Except GraphError Transformer} {a : α}
    {e : GraphError} : w.update result a = (.error e, w') ↔ result = .error e ∧ w' = w := by
  cases result <;> simp [update, eq_comm]

/-- A transformer that is building a model starts no other one. -/
def start (w : Workspace) : Except GraphError Unit × Workspace :=
  if w.transformer.isTransforming then (.error .transformerBusy, w)
  else (.ok (), { w with transformer := ⟨some {}⟩ })

def respond (w : Workspace) : (r : Request) → r.Answer × Workspace
  | .draw =>
    let (id, supply) := w.supply.draw
    (id, { w with supply })
  | .add n => w.update (w.transformer.add n) n.id
  | .map old e => w.update (w.transformer.map old e) ()
  | .corresponding address => (w.transformer.corresponding address, w)
  | .relocate e => (w.transformer.relocate e, w)
  | .destination => (w.transformer.destination, w)
  | .isTransforming => (w.transformer.isTransforming, w)
  | .restart => w.start

end Workspace

inductive Script (α : Type)
  | done (result : α)
  | ask (r : Request) (next : r.Answer → Script α)

namespace Script

variable {α β : Type}

def bind : Script α → (α → Script β) → Script β
  | done a, f => f a
  | ask r next, f => ask r fun answer => (next answer).bind f

instance : Monad Script where
  pure := done
  bind := bind

def request (r : Request) : Script r.Answer := ask r done

/-- Carries a script out. -/
def run : Script α → Workspace → α × Workspace
  | done a, w => (a, w)
  | ask r next, w =>
    let (answer, w) := w.respond r
    (next answer).run w

end Script

/-- A script that may fail. -/
abbrev Visit := ExceptT GraphError Script

namespace Visit

def drawId : Visit NodeId := ExceptT.lift (Script.request .draw)

def add (n : Node) : Visit NodeId := ExceptT.mk (Script.request (.add n))

def map (old : Outlet) (e : Selection) : Visit Unit := ExceptT.mk (Script.request (.map old e))

def corresponding (address : OutletRef) : Visit Selection :=
  ExceptT.mk (Script.request (.corresponding address))

def relocate (e : Selection) : Visit Selection := ExceptT.mk (Script.request (.relocate e))

def destination : Visit Model := ExceptT.mk (Script.request .destination)

def isTransforming : Visit Bool := ExceptT.lift (Script.request .isTransforming)

def restart : Visit Unit := ExceptT.mk (Script.request .restart)

/-- Adds a node and maps an outlet of the source onto the whole of its own. -/
def substitute (old : Outlet) (n : Node) : Visit Unit := do
  let _ ← add n
  map old n.outlet.all

end Visit

/-- Builds the same node in the destination. An input node starts from its defaults. -/
def Node.copy (n : Node) : Visit Unit := do
  match n.body with
  | .input _ => Visit.substitute n.outlet (.input (← Visit.drawId) n.type n.size)
  | .constant values => Visit.substitute n.outlet (.constant (← Visit.drawId) n.type values)
  | .output source =>
    -- relocated first: a node whose operands are gone draws no id
    let source ← Visit.relocate source
    Visit.substitute n.outlet (.output (← Visit.drawId) n.type source)
  | .operation numeric op left right =>
    let left ← Visit.relocate left
    let right ← Visit.relocate right
    let copied := Node.operation (← Visit.drawId) n.type numeric op left right
    Visit.substitute n.outlet (← MonadExcept.ofExcept copied)

end FlowGraph
