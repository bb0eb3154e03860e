import FlowGraph.Transformer.Script

namespace FlowGraph.Workspace

variable {σ : Type}

/-- Visits nodes one after the other, up to the first failure. -/
def visitAll (visitor : Node → σ → Script (Except GraphError Unit × σ)) (source : Model) :
    List NodeId → σ → Workspace → Except GraphError Unit × σ × Workspace
  | [], s, w => (.ok (), s, w)
  | id :: rest, s, w =>
    match source.node id with
    | .error e => (.error e, s, w)
    | .ok n =>
      match (visitor n s).run w with
      | ((.error e, s), w) => (.error e, s, w)
      | ((.ok (), s), w) =>
        -- a node counts as visited when its visitor has succeeded, not before
        match w.update (w.transformer.visit id) () with
        | (.error e, w) => (.error e, s, w)
        | (.ok (), w) => visitAll visitor source rest s w

/-- The finished destination, if it is a valid model. -/
def finish (w : Workspace) : Except GraphError Model := do
  let m ← w.transformer.destination
  m.validate
  return m

/-- Visits every node of `source` in its order, and gives the model that the visitor has built. The
visitor keeps a state of its own. Afterwards the transformer is idle, whatever happened. -/
def transformWith (visitor : Node → σ → Script (Except GraphError Unit × σ)) (source : Model)
    (s : σ) (w : Workspace) : Except GraphError Model × σ × Workspace :=
  if w.transformer.isTransforming then (.error .transformerBusy, s, w)
  else
    match source.order with
    | .error e => (.error e, s, w)
    | .ok ids =>
      let (result, s, w) :=
        visitAll visitor source ids s { w with transformer := ⟨some {}⟩ }
      (result.bind fun _ => w.finish, s, { w with transformer := .idle })

/-- A transform whose visitor keeps no state. -/
def transform (visitor : Node → Visit Unit) (source : Model) (w : Workspace) :
    Except GraphError Model × Workspace :=
  let (result, _, w) :=
    transformWith (fun n s => (·, s) <$> (visitor n).run) source () w
  (result, w)

/-- Copies every node. -/
def copy (source : Model) (w : Workspace) : Except GraphError Model × Workspace :=
  transform Node.copy source w

end FlowGraph.Workspace

namespace FlowGraph

/-- A transform by a transformer of its own. -/
def Model.rebuild (source : Model) (visitor : Node → Visit Unit) : Drawing Model := fun s =>
  let (result, w) := Workspace.transform visitor source { supply := s }
  (result, w.supply)

end FlowGraph
