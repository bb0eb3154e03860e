import FlowGraph.Pass.Basic
import FlowGraph.Proofs.Drawing
import FlowGraph.Proofs.WellFormed

/-! What visits do to the workspace in which they are carried out, up to the model that a whole
transform builds. -/
namespace FlowGraph

variable {α β : Type}

theorem Script.run_bind (p : Script α) (f : α → Script β) (w : Workspace) :
    (p >>= f).run w = (f (p.run w).1).run (p.run w).2 := by
  change (p.bind f).run w = _
  induction p generalizing w with
  | done a => rfl
  | ask r next ih => exact ih (w.respond r).1 (w.respond r).2

namespace Visit

/-- Carries a visit out. -/
def perform (v : Visit α) (w : Workspace) : Except GraphError α × Workspace := Script.run v.run w

/-- A visit that is carried out beside a state which it does not touch. -/
theorem run_paired (v : Visit Unit) (w : Workspace) :
    Script.run ((·, ()) <$> v.run) w = (((v.perform w).1, ()), (v.perform w).2) :=
  Script.run_bind _ _ w

theorem perform_bind (v : Visit α) (f : α → Visit β) (w : Workspace) :
    (v >>= f).perform w = match v.perform w with
      | (.ok a, w₁) => (f a).perform w₁
      | (.error e, w₁) => (.error e, w₁) := by
  refine (Script.run_bind v.run (ExceptT.bindCont f) w).trans ?_
  unfold perform
  rcases Script.run v.run w with ⟨result, w₁⟩
  cases result <;> rfl

theorem perform_bind_ok {v : Visit α} {f : α → Visit β} {w w' : Workspace} {b : β} :
    (v >>= f).perform w = (.ok b, w') ↔
      ∃ a w₁, v.perform w = (.ok a, w₁) ∧ (f a).perform w₁ = (.ok b, w') := by
  rw [perform_bind]
  rcases v.perform w with ⟨result, w₁⟩
  cases result with
  | error e => simp
  | ok a => simp

theorem perform_pure_ok {a b : α} {w w' : Workspace} :
    (pure a : Visit α).perform w = (.ok b, w') ↔ a = b ∧ w' = w := by
  change ((Except.ok a, w) : Except GraphError α × Workspace) = _ ↔ _
  rw [Prod.mk.injEq, Except.ok.injEq, eq_comm (a := w)]

theorem perform_ofExcept_ok {result : Except GraphError α} {b : α} {w w' : Workspace} :
    (MonadExcept.ofExcept result : Visit α).perform w = (.ok b, w') ↔
      result = .ok b ∧ w' = w := by
  cases result with
  | error e =>
    change ((Except.error e, w) : Except GraphError α × Workspace) = _ ↔ _
    simp
  | ok a =>
    rw [Except.ok.injEq]
    exact perform_pure_ok

theorem perform_drawId_ok {id : NodeId} {w w' : Workspace} :
    drawId.perform w = (.ok id, w') ↔
      id = NodeId.nth w.supply.drawn ∧ w' = { w with supply := w.supply.draw.2 } := by
  change ((Except.ok (NodeId.nth w.supply.drawn), { w with supply := w.supply.draw.2 }) :
    Except GraphError NodeId × Workspace) = _ ↔ _
  rw [Prod.mk.injEq, Except.ok.injEq, eq_comm, eq_comm (a := w')]

theorem perform_relocate_ok {e e' : Selection} {w w' : Workspace} :
    (relocate e).perform w = (.ok e', w') ↔ w.transformer.relocate e = .ok e' ∧ w' = w := by
  change ((w.transformer.relocate e, w) : Except GraphError Selection × Workspace) = _ ↔ _
  rw [Prod.mk.injEq, eq_comm (a := w)]

theorem perform_destination_ok {m : Model} {w w' : Workspace} :
    destination.perform w = (.ok m, w') ↔ w.transformer.destination = .ok m ∧ w' = w := by
  change ((w.transformer.destination, w) : Except GraphError Model × Workspace) = _ ↔ _
  rw [Prod.mk.injEq, eq_comm (a := w)]

end Visit

namespace Transformer

/-- The context after a node of the source has been given the node `n`. -/
def Context.extend (c : Context) (old : Outlet) (n : Node) : Context :=
  { c with
    destination := c.destination.insert n
    mapping := (old.address, n.outlet.all) :: c.mapping }

theorem node?_insert_self {m : Model} {n : Node} (h : n.id ∉ m.ids) :
    (m.insert n).node? n.id = some n := by
  have hnone : m.nodes.find? (·.id = n.id) = none := by
    rw [List.find?_eq_none]
    intro k hk hid
    exact h (Model.mem_ids.mpr ⟨k, hk, by simpa using hid⟩)
  simp [Model.node?, Model.insert, List.find?_append, hnone]

theorem add_ok {n : Node} {c : Context} {t : Transformer} :
    Transformer.add ⟨some c⟩ n = .ok t ↔
      ∃ m, c.destination.add n = .ok m ∧ t = ⟨some { c with destination := m }⟩ := by
  simp only [Transformer.add, running, Option.elim, bind_ok, pure_ok]
  constructor
  · intro h
    obtain ⟨c', hc, m, hm, rfl⟩ := h
    obtain rfl := Except.ok.inj hc
    exact ⟨m, hm, rfl⟩
  · intro h
    obtain ⟨m, hm, rfl⟩ := h
    exact ⟨c, rfl, m, hm, rfl⟩

theorem checkTarget_ok {m : Model} {old : Outlet} {s : Span} :
    checkTarget m old s = .ok () ↔ ∃ o, m.outlet s.source = .ok o ∧ o.type = old.type := by
  simp only [checkTarget, bind_ok]
  refine exists_congr fun o => and_congr_right fun _ => ?_
  by_cases htype : o.type = old.type
  · simp [htype, pure, Except.pure]
  · simp [htype, throw_ok]

theorem map_ok {old : Outlet} {e : Selection} {c : Context} {t : Transformer} :
    Transformer.map ⟨some c⟩ old e = .ok t ↔ old.size = e.size ∧
      (∀ s ∈ e.spans, ∃ o, c.destination.outlet s.source = .ok o ∧ o.type = old.type) ∧
        t = ⟨some { c with mapping := (old.address, e) :: c.mapping }⟩ := by
  have hall : e.spans.forM (checkTarget c.destination old) = .ok () ↔
      ∀ s ∈ e.spans, ∃ o, c.destination.outlet s.source = .ok o ∧ o.type = old.type := by
    simp only [forM_ok, checkTarget_ok]
  by_cases hsize : old.size = e.size
  · simp only [Transformer.map, hsize, ne_eq, not_true, if_false, running, Option.elim, bind_ok,
      true_and, pure_ok]
    constructor
    · intro h
      obtain ⟨c', hc, ⟨⟩, htargets, rfl⟩ := h
      obtain rfl := Except.ok.inj hc
      exact ⟨hall.mp htargets, rfl⟩
    · intro h
      obtain ⟨htargets, rfl⟩ := h
      exact ⟨c, rfl, (), hall.mpr htargets, rfl⟩
  · simp only [Transformer.map, hsize, ne_eq, not_false_eq_true, if_true, false_and, iff_false]
    intro h
    exact throw_ok.mp h

/-- Everything that has to hold for an outlet of the source to be given the node `n`. -/
theorem substitute_ok {old : Outlet} {n : Node} {c : Context} {s : Supply} {w : Workspace} :
    (Visit.substitute old n).perform ⟨s, ⟨some c⟩⟩ = (.ok (), w) ↔
      n.id ∉ c.destination.ids ∧ (∀ s ∈ n.spans, s.Resolves c.destination n.type) ∧
        old.size = n.outlet.all.size ∧ n.type = old.type ∧
          w = ⟨s, ⟨some (c.extend old n)⟩⟩ := by
  have hadd : ∀ (id : NodeId) (w : Workspace),
      (Visit.add n).perform ⟨s, ⟨some c⟩⟩ = (.ok id, w) ↔
        n.id = id ∧ ∃ t, Transformer.add ⟨some c⟩ n = .ok t ∧ w = ⟨s, t⟩ :=
    fun id w => Workspace.update_ok
  have hmap : ∀ (c' : Context) (w : Workspace),
      (Visit.map old n.outlet.all).perform ⟨s, ⟨some c'⟩⟩ = (.ok (), w) ↔
        () = () ∧ ∃ t, Transformer.map ⟨some c'⟩ old n.outlet.all = .ok t ∧ w = ⟨s, t⟩ :=
    fun c' w => Workspace.update_ok
  -- the only span of the new outlet starts at the node just added
  have htarget : n.id ∉ c.destination.ids → ∀ s ∈ n.outlet.all.spans,
      (c.destination.insert n).outlet s.source = .ok n.outlet := by
    intro hfresh s hs
    rw [List.mem_singleton.mp hs]
    exact Model.outlet_ok.mpr ⟨n, node?_insert_self hfresh, rfl, rfl⟩
  simp only [Visit.substitute, Visit.perform_bind_ok, hadd, add_ok, Model.add_ok]
  constructor
  · intro h
    obtain ⟨id, w₁, ⟨-, t, ⟨m, ⟨hfresh, hspans, rfl⟩, rfl⟩, rfl⟩, h⟩ := h
    obtain ⟨-, t', ht, rfl⟩ := (hmap _ _).mp h
    obtain ⟨hsize, htypes, rfl⟩ := map_ok.mp ht
    obtain ⟨o, ho, htype⟩ := htypes _ (List.mem_singleton.mpr rfl)
    rw [htarget hfresh _ (List.mem_singleton.mpr rfl), Except.ok.injEq] at ho
    exact ⟨hfresh, hspans, hsize, by rw [← htype, ← ho]; rfl, rfl⟩
  · intro h
    obtain ⟨hfresh, hspans, hsize, htype, rfl⟩ := h
    refine ⟨n.id, _, ⟨rfl, _, ⟨_, ⟨hfresh, hspans, rfl⟩, rfl⟩, rfl⟩, ?_⟩
    refine (hmap _ _).mpr ⟨rfl, _, map_ok.mpr ⟨hsize, fun s hs => ?_, rfl⟩, rfl⟩
    exact ⟨n.outlet, htarget hfresh s hs, htype⟩

end Transformer

namespace Node

/-- The copy of a node under a new id, reading the elements where the transformer has put them. -/
def copied? (t : Transformer) (id : NodeId) (n : Node) : Except GraphError Node :=
  match n.body with
  | .input _ => .ok (.input id n.type n.size)
  | .constant values => .ok (.constant id n.type values)
  | .output source => do return .output id n.type (← t.relocate source)
  | .operation numeric op left right => do
    let left ← t.relocate left
    let right ← t.relocate right
    operation id n.type numeric op left right

/-- The values of an operation whose operands are constants in the destination. -/
def folded? (t : Transformer) (n : Node) : Except GraphError (Option (List n.type.Value)) :=
  match n.body with
  | .operation _ op left right => do
    let left ← t.relocate left
    let right ← t.relocate right
    return (← t.destination).folded? n.type op left right
  | _ => .ok none

theorem copied?_ok {t : Transformer} {id : NodeId} {n n' : Node} (h : n.copied? t id = .ok n') :
    n'.id = id ∧ n'.Sized := by
  rcases n with ⟨key, u, body, buffer⟩
  cases body with
  | input values =>
    obtain rfl := Except.ok.inj h
    exact ⟨rfl, rfl⟩
  | constant values =>
    obtain rfl := Except.ok.inj h
    exact ⟨rfl, List.length_replicate.symm⟩
  | output source =>
    simp only [copied?, bind_ok, pure_ok] at h
    obtain ⟨source', -, rfl⟩ := h
    exact ⟨rfl, List.length_replicate.symm⟩
  | operation numeric op left right =>
    simp only [copied?, bind_ok] at h
    obtain ⟨left', -, right', -, hmade⟩ := h
    exact operation_ok hmade

theorem copy_ok {n : Node} {w w' : Workspace} :
    n.copy.perform w = (.ok (), w') ↔
      ∃ n', n.copied? w.transformer (NodeId.nth w.supply.drawn) = .ok n' ∧
        (Visit.substitute n.outlet n').perform { w with supply := w.supply.draw.2 } =
          (.ok (), w') := by
  rcases n with ⟨key, t, body, buffer⟩
  cases body with
  | input values =>
    simp only [copy, copied?, Visit.perform_bind_ok, Visit.perform_drawId_ok, Except.ok.injEq,
      exists_eq_left']
    constructor
    · intro h
      obtain ⟨id, w₁, ⟨rfl, rfl⟩, h⟩ := h
      exact h
    · intro h
      exact ⟨_, _, ⟨rfl, rfl⟩, h⟩
  | constant values =>
    simp only [copy, copied?, Visit.perform_bind_ok, Visit.perform_drawId_ok, Except.ok.injEq,
      exists_eq_left']
    constructor
    · intro h
      obtain ⟨id, w₁, ⟨rfl, rfl⟩, h⟩ := h
      exact h
    · intro h
      exact ⟨_, _, ⟨rfl, rfl⟩, h⟩
  | output source =>
    simp only [copy, copied?, Visit.perform_bind_ok, Visit.perform_drawId_ok,
      Visit.perform_relocate_ok, bind_ok, pure_ok]
    constructor
    · intro h
      obtain ⟨source', w₁, ⟨hsource, rfl⟩, id, w₂, ⟨rfl, rfl⟩, h⟩ := h
      exact ⟨_, ⟨source', hsource, rfl⟩, h⟩
    · intro h
      obtain ⟨n', ⟨source', hsource, rfl⟩, h⟩ := h
      exact ⟨source', w, ⟨hsource, rfl⟩, _, _, ⟨rfl, rfl⟩, h⟩
  | operation numeric op left right =>
    simp only [copy, copied?, Visit.perform_bind_ok, Visit.perform_drawId_ok,
      Visit.perform_relocate_ok, Visit.perform_ofExcept_ok, bind_ok]
    constructor
    · intro h
      obtain ⟨left', w₁, ⟨hleft, rfl⟩, right', w₂, ⟨hright, rfl⟩, id, w₃, ⟨rfl, rfl⟩, n', w₄, ⟨hn',
        rfl⟩, h⟩ := h
      exact ⟨n', ⟨left', hleft, right', hright, hn'⟩, h⟩
    · intro h
      obtain ⟨n', ⟨left', hleft, right', hright, hn'⟩, h⟩ := h
      exact ⟨left', w, ⟨hleft, rfl⟩, right', w, ⟨hright, rfl⟩, _, _, ⟨rfl, rfl⟩, n', _,
        ⟨hn', rfl⟩, h⟩

theorem fold_ok {n : Node} {w w' : Workspace} :
    n.fold.perform w = (.ok (), w') ↔
      (∃ values, n.folded? w.transformer = .ok (some values) ∧
        (Visit.substitute n.outlet (.constant (NodeId.nth w.supply.drawn) n.type values)).perform
          { w with supply := w.supply.draw.2 } = (.ok (), w')) ∨
      (n.folded? w.transformer = .ok none ∧ n.copy.perform w = (.ok (), w')) := by
  rcases n with ⟨key, t, body, buffer⟩
  cases body with
  | input values => simp [fold, folded?]
  | constant values => simp [fold, folded?]
  | output source => simp [fold, folded?]
  | operation numeric op left right =>
    simp only [fold, folded?, Visit.perform_bind_ok, Visit.perform_relocate_ok,
      Visit.perform_destination_ok, bind_ok, pure_ok]
    constructor
    · intro h
      obtain ⟨left', w₁, ⟨hleft, rfl⟩, right', w₂, ⟨hright, rfl⟩, m, w₃, ⟨hm, rfl⟩, h⟩ := h
      cases hf : m.folded? t op left' right' with
      | none =>
        rw [hf] at h
        exact .inr ⟨⟨left', hleft, right', hright, m, hm, hf⟩, h⟩
      | some values =>
        rw [hf] at h
        obtain ⟨id, w₄, hid, h⟩ := Visit.perform_bind_ok.mp h
        obtain ⟨rfl, rfl⟩ := Visit.perform_drawId_ok.mp hid
        exact .inl ⟨values, ⟨left', hleft, right', hright, m, hm, hf⟩, h⟩
    · rintro (⟨values, ⟨left', hleft, right', hright, m, hm, hf⟩, h⟩ |
        ⟨⟨left', hleft, right', hright, m, hm, hf⟩, h⟩)
      · refine ⟨left', w, ⟨hleft, rfl⟩, right', w, ⟨hright, rfl⟩, m, w, ⟨hm, rfl⟩, ?_⟩
        rw [hf]
        exact Visit.perform_bind_ok.mpr ⟨_, _, Visit.perform_drawId_ok.mpr ⟨rfl, rfl⟩, h⟩
      · refine ⟨left', w, ⟨hleft, rfl⟩, right', w, ⟨hright, rfl⟩, m, w, ⟨hm, rfl⟩, ?_⟩
        rw [hf]
        exact h

end Node

namespace Workspace

/-- The workspace after all visits have succeeded. -/
def Visits (visitor : Node → Visit Unit) (source : Model) :
    List NodeId → Workspace → Workspace → Prop
  | [], w, w' => w' = w
  | id :: rest, w, w' => ∃ n w₁ t, source.node? id = some n ∧
    (visitor n).perform w = (.ok (), w₁) ∧ w₁.transformer.visit id = .ok t ∧
      Visits visitor source rest { w₁ with transformer := t } w'

theorem visitAll_ok (visitor : Node → Visit Unit) (source : Model)
    (step : Node → Unit → Script (Except GraphError Unit × Unit))
    (hstep : ∀ n w, (step n ()).run w =
      ((((visitor n).perform w).1, ()), ((visitor n).perform w).2))
    (ids : List NodeId) (w w' : Workspace) :
    visitAll step source ids () w = (.ok (), (), w') ↔ Visits visitor source ids w w' := by
  induction ids generalizing w with
  | nil => simp [visitAll, Visits, eq_comm]
  | cons id rest ih =>
    simp only [visitAll, Visits]
    cases hn : source.node id with
    | error e =>
      simp only [Prod.mk.injEq, reduceCtorEq, false_and, false_iff]
      intro h
      obtain ⟨n, w₁, t, hsome, -⟩ := h
      rw [Model.node_ok.mpr hsome] at hn
      cases hn
    | ok n =>
      rcases hperform : (visitor n).perform w with ⟨result, w₁⟩
      simp only [hstep, Model.node_ok.mp hn, Option.some.injEq, exists_and_left, exists_eq_left',
        hperform, Prod.mk.injEq]
      -- both a failed visit and a failed mark end the run
      cases result with
      | error e => simp
      | ok u =>
        cases ht : w₁.transformer.visit id with
        | error e => simp [update, ht]
        | ok t => simpa [update, ht] using ih _

end Workspace

/-- A rebuilt model is what is left in the workspace after all visits, if that is valid. -/
theorem Model.rebuild_ok {source m : Model} {visitor : Node → Visit Unit} {s s' : Supply} :
    (source.rebuild visitor).runWith s = (.ok m, s') ↔
      ∃ ids w, source.order = .ok ids ∧
        Workspace.Visits visitor source ids ⟨s, ⟨some {}⟩⟩ w ∧
          w.transformer.destination = .ok m ∧ m.validate = .ok () ∧ s' = w.supply := by
  have hrun : (source.rebuild visitor).runWith s =
      ((Workspace.transform visitor source { supply := s }).1,
        (Workspace.transform visitor source { supply := s }).2.supply) := rfl
  rw [hrun]
  simp only [Workspace.transform, Workspace.transformWith, Transformer.isTransforming,
    Transformer.idle, Option.isSome_none, Bool.false_eq_true, if_false]
  cases ho : source.order with
  | error e => simp
  | ok ids =>
    have hvisits := Workspace.visitAll_ok visitor source (fun n s => (·, s) <$> (visitor n).run)
      (fun n w => (visitor n).run_paired w) ids ⟨s, ⟨some {}⟩⟩
    rcases hall : Workspace.visitAll (fun n s => (·, s) <$> (visitor n).run) source ids ()
      ⟨s, ⟨some {}⟩⟩ with ⟨result, u, w⟩
    rw [hall] at hvisits
    simp only [Except.ok.injEq, hall]
    cases result with
    | error e =>
      simp only [Except.bind, Prod.mk.injEq, reduceCtorEq, false_and, false_iff]
      intro h
      obtain ⟨ids', w', rfl, hw', -⟩ := h
      have hstopped := (hvisits w').mpr hw'
      simp at hstopped
    | ok u' =>
      simp only [Except.bind, Workspace.finish, Prod.mk.injEq, bind_ok, pure_ok]
      constructor
      · intro h
        obtain ⟨⟨m', hm, ⟨⟩, hvalid, rfl⟩, rfl⟩ := h
        exact ⟨ids, w, rfl, (hvisits w).mp rfl, hm, hvalid, rfl⟩
      · intro h
        obtain ⟨ids', w', rfl, hw', hm, hvalid, rfl⟩ := h
        -- a run has one outcome
        obtain rfl : w = w' := (Prod.mk.inj (Prod.mk.inj ((hvisits w').mpr hw')).2).2
        exact ⟨⟨m, hm, (), hvalid, rfl⟩, rfl⟩

end FlowGraph
