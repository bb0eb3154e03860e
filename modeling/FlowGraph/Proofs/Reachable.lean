import FlowGraph.Proofs.Loading
import FlowGraph.Proofs.Rebuffering
import FlowGraph.Proofs.Visiting

/-! The models that a program can get hold of. All of them are well formed, and all their ids were
drawn from one supply. -/
namespace FlowGraph

/-- Nodes as their constructors make them, under an id that was drawn; input nodes may have been
given values since. -/
inductive Node.Constructed (s : Supply) : Node → Prop
  | input {id : NodeId} (h : s.Issued id) (t : ElementType) (dimension : Nat) :
    Constructed s (.input id t dimension)
  | constant {id : NodeId} (h : s.Issued id) (t : ElementType) (values : List t.Value) :
    Constructed s (.constant id t values)
  | output {id : NodeId} (h : s.Issued id) (t : ElementType) (source : Selection) :
    Constructed s (.output id t source)
  | operation {id : NodeId} {t : ElementType} {numeric : t.isNumeric = true} {op : Operation}
    {left right : Selection} {n : Node} (h : s.Issued id)
    (hn : Node.operation id t numeric op left right = .ok n) : Constructed s n
  | setInput {n n' : Node} {values : List n.type.Value} (h : Constructed s n)
    (hn : n.setInput values = .ok n') : Constructed s n'

/-- Models that are built node by node, loaded, or made by a pass, between which ids may be drawn,
inputs set and nodes computed. -/
inductive Reachable : Supply → Model → Prop
  | empty (s : Supply) : Reachable s .empty
  | wait {s s' : Supply} {m : Model} (h : Reachable s m) (hle : s.drawn ≤ s'.drawn) :
    Reachable s' m
  | add {s : Supply} {m m' : Model} {n : Node} (h : Reachable s m) (hn : n.Constructed s)
    (hadd : m.add n = .ok m') : Reachable s m'
  | load {s s' : Supply} {a : Archive} {m : Model}
    (h : (Registry.builtin.load a).runWith s = (.ok m, s')) : Reachable s' m
  | pass {s s' : Supply} {m m' : Model} {p : Pass} (h : Reachable s m)
    (hrun : (p.run m).runWith s = (.ok m', s')) : Reachable s' m'
  | setInput {s : Supply} {m : Model} {n n' : Node} {values : List n.type.Value}
    (h : Reachable s m) (hn : n ∈ m.nodes) (hset : n.setInput values = .ok n') :
    Reachable s (m.replace n')
  | compute {s : Supply} {m : Model} (h : Reachable s m) : Reachable s m.compute.2
  | computeSelection {s : Supply} {m : Model} (h : Reachable s m) (t : ElementType)
    (e : Selection) : Reachable s (m.computeSelection t e).2

/-- Models that are built node by node. -/
theorem Reachable.addAll {s : Supply} {nodes : List Node} {m m' : Model} (h : Reachable s m)
    (hn : ∀ n ∈ nodes, n.Constructed s) (hadd : nodes.foldlM Model.add m = .ok m') :
    Reachable s m' := by
  induction nodes generalizing m with
  | nil =>
    obtain rfl := pure_ok.mp hadd
    exact h
  | cons n rest ih =>
    obtain ⟨next, hnext, hrest⟩ := bind_ok.mp hadd
    exact ih (h.add (hn n List.mem_cons_self) hnext) (fun k hk => hn k (List.mem_cons_of_mem _ hk))
      hrest

namespace Node

theorem setInput_ok {n n' : Node} {values : List n.type.Value} (h : n.setInput values = .ok n') :
    n.SameShape n' ∧ n'.Sized := by
  rcases n with ⟨id, t, body, buffer⟩
  cases body with
  | input given =>
    simp only [setInput] at h
    split at h
    case isTrue hlength =>
      obtain rfl := Except.ok.inj h
      exact ⟨⟨rfl, rfl, rfl, rfl⟩, hlength⟩
    case isFalse => cases h
  | _ => cases h

/-- Setting an input from texts is setting it to the values that they stand for. -/
theorem setInputTexts_ok {n n' : Node} {texts : List String} (h : n.setInputTexts texts = .ok n') :
    ∃ values, texts.mapM n.type.parse = .ok values ∧ n.setInput values = .ok n' := by
  unfold setInputTexts at h
  split at h
  case isFalse => cases h
  case isTrue =>
    split at h
    case h_1 values hvalues => exact ⟨values, hvalues, h⟩
    case h_2 => cases h

theorem Constructed.sized {s : Supply} {n : Node} (h : n.Constructed s) :
    n.Sized ∧ s.Issued n.id := by
  induction h with
  | input hid t dimension => exact ⟨rfl, hid⟩
  | constant hid t values => exact ⟨List.length_replicate.symm, hid⟩
  | output hid t source => exact ⟨List.length_replicate.symm, hid⟩
  | operation hid hn =>
    obtain ⟨rfl, hsized⟩ := Node.operation_ok hn
    exact ⟨hsized, hid⟩
  | setInput _ hn ih =>
    obtain ⟨hshape, hsized⟩ := setInput_ok hn
    exact ⟨hsized, by rw [hshape.id]; exact ih.2⟩

end Node

/-- What a step from node to node keeps: the destination is well formed, under drawn ids. -/
def Workspace.Sound (w : Workspace) : Prop :=
  ∃ c, w.transformer.context = some c ∧ c.destination.WellFormed ∧
    ∀ id ∈ c.destination.ids, w.supply.Issued id

/-- A visit that gives an outlet at most one node, with sizes that agree and under the next id. -/
def Visit.Puts (v : Visit Unit) : Prop :=
  ∀ w w', v.perform w = (.ok (), w') → w' = w ∨ ∃ old n, n.id = NodeId.nth w.supply.drawn ∧
    n.Sized ∧ (Visit.substitute old n).perform { w with supply := w.supply.draw.2 } = (.ok (), w')

theorem Visit.puts_pure : Visit.Puts (pure ()) :=
  fun _ _ h => .inl (Visit.perform_pure_ok.mp h).2

theorem Node.puts_copy (n : Node) : n.copy.Puts := by
  intro w w' h
  obtain ⟨n', hn', hput⟩ := Node.copy_ok.mp h
  obtain ⟨hid, hsized⟩ := Node.copied?_ok hn'
  exact .inr ⟨_, n', hid, hsized, hput⟩

theorem Node.puts_fold (n : Node) : n.fold.Puts := by
  intro w w' h
  rcases Node.fold_ok.mp h with ⟨values, -, hput⟩ | ⟨-, hcopy⟩
  · have hsized : (constant (NodeId.nth w.supply.drawn) n.type values).Sized :=
      List.length_replicate.symm
    exact .inr ⟨_, _, rfl, hsized, hput⟩
  · exact n.puts_copy w w' hcopy

namespace Workspace

theorem Sound.step {w w' : Workspace} {v : Visit Unit} (h : w.Sound) (hv : v.Puts)
    (hrun : v.perform w = (.ok (), w')) : w'.Sound := by
  rcases hv w w' hrun with rfl | ⟨old, n, hid, hsized, hput⟩
  · exact h
  · obtain ⟨c, hc, hwf, hissued⟩ := h
    -- the visit begins with an id of its own, in the context as it was
    have hw : { w with supply := w.supply.draw.2 } = (⟨w.supply.draw.2, ⟨some c⟩⟩ : Workspace) := by
      rw [← hc]
    rw [hw] at hput
    obtain ⟨hfresh, hspans, -, -, rfl⟩ := Transformer.substitute_ok.mp hput
    refine ⟨_, rfl, Model.wellFormed_insert hwf hsized hfresh hspans, fun id hmem => ?_⟩
    simp only [Transformer.Context.extend, Model.ids_insert, List.mem_append,
      List.mem_singleton] at hmem
    rcases hmem with hmem | rfl
    · exact (hissued id hmem).mono (Nat.le_succ _)
    · rw [hid]
      exact w.supply.issued_draw

/-- By induction on the nodes still to be visited. -/
theorem Sound.visits {visitor : Node → Visit Unit} (hv : ∀ n, (visitor n).Puts) {source : Model}
    {ids : List NodeId} {w w' : Workspace} (h : w.Sound) (hrun : Visits visitor source ids w w') :
    w'.Sound := by
  induction ids generalizing w with
  | nil =>
    obtain rfl : w' = w := hrun
    exact h
  | cons id rest ih =>
    obtain ⟨n, w₁, t, -, hperform, hvisit, hrest⟩ := hrun
    obtain ⟨c, hc, hwf, hissued⟩ := h.step (hv n) hperform
    -- marking a node as visited leaves the destination alone
    simp only [Transformer.visit, Transformer.running, hc, Option.elim, bind_ok, pure_ok,
      Except.ok.injEq, exists_eq_left'] at hvisit
    have hsound : Sound { w₁ with transformer := t } := by
      rw [← hvisit]
      exact ⟨_, rfl, hwf, hissued⟩
    exact ih hsound hrest

end Workspace

namespace Model

theorem rebuild_wellFormed {source m : Model} {visitor : Node → Visit Unit}
    (hv : ∀ n, (visitor n).Puts) {s s' : Supply}
    (h : (source.rebuild visitor).runWith s = (.ok m, s')) :
    m.WellFormed ∧ ∀ id ∈ m.ids, s'.Issued id := by
  obtain ⟨ids, w, -, hvisits, hm, -, rfl⟩ := rebuild_ok.mp h
  have hstart : Workspace.Sound ⟨s, ⟨some {}⟩⟩ := by
    refine ⟨_, rfl, wellFormed_empty, fun id hid => ?_⟩
    cases hid
  obtain ⟨c, hc, hwf, hissued⟩ := hstart.visits hv hvisits
  simp only [Transformer.destination, Transformer.running, hc, Option.elim, bind_ok, pure_ok,
    Except.ok.injEq, exists_eq_left'] at hm
  rw [← hm]
  exact ⟨hwf, hissued⟩

end Model

theorem Pass.run_wellFormed {p : Pass} {m m' : Model} {s s' : Supply}
    (h : (p.run m).runWith s = (.ok m', s')) : m'.WellFormed ∧ ∀ id ∈ m'.ids, s'.Issued id := by
  cases p with
  | identity => exact Model.rebuild_wellFormed Node.puts_copy h
  | foldConstants => exact Model.rebuild_wellFormed Node.puts_fold h
  | prune =>
    obtain ⟨live, s₁, -, hrebuild⟩ := Drawing.runWith_bind_ok.mp h
    refine Model.rebuild_wellFormed (fun n => ?_) hrebuild
    split
    · exact n.puts_copy
    · exact Visit.puts_pure

/-- The invariant of every program: by induction on what it has done. -/
theorem Reachable.wellFormed {s : Supply} {m : Model} (h : Reachable s m) :
    m.WellFormed ∧ ∀ id ∈ m.ids, s.Issued id := by
  induction h with
  | empty s =>
    refine ⟨Model.wellFormed_empty, fun id hid => ?_⟩
    cases hid
  | wait _ hle ih => exact ⟨ih.1, fun id hid => (ih.2 id hid).mono hle⟩
  | add _ hn hadd ih =>
    obtain ⟨hsized, hissued⟩ := hn.sized
    obtain ⟨hfresh, hspans, rfl⟩ := Model.add_ok.mp hadd
    refine ⟨Model.wellFormed_insert ih.1 hsized hfresh hspans, fun id hid => ?_⟩
    rw [Model.ids_insert, List.mem_append, List.mem_singleton] at hid
    rcases hid with hid | rfl
    · exact ih.2 id hid
    · exact hissued
  | load hload =>
    obtain ⟨hwf, -, hids, rfl⟩ := Registry.load_wellFormed hload
    refine ⟨hwf, fun id hid => ?_⟩
    rw [hids, Supply.mem_next] at hid
    obtain ⟨k, -, hk, rfl⟩ := hid
    exact ⟨k, hk, rfl⟩
  | pass _ hrun _ => exact Pass.run_wellFormed hrun
  | setInput _ hn hset ih =>
    obtain ⟨hshape, hsized⟩ := Node.setInput_ok hset
    have hr := Model.revalues_replace ih.1 hn hshape hsized
    rw [hr.ids]
    exact ⟨hr.wellFormed ih.1, ih.2⟩
  | compute _ ih =>
    have hr := Model.rebuffers_compute ih.1.distinct
    rw [hr.ids]
    exact ⟨hr.wellFormed ih.1, ih.2⟩
  | computeSelection _ t e ih =>
    have hr := Model.rebuffers_computeSelection ih.1.distinct t e
    rw [hr.ids]
    exact ⟨hr.wellFormed ih.1, ih.2⟩

end FlowGraph
