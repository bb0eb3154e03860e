import FlowGraph.Proofs.Pruning
import FlowGraph.Proofs.Running

/-! Passes one after the other: each gives a model that can take the place of the one before. -/
namespace FlowGraph

theorem Node.KeptOrFolded.insert {place : NodeId → NodeId} {m : Model} {k n n' : Node}
    (h : n.KeptOrFolded place m n') : n.KeptOrFolded place (m.insert k) n' := by
  rcases h with hcopy | hfolds
  · exact .inl hcopy
  · exact .inr hfolds.insert

namespace Model

/-- The `live` nodes of `m`, all output nodes among them, are carried over in their order, and are
all that there is in `r`. -/
structure CarriedLive (place : NodeId → NodeId) (live : NodeId → Bool) (m r : Model)
    (pairs : List (Node × Node)) : Prop extends CarriedPart place m r pairs where
  carried : ∃ ids, m.order = .ok ids ∧ (pairs.map fun p => p.1.id) = ids.filter live
  order_result : r.order = .ok r.ids
  allocatable_result : r.Allocatable
  outputs_live : ∀ n ∈ m.nodes, n.isOutput = true → live n.id = true

end Model

/-- A pass succeeds, and carries over some of the nodes with all that they depend on. -/
theorem Pass.run_carries (p : Pass) {m : Model} (hwf : m.WellFormed) (ha : m.Allocatable)
    (s : Supply) :
    ∃ (place : NodeId → NodeId) (live : NodeId → Bool) (pairs : List (Node × Node)) (r : Model)
        (s' : Supply), (p.run m).runWith s = (.ok r, s') ∧
      Model.CarriedLive place live m r pairs := by
  obtain ⟨ids, ho⟩ := hwf.ordered
  cases p with
  | identity =>
    obtain ⟨pairs, r, hrun, hpairs, -, horder, halloc, hpart, -⟩ :=
      Model.rebuild_copies hwf ha ho (fun _ => true) (fun _ _ _ _ _ => rfl) s
    simp only [if_true] at hrun
    exact ⟨_, _, pairs, r, _, hrun,
      { hpart with
        carried := ⟨ids, ho, hpairs.symm⟩
        order_result := horder
        allocatable_result := halloc
        outputs_live := fun _ _ _ => rfl }⟩
  | prune =>
    obtain ⟨place, live, pairs, r, hrun, hlive, hpairs, horder, halloc, hpart, -⟩ :=
      hwf.prune_copies ha ho s
    exact ⟨place, live, pairs, r, _, hrun,
      { hpart with
        carried := ⟨ids, ho, hpairs⟩
        order_result := horder
        allocatable_result := halloc
        outputs_live := fun n hn hout => (hlive n.id).mpr (.of_output hn hout) }⟩
  | foldConstants =>
    obtain ⟨pairs, r, hrun, hcarried, halloc, -⟩ :=
      hwf.rebuild_carriedOver ha ho s (Node.carries_fold _) (fun _ _ _ _ h => h.insert)
        fun _ _ _ h => h
    have hids : ids = pairs.map fun p => p.1.id := Except.ok.inj (ho.symm.trans hcarried.order)
    -- every node is carried over here, so the part is the whole
    exact ⟨_, fun _ => true, pairs, r, _, hrun,
      { hcarried.part with
        carried := ⟨ids, ho, by rw [← hids, List.filter_true]⟩
        order_result := hcarried.order_result
        allocatable_result := halloc
        outputs_live := fun _ _ _ => rfl }⟩

namespace Model

variable {m m₁ r : Model} {place place₁ : NodeId → NodeId} {live live₁ : NodeId → Bool}

/-- Nodes at the places of `live` input nodes are fed what these are. -/
def FedThrough (place : NodeId → NodeId) (live : NodeId → Bool) (m : Model) (a b : Feed) : Prop :=
  ∀ n ∈ m.nodes, n.isInput = true → live n.id = true → b (place n.id) n.type = a n.id n.type

/-- The model `r` can take the place of `m`. It is not larger, its output nodes stand for those of
`m` and its input nodes for those that are `live`, position by position; and fed the same values,
its output nodes mean the same, and it can be computed if `m` can. -/
structure Replaces (place : NodeId → NodeId) (live : NodeId → Bool) (m r : Model) : Prop where
  wellFormed : m.WellFormed
  wellFormed_result : r.WellFormed
  size_le : r.size ≤ m.size
  inputs : ∀ {ids}, m.inputs = .ok ids → r.inputs = .ok ((ids.filter live).map place)
  outputs : ∀ {ids}, m.outputs = .ok ids → r.outputs = .ok (ids.map place)
  stands : ∀ n ∈ m.nodes, n.isInput = true ∧ live n.id = true ∨ n.isOutput = true →
    ∃ n' ∈ r.nodes, n'.id = place n.id ∧ n'.type = n.type ∧ n'.size = n.size ∧
      n'.isInput = n.isInput ∧ n'.isOutput = n.isOutput
  accepts : ∀ {a b}, m.Accepts a → m.FedThrough place live a b → r.Accepts b
  means : ∀ {a b}, m.Accepts a → m.FedThrough place live a b → ∀ n ∈ m.nodes, n.isOutput = true →
    ∀ t, (r.feed b).reference t (place n.id) = (m.feed a).reference t n.id
  computes : ∀ {a b}, m.Accepts a → m.FedThrough place live a b →
    (m.feed a).compute.1 = .ok () → (r.feed b).compute.1 = .ok ()

theorem feed_congr {a b : Feed}
    (h : ∀ n ∈ m.nodes, n.isInput = true → b n.id n.type = a n.id n.type) : m.feed b = m.feed a :=
  congrArg Model.mk (List.map_congr_left fun n hn => Node.feed_congr (h n hn))

namespace Replaces

/-- Input nodes have different places, so that they can be told apart by these. -/
theorem place_inj (h : Replaces place live m r) {n k : Node} (hn : n ∈ m.nodes) (hk : k ∈ m.nodes)
    (hinput : n.isInput = true ∧ live n.id = true) (hinput' : k.isInput = true ∧ live k.id = true)
    (hplace : place n.id = place k.id) : n = k := by
  obtain ⟨ids, ho⟩ := h.wellFormed.ordered
  obtain ⟨ids', ho'⟩ := h.wellFormed_result.ordered
  have hinputs := h.inputs (inputs_of_order ho)
  have hnodup : ((ids.filter fun id => (m.node? id).any Node.isInput).filter live |>.map
      place).Nodup := by
    rw [← Except.ok.inj ((inputs_of_order ho').symm.trans hinputs)]
    exact ((order_perm ho').nodup_iff.mpr h.wellFormed_result.distinct).filter _
  have hmem : ∀ n ∈ m.nodes, n.isInput = true ∧ live n.id = true →
      n.id ∈ (ids.filter fun id => (m.node? id).any Node.isInput).filter live := by
    intro n hn hlive
    refine List.mem_filter.mpr ⟨?_, hlive.2⟩
    exact (mem_filter_order h.wellFormed.distinct ho).mpr ⟨n, hn, hlive.1, rfl⟩
  have hid := List.inj_on_of_nodup_map hnodup (hmem n hn hinput) (hmem k hk hinput') hplace
  exact List.inj_on_of_nodup_map h.wellFormed.distinct hn hk hid

/-- Every input node of the result stands for one of the source. -/
theorem exists_input (h : Replaces place live m r) {n' : Node} (hn' : n' ∈ r.nodes)
    (hinput : n'.isInput = true) :
    ∃ n ∈ m.nodes, n.isInput = true ∧ live n.id = true ∧ n'.id = place n.id ∧ n'.type = n.type := by
  obtain ⟨ids, ho⟩ := h.wellFormed.ordered
  have hinputs := inputs_of_order ho
  have hmem := (mem_inputs h.wellFormed_result.distinct (h.inputs hinputs)).mpr
    ⟨n', hn', hinput, rfl⟩
  obtain ⟨id, hid, hplace⟩ := List.mem_map.mp hmem
  obtain ⟨hid, hlive⟩ := List.mem_filter.mp hid
  obtain ⟨n, hn, hsource, rfl⟩ := (mem_inputs h.wellFormed.distinct hinputs).mp hid
  obtain ⟨k, hk, hkid, htype, -⟩ := h.stands n hn (.inl ⟨hsource, hlive⟩)
  -- only one node of the result is in that place
  obtain rfl : k = n' :=
    List.inj_on_of_nodup_map h.wellFormed_result.distinct hk hn' (hkid.trans hplace)
  exact ⟨n, hn, hsource, hlive, hkid, htype⟩

/-- Whatever the input nodes are fed, those that stand for them can be fed the same. -/
theorem exists_feed (h : Replaces place live m r) (a : Feed) :
    ∃ b, m.FedThrough place live a b := by
  -- under a new id, what the node that has it now was fed under its own
  refine ⟨fun id t => (m.nodes.find? fun n => n.isInput && live n.id && place n.id = id).elim []
    fun n => a n.id t, fun n hn hinput hlive => ?_⟩
  have hfound : (m.nodes.find? fun k => k.isInput && live k.id && place k.id = place n.id) =
      some n := by
    cases hfind : m.nodes.find? fun k => k.isInput && live k.id && place k.id = place n.id with
    | none =>
      have hnone := List.find?_eq_none.mp hfind n hn
      simp [hinput, hlive] at hnone
    | some k =>
      have hk := List.find?_some hfind
      simp only [Bool.and_eq_true, decide_eq_true_eq] at hk
      exact congrArg some (h.place_inj (List.mem_of_find?_eq_some hfind) hn hk.1
        ⟨hinput, hlive⟩ hk.2)
  simp only [hfound, Option.elim_some]

/-- A model can take its own place. -/
theorem refl (h : m.WellFormed) : Replaces id (fun _ => true) m m where
  wellFormed := h
  wellFormed_result := h
  size_le := Nat.le_refl _
  inputs hinputs := by rw [hinputs, List.filter_true, List.map_id]
  outputs houtputs := by rw [houtputs, List.map_id]
  stands n hn _ := ⟨n, hn, rfl, rfl, rfl, rfl, rfl⟩
  accepts haccepts hfed n hn hinput := by
    have hsame := hfed n hn hinput rfl
    rw [id_eq] at hsame
    rw [hsame]
    exact haccepts n hn hinput
  means haccepts hfed n hn _ t := by
    rw [feed_congr fun n hn hinput => hfed n hn hinput rfl, id_eq]
  computes haccepts hfed hcompute := by
    rwa [feed_congr fun n hn hinput => hfed n hn hinput rfl]

/-- What takes the place of a model that takes the place of `m` can take the place of `m`. -/
theorem trans (h : Replaces place live m m₁) (h₁ : Replaces place₁ live₁ m₁ r) :
    Replaces (fun id => place₁ (place id)) (fun id => live id && live₁ (place id)) m r := by
  -- the feed of the model in between goes through both steps
  have hsplit : ∀ {a b}, m.FedThrough (fun id => place₁ (place id))
      (fun id => live id && live₁ (place id)) a b →
        ∃ c, m.FedThrough place live a c ∧ m₁.FedThrough place₁ live₁ c b := by
    intro a b hfed
    obtain ⟨c, hc⟩ := h.exists_feed a
    refine ⟨c, hc, fun n₁ hn₁ hinput hlive => ?_⟩
    obtain ⟨n, hn, hsource, hkept, hid, htype⟩ := h.exists_input hn₁ hinput
    rw [hid] at hlive ⊢
    rw [htype, hc n hn hsource hkept]
    exact hfed n hn hsource (Bool.and_eq_true_iff.mpr ⟨hkept, hlive⟩)
  exact
    { wellFormed := h.wellFormed
      wellFormed_result := h₁.wellFormed_result
      size_le := h₁.size_le.trans h.size_le
      inputs := fun hinputs => by
        rw [h₁.inputs (h.inputs hinputs), List.filter_map, List.map_map, List.filter_filter]
        simp only [Function.comp_def, Bool.and_comm]
      outputs := fun houtputs => by
        rw [h₁.outputs (h.outputs houtputs), List.map_map]
        rfl
      stands := fun n hn hmarked => by
        have hmarked₁ : n.isInput = true ∧ live n.id = true ∨ n.isOutput = true :=
          hmarked.imp_left fun hlive => ⟨hlive.1, (Bool.and_eq_true_iff.mp hlive.2).1⟩
        obtain ⟨n₁, hn₁, hid, htype, hsize, hinput, houtput⟩ := h.stands n hn hmarked₁
        have hmarked₂ : n₁.isInput = true ∧ live₁ n₁.id = true ∨ n₁.isOutput = true := by
          rw [hinput, houtput, hid]
          exact hmarked.imp_left fun hlive => ⟨hlive.1, (Bool.and_eq_true_iff.mp hlive.2).2⟩
        obtain ⟨n', hn', hid', htype', hsize', hinput', houtput'⟩ := h₁.stands n₁ hn₁ hmarked₂
        exact ⟨n', hn', hid'.trans (congrArg place₁ hid), htype'.trans htype, hsize'.trans hsize,
          hinput'.trans hinput, houtput'.trans houtput⟩
      accepts := fun haccepts hfed => by
        obtain ⟨c, hc, hcb⟩ := hsplit hfed
        exact h₁.accepts (h.accepts haccepts hc) hcb
      means := fun haccepts hfed n hn houtput t => by
        obtain ⟨c, hc, hcb⟩ := hsplit hfed
        obtain ⟨n₁, hn₁, hid, -, -, -, hout⟩ := h.stands n hn (.inr houtput)
        rw [← h.means haccepts hc n hn houtput t, ← hid]
        exact h₁.means (h.accepts haccepts hc) hcb n₁ hn₁ (hout.trans houtput) t
      computes := fun haccepts hfed hcompute => by
        obtain ⟨c, hc, hcb⟩ := hsplit hfed
        exact h₁.computes (h.accepts haccepts hc) hcb (h.computes haccepts hc hcompute) }

end Replaces

/-- What a pass carries over can take the place of its source. -/
theorem CarriedLive.replaces {pairs : List (Node × Node)} (h : CarriedLive place live m r pairs)
    (ha : m.Allocatable) : Replaces place live m r := by
  obtain ⟨ids, ho, hpairs⟩ := h.carried
  have hd := h.wellFormed.distinct
  have hmem : ∀ n ∈ m.nodes, live n.id = true → ∃ n', (n, n') ∈ pairs := by
    intro n hn hlive
    have hid : n.id ∈ pairs.map fun p => p.1.id := by
      rw [hpairs, List.mem_filter, (order_perm ho).mem_iff]
      exact ⟨mem_ids.mpr ⟨n, hn, rfl⟩, hlive⟩
    obtain ⟨⟨k, n'⟩, hp, hself⟩ := List.mem_map.mp hid
    obtain rfl := List.inj_on_of_nodup_map hd (h.source _ hp) hn hself
    exact ⟨n', hp⟩
  have hfedAlike : ∀ {a b}, m.FedThrough place live a b → FedAlike pairs a b := by
    intro a b hfed p hp hinput
    have hid : p.1.id ∈ ids.filter live := by
      rw [← hpairs]
      exact List.mem_map_of_mem hp
    rw [(h.stands p hp).1]
    exact hfed p.1 (h.source p hp) hinput (List.mem_filter.mp hid).2
  obtain ⟨hinputs, houtputs⟩ := h.marks_eq h.order_result
  rw [hpairs, List.filter_filter] at hinputs houtputs
  exact
    { wellFormed := h.wellFormed
      wellFormed_result := h.wellFormed_result
      size_le := by
        have hids := congrArg List.length hpairs
        rw [List.length_map] at hids
        rw [size, h.nodes, List.length_map, hids, ← length_order ho]
        exact List.length_filter_le _ _
      inputs := fun hsource => by
        obtain rfl := Except.ok.inj ((inputs_of_order ho).symm.trans hsource)
        rw [hinputs, List.filter_filter]
        simp only [Bool.and_comm]
      outputs := fun hsource => by
        obtain rfl := Except.ok.inj ((outputs_of_order ho).symm.trans hsource)
        have hall := List.filter_eq_self.mpr fun id hid => by
          obtain ⟨n, hn, hout, rfl⟩ := (mem_filter_order hd ho).mp hid
          exact h.outputs_live n hn hout
        rw [List.filter_filter] at hall
        simp only [houtputs, Bool.and_comm, hall]
      stands := fun n hn hmarked => by
        obtain ⟨n', hp⟩ := hmem n hn (hmarked.elim And.right (h.outputs_live n hn))
        obtain ⟨hid, htype, hsize⟩ := h.stands _ hp
        obtain ⟨hinput, houtput⟩ := h.isInput_eq hp
        exact ⟨n', h.mem_result hp, hid, htype, hsize, hinput, houtput⟩
      accepts := fun haccepts hfed => h.accepts haccepts (hfedAlike hfed)
      means := fun haccepts hfed n hn houtput t => by
        obtain ⟨n', hp⟩ := hmem n hn (h.outputs_live n hn houtput)
        rw [← (h.stands _ hp).1]
        exact h.reference_eq haccepts (hfedAlike hfed) hp t
      computes := fun {a b} haccepts hfed hcompute => by
        rcases hsource : (m.feed a).compute with ⟨result, m₁⟩
        rw [hsource] at hcompute
        obtain rfl : result = .ok () := hcompute
        obtain ⟨r₁, hrun, -⟩ :=
          h.compute_of_source ha h.allocatable_result haccepts (hfedAlike hfed) hsource
        rw [hrun] }

end Model

/-- One pass. -/
theorem Pass.run_replaces (p : Pass) {m : Model} (hwf : m.WellFormed) (ha : m.Allocatable)
    (s : Supply) :
    ∃ place live r s', (p.run m).runWith s = (.ok r, s') ∧ r.Allocatable ∧
      Model.Replaces place live m r := by
  obtain ⟨place, live, pairs, r, s', hrun, hlive⟩ := p.run_carries hwf ha s
  exact ⟨place, live, r, s', hrun, hlive.allocatable_result, hlive.replaces ha⟩

/-- The run, by induction on the passes. -/
theorem Pass.runAll_replaces (passes : List Pass) {m : Model} (hwf : m.WellFormed)
    (ha : m.Allocatable) (s : Supply) :
    ∃ place live r s', (Pass.runAll passes m).runWith s = (.ok r, s') ∧ r.Allocatable ∧
      Model.Replaces place live m r := by
  induction passes generalizing m s with
  | nil =>
    exact ⟨id, fun _ => true, m, s, Drawing.runWith_pure_ok.mpr ⟨rfl, rfl⟩, ha, .refl hwf⟩
  | cons p rest ih =>
    obtain ⟨place, live, m₁, s₁, hpass, halloc, hfirst⟩ := p.run_replaces hwf ha s
    obtain ⟨place₁, live₁, r, s', hrest, hralloc, hlast⟩ := ih hfirst.wellFormed_result halloc s₁
    refine ⟨_, _, r, s', ?_, hralloc, hfirst.trans hlast⟩
    rw [runAll, List.foldlM_cons]
    exact Drawing.runWith_bind_ok.mpr ⟨m₁, s₁, hpass, hrest⟩

/-- Any passes in any order succeed, none of them leaves more nodes than it has found, and the last
model can take the place of the first. Its output nodes are those of the first, position by position
and of the same types and sizes, and mean the same whatever the input nodes are fed that are left;
and it can be computed whenever the first can. -/
theorem Reachable.runAll_preserves {s₀ : Supply} {m : Model} (h : Reachable s₀ m)
    (ha : m.Allocatable) (passes : List Pass) (s : Supply) :
    ∃ (place : NodeId → NodeId) (live : NodeId → Bool) (r : Model) (s' : Supply)
        (inputs outputs : List NodeId),
      (Pass.runAll passes m).runWith s = (.ok r, s') ∧
      (∀ (codecs : Archive.Codecs) (w : Tool.World), ∃ printed,
        (Tool.runPasses (Tool.World.host codecs) m passes).runIn s w =
          (.ok r, s', { w with printed })) ∧
      (∀ before p after, passes = before ++ p :: after → ∃ m₁ s₁ m₂ s₂,
        (Pass.runAll before m).runWith s = (.ok m₁, s₁) ∧
          (p.run m₁).runWith s₁ = (.ok m₂, s₂) ∧ m₂.size ≤ m₁.size) ∧
      m.inputs = .ok inputs ∧ r.inputs = .ok ((inputs.filter live).map place) ∧
      m.outputs = .ok outputs ∧ r.outputs = .ok (outputs.map place) ∧
      (∀ id ∈ outputs, ∃ n n', m.node? id = some n ∧ r.node? (place id) = some n' ∧
        n'.type = n.type ∧ n'.size = n.size) ∧
      (∀ a, ∃ b, m.FedThrough place live a b) ∧
      ∀ a b, m.Accepts a → m.FedThrough place live a b → r.Accepts b ∧
        (∀ id ∈ outputs, ∀ t, (r.feed b).reference t (place id) = (m.feed a).reference t id) ∧
        ((m.feed a).compute.1 = .ok () → (r.feed b).compute.1 = .ok ()) := by
  obtain ⟨hwf, -⟩ := h.wellFormed
  obtain ⟨ids, ho⟩ := hwf.ordered
  obtain ⟨place, live, r, s', hrun, -, hreplaces⟩ := Pass.runAll_replaces passes hwf ha s
  have hinputs := Model.inputs_of_order ho
  have houtputs := Model.outputs_of_order ho
  refine ⟨place, live, r, s', _, _, hrun, fun codecs w => Tool.runPasses_of hrun,
    fun before p after _ => ?_, hinputs, hreplaces.inputs hinputs, houtputs,
    hreplaces.outputs houtputs, fun id hid => ?_, hreplaces.exists_feed, fun a b haccepts hfed =>
    ⟨hreplaces.accepts haccepts hfed, fun id hid t => ?_, hreplaces.computes haccepts hfed⟩⟩
  · -- the passes before it leave a model that it can run on
    obtain ⟨_, _, m₁, s₁, hbefore, halloc, hfirst⟩ := Pass.runAll_replaces before hwf ha s
    obtain ⟨_, _, m₂, s₂, hpass, -, hstep⟩ := p.run_replaces hfirst.wellFormed_result halloc s₁
    exact ⟨m₁, s₁, m₂, s₂, hbefore, hpass, hstep.size_le⟩
  · obtain ⟨n, hn, hout, rfl⟩ := (Model.mem_outputs hwf.distinct houtputs).mp hid
    obtain ⟨n', hn', hid', htype, hsize, -⟩ := hreplaces.stands n hn (.inr hout)
    refine ⟨n, n', Model.node?_of_mem hwf.distinct hn, ?_, htype, hsize⟩
    rw [← hid', Model.node?_of_mem hreplaces.wellFormed_result.distinct hn']
  · obtain ⟨n, hn, hout, rfl⟩ := (Model.mem_outputs hwf.distinct houtputs).mp hid
    exact hreplaces.means haccepts hfed n hn hout t

theorem runAll_preserves_unusedModel :
    Reachable ⟨4⟩ unusedModel ∧ unusedModel.Allocatable ∧
      ∃ (place : NodeId → NodeId) (r : Model) (s' : Supply),
        (Pass.runAll [.foldConstants, .prune, .identity] unusedModel).runWith ⟨4⟩ = (.ok r, s') ∧
          unusedModel.outputs = .ok [⟨4⟩] ∧ r.outputs = .ok [place ⟨4⟩] := by
  have hallocatable : unusedModel.Allocatable := by decide
  obtain ⟨place, _, r, s', inputs, outputs, hrun, -, -, -, -, houtputs, hmarked, -⟩ :=
    unusedModel_reachable.runAll_preserves hallocatable [.foldConstants, .prune, .identity] ⟨4⟩
  obtain rfl : outputs = [⟨4⟩] := (Except.ok.inj houtputs).symm
  exact ⟨unusedModel_reachable, hallocatable, place, r, s', hrun, houtputs, hmarked⟩

end FlowGraph
