import FlowGraph.Proofs.Ancestors
import FlowGraph.Proofs.Copying

/-! Pruning keeps the output nodes and all that they depend on, and what these mean. -/
namespace FlowGraph

namespace Model

/-- The node is an output node, or one depends on it. -/
def Live (m : Model) (id : NodeId) : Prop :=
  ∃ n ∈ m.nodes, n.isOutput = true ∧ Relation.ReflTransGen m.DependsOn n.id id

/-- What the output nodes need is what is live. -/
theorem needs_outputs {m : Model} (hd : m.ids.Nodup) {outputs : List NodeId}
    (h : m.outputs = .ok outputs) {id : NodeId} : m.Needs outputs id ↔ m.Live id := by
  constructor
  · rintro ⟨root, hroot, hpath⟩
    obtain ⟨n, hn, hout, rfl⟩ := (mem_outputs hd h).mp hroot
    exact ⟨n, hn, hout, hpath⟩
  · rintro ⟨n, hn, hout, hpath⟩
    exact ⟨n.id, (mem_outputs hd h).mpr ⟨n, hn, hout, rfl⟩, hpath⟩

/-- The search that pruning begins with finds exactly what is live. -/
theorem WellFormed.ancestors_outputs {m : Model} (hwf : m.WellFormed) {outputs : List NodeId}
    (h : m.outputs = .ok outputs) :
    ∃ found, m.ancestors outputs = .ok found ∧ ∀ id, id ∈ found ↔ m.Live id := by
  have hroots : outputs ⊆ m.ids := by
    intro id hid
    obtain ⟨n, hn, -, rfl⟩ := (mem_outputs hwf.distinct h).mp hid
    exact mem_ids.mpr ⟨n, hn, rfl⟩
  obtain ⟨found, hfound, hneeds⟩ := hwf.ancestors_eq hroots
  exact ⟨found, hfound, fun id => (hneeds id).trans (needs_outputs hwf.distinct h)⟩

theorem Live.step {m : Model} {n : Node} (hn : n ∈ m.nodes) (h : m.Live n.id) {d : NodeId}
    (hd : d ∈ n.dependencies) : m.Live d := by
  obtain ⟨root, hroot, hout, hpath⟩ := h
  exact ⟨root, hroot, hout, hpath.tail ⟨n, hn, rfl, hd⟩⟩

theorem Live.of_output {m : Model} {n : Node} (hn : n ∈ m.nodes) (hout : n.isOutput = true) :
    m.Live n.id :=
  ⟨n, hn, hout, .refl⟩

namespace CarriedPart

variable {place : NodeId → NodeId} {m r : Model} {pairs : List (Node × Node)}

/-- The part computes to what its sources mean, or one of these means nothing. -/
theorem compute_cases (h : CarriedPart place m r pairs) (hr : r.Allocatable) {a b : Feed}
    (ha : m.Accepts a) (hfed : FedAlike pairs a b) :
    (∃ r₁, (r.feed b).compute = (.ok (), r₁) ∧
      (∀ p ∈ pairs, ((m.feed a).reference p.1.type p.1.id).isSome) ∧
        ∀ p ∈ pairs, ∀ t, r₁.buffer? t p.2.id = (m.feed a).reference t p.1.id) ∨
    (∃ p ∈ pairs, (m.feed a).reference p.1.type p.1.id = none ∧
      ∃ e r₁, (r.feed b).compute = (.error e, r₁)) := by
  have hwf := (h.accepts ha hfed).wellFormed h.wellFormed_result
  obtain ⟨ids, ho⟩ := h.wellFormed_result.ordered
  rcases hwf.compute_cases (allocatable_feed b hr) (.refl _) (order_feed b ho) with
    ⟨r₁, hrun, hsettled, hdefined⟩ |
      ⟨before, n, after, detail, r₁, -, hn, hrun, -, -, hnone, -, -⟩
  · left
    refine ⟨r₁, hrun, fun p hp => ?_, fun p hp t => ?_⟩
    · -- a node of the result has a value exactly if its source has
      have hsome := hdefined _ (mem_feed (h.mem_result hp))
      rwa [(p.2.sameShape_feed b).type, (p.2.sameShape_feed b).id, (h.stands p hp).2.1,
        h.reference_eq ha hfed hp] at hsome
    · have hid : p.2.id ∈ ids :=
        (order_perm ho).mem_iff.mpr (mem_ids.mpr ⟨p.2, h.mem_result hp, rfl⟩)
      rw [hsettled.2 _ hid, h.reference_eq ha hfed hp]
  · right
    -- the node at which it stopped stands for one of the source
    obtain ⟨k, hk, rfl⟩ := List.mem_map.mp hn
    rw [h.nodes] at hk
    obtain ⟨p, hp, rfl⟩ := List.mem_map.mp hk
    rw [(p.2.sameShape_feed b).type, (p.2.sameShape_feed b).id, (h.stands p hp).2.1,
      h.reference_eq ha hfed hp] at hnone
    exact ⟨p, hp, hnone, _, r₁, hrun⟩

theorem compute_ok (h : CarriedPart place m r pairs) (hr : r.Allocatable) {a b : Feed}
    (ha : m.Accepts a) (hfed : FedAlike pairs a b) :
    (r.feed b).compute.1 = .ok () ↔
      ∀ p ∈ pairs, ((m.feed a).reference p.1.type p.1.id).isSome := by
  rcases h.compute_cases hr ha hfed with ⟨r₁, hrun, hdefined, -⟩ | ⟨p, hp, hnone, e, r₁, hrun⟩
  · rw [hrun]
    exact ⟨fun _ => hdefined, fun _ => rfl⟩
  · rw [hrun]
    constructor
    · intro hok
      cases hok
    · intro hdefined
      have hsome := hdefined p hp
      rw [hnone] at hsome
      cases hsome

theorem compute_buffers (h : CarriedPart place m r pairs) (hr : r.Allocatable) {a b : Feed}
    (ha : m.Accepts a) (hfed : FedAlike pairs a b) {r₁ : Model}
    (hrun : (r.feed b).compute = (.ok (), r₁)) {p : Node × Node} (hp : p ∈ pairs)
    (t : ElementType) : r₁.buffer? t p.2.id = (m.feed a).reference t p.1.id := by
  rcases h.compute_cases hr ha hfed with ⟨r₂, hrun', -, hbuffers⟩ | ⟨q, hq, hnone, e, r₂, hrun'⟩
  · rw [hrun] at hrun'
    obtain rfl := (Prod.mk.inj hrun').2
    exact hbuffers p hp t
  · rw [hrun] at hrun'
    cases hrun'

/-- The part computes whenever the whole source does, and to the same values. -/
theorem compute_of_source (h : CarriedPart place m r pairs) (hm : m.Allocatable)
    (hr : r.Allocatable) {a b : Feed} (ha : m.Accepts a) (hfed : FedAlike pairs a b) {m₁ : Model}
    (hrun : (m.feed a).compute = (.ok (), m₁)) :
    ∃ r₁, (r.feed b).compute = (.ok (), r₁) ∧
      ∀ p ∈ pairs, ∀ t, r₁.buffer? t p.2.id = m₁.buffer? t p.1.id := by
  have hwf := ha.wellFormed h.wellFormed
  obtain ⟨ids, ho⟩ := h.wellFormed.ordered
  rcases hwf.compute_cases (allocatable_feed a hm) (.refl _) (order_feed a ho) with
    ⟨m₂, hrun', hsettled, hdefined⟩ | ⟨before, n, after, detail, m₂, -, -, hrun', -⟩
  · rw [hrun] at hrun'
    obtain rfl := (Prod.mk.inj hrun').2
    -- the source has computed all of its nodes, and so those of the part
    have hall : ∀ p ∈ pairs, ((m.feed a).reference p.1.type p.1.id).isSome := by
      intro p hp
      have hsome := hdefined _ (mem_feed (h.source p hp))
      rwa [(p.1.sameShape_feed a).type, (p.1.sameShape_feed a).id] at hsome
    have hok := (h.compute_ok hr ha hfed).mpr hall
    rcases hpart : (r.feed b).compute with ⟨result, r₁⟩
    rw [hpart] at hok
    obtain rfl : result = .ok () := hok
    refine ⟨r₁, rfl, fun p hp t => ?_⟩
    have hid : p.1.id ∈ ids :=
      (order_perm ho).mem_iff.mpr (mem_ids.mpr ⟨p.1, h.source p hp, rfl⟩)
    rw [hsettled.2 _ hid, h.compute_buffers hr ha hfed hpart hp]
  · rw [hrun] at hrun'
    cases hrun'

end CarriedPart

/-- What pruning builds: the copies of the live nodes, in the order of the source. -/
theorem WellFormed.prune_copies {m : Model} (hwf : m.WellFormed) (ha : m.Allocatable)
    {ids : List NodeId} (ho : m.order = .ok ids) (s : Supply) :
    ∃ (place : NodeId → NodeId) (live : NodeId → Bool) (pairs : List (Node × Node)) (r : Model),
      m.prune.runWith s = (.ok r, ⟨s.drawn + pairs.length⟩) ∧
      (∀ id, live id = true ↔ m.Live id) ∧ (pairs.map fun p => p.1.id) = ids.filter live ∧
      r.order = .ok r.ids ∧ r.Allocatable ∧ CarriedPart place m r pairs ∧
      ∀ p ∈ pairs, p.1.CopiedTo place p.2 := by
  have houtputs := outputs_of_order ho
  -- what the search has found decides what is live, so that it says which nodes are copied
  obtain ⟨found, hfound, hmem⟩ := hwf.ancestors_outputs houtputs
  have hlive : ∀ id, found.contains id = true ↔ m.Live id := by
    intro id
    rw [List.contains_iff_mem, hmem]
  have hclosed : ∀ n ∈ m.nodes, found.contains n.id = true →
      ∀ d ∈ n.dependencies, found.contains d = true := by
    intro n hn hid d hd
    have hstep : m.Live d := ((hlive n.id).mp hid).step hn hd
    exact (hlive d).mpr hstep
  obtain ⟨pairs, r, hrun, hpairs, -, horder, halloc, hpart, hcopied⟩ :=
    rebuild_copies hwf ha ho found.contains hclosed s
  have hlength : (ids.filter found.contains).length = pairs.length := by
    rw [hpairs, List.length_map]
  have hsearch : (do m.ancestors (← m.outputs)) = Except.ok found := by
    rw [houtputs]
    exact hfound
  refine ⟨_, found.contains, pairs, r, ?_, hlive, hpairs.symm, horder, halloc, hpart, hcopied⟩
  rw [← hlength]
  exact Drawing.runWith_bind_ok.mpr
    ⟨found, s, Drawing.runWith_ofExcept_ok.mpr ⟨hsearch, rfl⟩, hrun⟩

end Model

/-- Pruning keeps exactly the live part of a model and its meaning. It succeeds, and its nodes are,
in order, the copies of the output nodes and of all that these depend on, so that nothing is left of
a model without output nodes. Whatever the input nodes are fed, each copy means what its source
does, and the output nodes stand for one another position by position; all is computed exactly if
every source has a value, and always when the whole source can be computed. -/
theorem Reachable.prune_keeps_live {s₀ : Supply} {m : Model} (h : Reachable s₀ m)
    (ha : m.Allocatable) (s : Supply) :
    ∃ (place : NodeId → NodeId) (live : NodeId → Bool) (pairs : List (Node × Node)) (r : Model)
        (ids inputs outputs : List NodeId),
      m.prune.runWith s = (.ok r, ⟨s.drawn + pairs.length⟩) ∧
      (∀ id, live id = true ↔ m.Live id) ∧
      m.order = .ok ids ∧ (pairs.map fun p => p.1.id) = ids.filter live ∧
      r.nodes = pairs.map Prod.snd ∧ r.order = .ok r.ids ∧
      (∀ p ∈ pairs, p.1 ∈ m.nodes ∧ p.1.CopiedTo place p.2) ∧
      m.inputs = .ok inputs ∧ r.inputs = .ok ((inputs.filter live).map place) ∧
      m.outputs = .ok outputs ∧ r.outputs = .ok (outputs.map place) ∧
      (outputs = [] → r = .empty) ∧
      ∀ a b, m.Accepts a → Model.FedAlike pairs a b → r.Accepts b ∧
        (∀ p ∈ pairs, ∀ t, (r.feed b).reference t p.2.id = (m.feed a).reference t p.1.id) ∧
        (∀ id ∈ outputs, ∀ t, (r.feed b).reference t (place id) = (m.feed a).reference t id) ∧
        ((r.feed b).compute.1 = .ok () ↔
          ∀ p ∈ pairs, ((m.feed a).reference p.1.type p.1.id).isSome) ∧
        (∀ r₁, (r.feed b).compute = (.ok (), r₁) →
          ∀ p ∈ pairs, ∀ t, r₁.buffer? t p.2.id = (m.feed a).reference t p.1.id) ∧
        ∀ m₁, (m.feed a).compute = (.ok (), m₁) → ∃ r₁, (r.feed b).compute = (.ok (), r₁) ∧
          ∀ p ∈ pairs, ∀ t, r₁.buffer? t p.2.id = m₁.buffer? t p.1.id := by
  obtain ⟨hwf, -⟩ := h.wellFormed
  obtain ⟨ids, ho⟩ := hwf.ordered
  obtain ⟨place, live, pairs, r, hrun, hlive, hpairs, horder, halloc, hpart, hcopied⟩ :=
    hwf.prune_copies ha ho s
  have houts := Model.outputs_of_order ho
  -- every output node is live, so that none of them is missing
  have hkept : ∀ id ∈ ids.filter (fun id => (m.node? id).any Node.isOutput), live id = true := by
    intro id hid
    obtain ⟨n, hn, hout, rfl⟩ := (Model.mem_outputs hwf.distinct houts).mp hid
    exact (hlive n.id).mpr (.of_output hn hout)
  obtain ⟨hinputs, houtputs⟩ := hpart.marks_eq horder
  rw [hpairs, List.filter_filter] at hinputs houtputs
  refine ⟨place, live, pairs, r, ids, _, _, hrun, hlive, ho, hpairs, hpart.nodes, horder,
    fun p hp => ⟨hpart.source p hp, hcopied p hp⟩, Model.inputs_of_order ho, ?_, houts, ?_,
    fun hnone => ?_, fun a b haccepts hfed => ?_⟩
  · -- both filters are the same, one after the other
    rw [hinputs, List.filter_filter]
    simp only [Bool.and_comm]
  · have hall := List.filter_eq_self.mpr hkept
    rw [List.filter_filter] at hall
    simp only [houtputs, Bool.and_comm, hall]
  · -- without an output node there is nothing that one could depend on
    have hids : ids.filter live = [] := by
      refine List.filter_eq_nil_iff.mpr fun id _ hid => ?_
      obtain ⟨n, hn, hout, -⟩ := (hlive id).mp hid
      have hmem := (Model.mem_outputs hwf.distinct houts).mpr ⟨n, hn, hout, rfl⟩
      rw [hnone] at hmem
      cases hmem
    rw [hids, List.map_eq_nil_iff] at hpairs
    have hnodes : r.nodes = [] := by rw [hpart.nodes, hpairs, List.map_nil]
    exact congrArg Model.mk hnodes
  · have hmeans : ∀ p ∈ pairs, ∀ t,
        (r.feed b).reference t p.2.id = (m.feed a).reference t p.1.id :=
      fun p hp t => hpart.reference_eq haccepts hfed hp t
    -- an output node is kept, so that it is the source of one of the pairs
    have houtput : ∀ id ∈ ids.filter (fun id => (m.node? id).any Node.isOutput), ∀ t,
        (r.feed b).reference t (place id) = (m.feed a).reference t id := by
      intro id hid t
      have hmem : id ∈ pairs.map fun p => p.1.id := by
        rw [hpairs]
        exact List.mem_filter.mpr ⟨(List.mem_filter.mp hid).1, hkept id hid⟩
      obtain ⟨p, hp, rfl⟩ := List.mem_map.mp hmem
      rw [← (hcopied p hp).id]
      exact hmeans p hp t
    exact ⟨hpart.accepts haccepts hfed, hmeans, houtput, hpart.compute_ok halloc haccepts hfed,
      fun r₁ hr₁ p hp t => hpart.compute_buffers halloc haccepts hfed hr₁ hp t,
      fun m₁ hm₁ => hpart.compute_of_source ha halloc haccepts hfed hm₁⟩

/-- A constant, and no element of an input. -/
def constantAndNoInput : Selection :=
  ⟨[⟨⟨⟨2⟩, "output"⟩, 0, 1⟩, ⟨⟨⟨1⟩, "output"⟩, 1, 0⟩]⟩

/-- A quotient that no output node needs. -/
def unusedModel : Model :=
  ⟨quotientModel.nodes.take 3 ++ [.output ⟨4⟩ .int constantAndNoInput]⟩

theorem unusedModel_reachable : Reachable ⟨4⟩ unusedModel := by
  have hissued : Supply.Issued ⟨4⟩ (NodeId.nth 3) := ⟨3, by decide, rfl⟩
  exact quotient_reachable.add (.output hissued .int constantAndNoInput) rfl

theorem prune_keeps_live_unusedModel :
    Reachable ⟨4⟩ unusedModel ∧ unusedModel.Allocatable ∧
      ∃ (live : NodeId → Bool) (pairs : List (Node × Node)) (r : Model),
        unusedModel.prune.runWith ⟨4⟩ = (.ok r, ⟨7⟩) ∧ r.nodes = pairs.map Prod.snd ∧
          (pairs.map fun p => p.1.id) = unusedModel.ids.filter live ∧
            ∀ id, live id = true ↔ unusedModel.Live id := by
  have hallocatable : unusedModel.Allocatable := by decide
  obtain ⟨_, live, pairs, r, ids, _, _, hrun, hlive, horder, hpairs, hnodes, -⟩ :=
    unusedModel_reachable.prune_keeps_live hallocatable ⟨4⟩
  obtain rfl : ids = unusedModel.ids := (Except.ok.inj horder).symm
  have hdrawn : (unusedModel.prune.runWith ⟨4⟩).2 = ⟨7⟩ := rfl
  rw [hrun] at hdrawn
  exact ⟨unusedModel_reachable, hallocatable, live, pairs, r, by rw [hrun, ← hdrawn], hnodes,
    hpairs, hlive⟩

/-- The quotient is left out, and the input node is kept though no element of it is read. -/
example : (unusedModel.prune.runWith ⟨4⟩).1 =
    .ok ⟨[.input ⟨5⟩ .int 1, .constant ⟨6⟩ .int [(6 : Int32)],
      .output ⟨7⟩ .int (.single ⟨⟨⟨6⟩, "output"⟩, 0, 1⟩)]⟩ := rfl

end FlowGraph
