import FlowGraph.Proofs.Repruning

/-! Pruning before folding. It takes away nothing that decides what is folded, and nothing that is
left when the model is pruned in the end, so that the result is the same but for its ids. -/
namespace FlowGraph

/-- The value of a selection is decided by the nodes of which it reads an element. -/
theorem Selection.pick?_congr_elements {α : Type} {v w : NodeId → Option (List α)} {e : Selection}
    (h : ∀ s ∈ e.spans, s.count ≠ 0 → v s.source.node = w s.source.node) :
    e.pick? v = e.pick? w := by
  refine mapM_congr fun x hx => ?_
  rw [forall_elements (P := fun id => v id = w id) |>.mpr h x hx]

namespace Node

theorem ReadsOnly.value?_congr {n : Node} {v w : NodeId → Option (List n.type.Value)}
    (h : n.ReadsOnly fun id => v id = w id) : n.value? v = n.value? w := by
  rcases n with ⟨id, t, body, buffer⟩
  cases body with
  | input values => rfl
  | constant values => rfl
  | output source => exact Selection.pick?_congr_elements ((readsOnly_output rfl).mp h)
  | operation numeric op left right =>
    obtain ⟨hleft, hright⟩ := (readsOnly_operation rfl).mp h
    simp only [value?, Selection.pick?_congr_elements hleft, Selection.pick?_congr_elements hright]

/-- A node that is no input node means what it did if that is so of what it reads. -/
theorem ReadsOnly.reference_feed {m : Model} {a : Feed} (hwf : m.WellFormed)
    (hfed : (m.feed a).WellFormed) {n : Node} (hn : n ∈ m.nodes) (hplain : n.isInput = false)
    (h : n.ReadsOnly fun id => (m.feed a).reference n.type id = m.reference n.type id) :
    (m.feed a).reference n.type n.id = m.reference n.type n.id := by
  have hmem : n.feed a ∈ (m.feed a).nodes := Model.mem_feed hn
  rw [feed_of_isInput_eq_false hplain] at hmem
  rw [Model.reference_of_mem hfed hmem, Model.reference_of_mem hwf hn, h.value?_congr]

end Node

namespace Model

/-- What comes down to constants alone means the same whatever the inputs are. -/
theorem Determined.reference_feed {m : Model} {a : Feed} (hwf : m.WellFormed)
    (hfed : (m.feed a).WellFormed) {id : NodeId} (h : m.Determined id) (t : ElementType) :
    (m.feed a).reference t id = m.reference t id := by
  -- of the type of the node; of another type neither has a value
  have htyped : ∀ t, ∀ n ∈ m.nodes, (m.feed a).reference n.type n.id = m.reference n.type n.id →
      (m.feed a).reference t n.id = m.reference t n.id := by
    intro t n hn hsame
    by_cases ht : n.type = t
    · rwa [ht] at hsame
    · have hmem : n.feed a ∈ (m.feed a).nodes := mem_feed hn
      have hnode := node?_of_mem hfed.distinct hmem
      rw [(n.sameShape_feed a).id] at hnode
      rw [reference_of_type_ne hnode (by rwa [(n.sameShape_feed a).type]),
        reference_of_type_ne (node?_of_mem hwf.distinct hn) ht]
  induction h generalizing t with
  | @constant n hn hconstant =>
    exact htyped t n hn (Node.ReadsOnly.reference_feed hwf hfed hn
      (Node.isInput_of_isConstant hconstant) (Node.readsOnly_constant hconstant))
  | @operation n hn _ hdefined ih =>
    exact htyped t n hn (Node.ReadsOnly.reference_feed hwf hfed hn
      (Node.isInput_of_isOperation hdefined.isOperation) fun s hs hcount => ih s hs hcount n.type)

namespace CarriedPart

variable {place : NodeId → NodeId} {m r : Model} {pairs : List (Node × Node)} {p : Node × Node}

/-- Of an operation and its copy that reads only what comes down to constants alone, both are
defined or neither is. -/
theorem definedIn_copy (h : CarriedPart place m r pairs) (hp : p ∈ pairs)
    (hcopied : p.1.CopiedTo place p.2) (hop : p.1.isOperation = true)
    (hreads : p.2.ReadsOnly r.Determined) : p.2.DefinedIn r ↔ p.1.DefinedIn m := by
  have hop' : p.2.isOperation = true := hcopied.same.isOperation.trans hop
  have hmem := h.mem_result hp
  obtain ⟨b, hfed, hmeans⟩ := h.exists_alike
  -- fed what the source holds, the copy means what the source does, and that is what it means
  have hsame := Node.ReadsOnly.reference_feed h.wellFormed_result hfed hmem
    (Node.isInput_of_isOperation hop') fun s hs hcount =>
      (hreads s hs hcount).reference_feed h.wellFormed_result hfed p.2.type
  rw [definedIn_iff h.wellFormed_result hmem hop', definedIn_iff h.wellFormed (h.source p hp) hop,
    ← hsame, hmeans p hp, (h.stands p hp).2.1]

/-- A copy comes down to constants alone exactly if its source does. -/
theorem determined_iff (h : CarriedPart place m r pairs)
    (hcopied : ∀ p ∈ pairs, p.1.CopiedTo place p.2) (hp : p ∈ pairs) :
    r.Determined p.2.id ↔ m.Determined p.1.id := by
  constructor
  · intro hdetermined
    -- by induction on how the copy comes down to constants, for whatever it is a copy of
    have hall : ∀ id', r.Determined id' → ∀ p ∈ pairs, p.2.id = id' → m.Determined p.1.id := by
      intro id' hdetermined
      induction hdetermined with
      | @constant n' hn' hconstant =>
        intro p hp hid
        have hd := h.wellFormed_result.distinct
        obtain rfl := List.inj_on_of_nodup_map hd (h.mem_result hp) hn' hid
        rw [(hcopied p hp).same.isConstant] at hconstant
        exact .constant (h.source p hp) hconstant
      | @operation n' hn' hreads hdefined ih =>
        intro p hp hid
        have hd := h.wellFormed_result.distinct
        obtain rfl := List.inj_on_of_nodup_map hd (h.mem_result hp) hn' hid
        have hop := hdefined.isOperation
        rw [(hcopied p hp).same.isOperation] at hop
        have hstand : p.2.ReadsOnly fun id' => ∀ q ∈ pairs, q.2.id = id' → m.Determined q.1.id := ih
        refine .operation (h.source p hp) (fun s hs hcount => ?_)
          ((h.definedIn_copy hp (hcopied p hp) hop hreads).mp hdefined)
        obtain ⟨q, hq, hid, hplace⟩ := h.exists_source hp hs
        rw [← hid]
        exact (hcopied p hp).same.readsOnly.mp hstand s hs hcount q hq hplace
    exact hall _ hdetermined p hp rfl
  · intro hdetermined
    -- the same on the other side, where the copy reads what stands for what its source reads
    have hall : ∀ id, m.Determined id → ∀ p ∈ pairs, p.1.id = id → r.Determined p.2.id := by
      intro id hdetermined
      induction hdetermined with
      | @constant n hn hconstant =>
        intro p hp hid
        obtain rfl := List.inj_on_of_nodup_map h.wellFormed.distinct (h.source p hp) hn hid
        exact .constant (h.mem_result hp) ((hcopied p hp).same.isConstant.trans hconstant)
      | @operation n hn _ hdefined ih =>
        intro p hp hid
        obtain rfl := List.inj_on_of_nodup_map h.wellFormed.distinct (h.source p hp) hn hid
        have hreads : p.2.ReadsOnly r.Determined := by
          refine (hcopied p hp).same.readsOnly.mpr fun s hs hcount => ?_
          obtain ⟨q, hq, hid, hplace⟩ := h.exists_source hp hs
          rw [← hplace]
          exact ih s hs hcount q hq hid
        exact .operation (h.mem_result hp) hreads
          ((h.definedIn_copy hp (hcopied p hp) hdefined.isOperation hreads).mpr hdefined)
    exact hall _ hdetermined p hp rfl

end CarriedPart

end Model

theorem Selection.WiredBy.trans {place place' : NodeId → NodeId} {e e' e'' : Selection}
    (h : e.WiredBy place e') (h' : e'.WiredBy place' e'') :
    e.WiredBy (fun id => place' (place id)) e'' := by
  rw [WiredBy, h', h, List.map_map]
  rfl

/-- Two selections of the same elements, each at places of its own, are wired to one another. -/
theorem Selection.WiredBy.between {place place' rename : NodeId → NodeId} {e e₁ e₂ : Selection}
    (h₁ : e.WiredBy place e₁) (h₂ : e.WiredBy place' e₂)
    (hrename : ∀ s ∈ e.spans, rename (place s.source.node) = place' s.source.node) :
    e₁.WiredBy rename e₂ := by
  rw [WiredBy, h₁, h₂, List.map_map]
  refine List.map_congr_left fun x hx => ?_
  obtain ⟨s, hs, hx⟩ := List.mem_flatMap.mp hx
  obtain ⟨i, -, rfl⟩ := List.mem_map.mp hx
  rw [Function.comp_apply, hrename s hs]

namespace Node

variable {place place' rename : NodeId → NodeId} {n n₁ n₂ : Node}

theorem CopiedTo.trans (h : n.CopiedTo place n₁) (h' : n₁.CopiedTo place' n₂) :
    n.CopiedTo (fun id => place' (place id)) n₂ where
  id := by rw [h'.id, h.id]
  same := h.same.trans h'.same fun _ _ _ _ h h' => h.trans h'
  fresh := h'.fresh

/-- Of two copies of a node, each is one of the other. -/
theorem CopiedTo.between (h₁ : n.CopiedTo place n₁) (h₂ : n.CopiedTo place' n₂)
    (hid : rename (place n.id) = place' n.id)
    (hrename : ∀ s ∈ n.spans, rename (place s.source.node) = place' s.source.node) :
    n₁.CopiedTo rename n₂ where
  id := by rw [h₂.id, h₁.id, hid]
  same := h₁.same.symm.trans h₂.same fun i hi _ _ h h' =>
    h.between h' fun s hs => hrename s (mem_spans.mpr ⟨i, hi, hs⟩)
  fresh := h₂.fresh

end Node

/-- A part of a list in which nothing that is looked for is missing. -/
theorem filter_eq_of_sublist {α : Type} {P : α → Bool} {xs ys : List α} (h : xs.Sublist ys)
    (hd : ys.Nodup) (hall : ∀ y ∈ ys, P y = true → y ∈ xs) : xs.filter P = ys.filter P := by
  refine (h.filter P).eq_of_length_le ((hd.filter P).length_le_of_subset fun y hy => ?_)
  obtain ⟨hy, hP⟩ := List.mem_filter.mp hy
  exact List.mem_filter.mpr ⟨hall y hy hP, hP⟩

namespace Model

variable {place : NodeId → NodeId} {m r : Model} {pairs : List (Node × Node)}

/-- What a node names after folding is in the place of what it named before. -/
theorem FoldedOver.exists_dependency (h : FoldedOver place m r pairs) {p : Node × Node}
    (hp : p ∈ pairs) {d' : NodeId} (hd' : d' ∈ p.2.dependencies) :
    ∃ d ∈ p.1.dependencies, place d = d' := by
  obtain ⟨s, hs, rfl⟩ := Node.mem_dependencies.mp hd'
  obtain ⟨i, hi, hspan⟩ := Node.mem_spans.mp hs
  rcases h.settled p hp with hkept | hfolds
  · -- a canonical copy reads an element wherever it names a node
    have htakes : p.2.TakesFrom s.source.node :=
      ⟨s, hs, (hkept.canonical i hi).solid s hspan, rfl⟩
    obtain ⟨d, ⟨s₀, hs₀, -, rfl⟩, hplace⟩ := hkept.same.takesFrom.mp htakes
    exact ⟨_, Node.mem_dependencies.mpr ⟨s₀, hs₀, rfl⟩, hplace⟩
  · rw [hfolds.inlets_eq_nil] at hi
    cases hi

/-- Places can be exchanged for other ones where the first are different. -/
theorem exists_rename {inside : Set NodeId} (hinj : Set.InjOn place inside)
    (other : NodeId → NodeId) :
    ∃ rename : NodeId → NodeId, ∀ id ∈ inside, rename (place id) = other id := by
  refine ⟨fun id => other (Function.invFunOn place inside id), fun id hid => ?_⟩
  exact congrArg other (hinj.leftInvOn_invFunOn hid)

/-- A model folded, and folded after it was pruned; `rename` goes from the places of the first to
those of the second. -/
structure FoldSquare (place placeF placeL rename : NodeId → NodeId) (m r f l : Model)
    (pairs pairsF pairsL : List (Node × Node)) : Prop where
  pruned : PrunedTo place m r pairs
  folded : FoldedOver placeF m f pairsF
  last : FoldedOver placeL r l pairsL
  rename_eq : ∀ id ∈ m.ids, rename (placeF id) = placeL (place id)

/-- The places of the one are the places of the other, as different nodes are in different ones. -/
theorem PrunedTo.exists_square {placeF placeL : NodeId → NodeId} {f l : Model}
    {pairsF pairsL : List (Node × Node)} (hpruned : PrunedTo place m r pairs)
    (hfolded : FoldedOver placeF m f pairsF) (hlast : FoldedOver placeL r l pairsL) :
    ∃ rename, FoldSquare place placeF placeL rename m r f l pairs pairsF pairsL := by
  obtain ⟨rename, hrename⟩ := exists_rename hfolded.part.injOn fun id => placeL (place id)
  refine ⟨rename, hpruned, hfolded, hlast, fun id hid => ?_⟩
  obtain ⟨g, hg, rfl⟩ := hfolded.exists_pair hid
  exact hrename _ (List.mem_map.mpr ⟨g, hg, rfl⟩)

namespace FoldSquare

variable {place placeF placeL rename : NodeId → NodeId} {m r f l : Model}
  {pairs pairsF pairsL : List (Node × Node)} {p g q : Node × Node}

theorem rename_source (h : FoldSquare place placeF placeL rename m r f l pairs pairsF pairsL)
    (hp : p ∈ pairs) : rename (placeF p.1.id) = placeL p.2.id := by
  rw [h.rename_eq _ (mem_ids.mpr ⟨p.1, h.pruned.source p hp, rfl⟩), (h.pruned.stands p hp).1]

/-- What comes of a copy. -/
theorem exists_last (h : FoldSquare place placeF placeL rename m r f l pairs pairsF pairsL)
    (hp : p ∈ pairs) : ∃ q ∈ pairsL, q.1 = p.2 := by
  have hmem := h.pruned.mem_result hp
  obtain ⟨q, hq, hid⟩ := h.last.exists_pair (mem_ids.mpr ⟨p.2, hmem, rfl⟩)
  exact ⟨q, hq,
    List.inj_on_of_nodup_map h.last.wellFormed.distinct (h.last.source q hq) hmem hid⟩

/-- The copy of a node that is live. -/
theorem exists_copy (h : FoldSquare place placeF placeL rename m r f l pairs pairsF pairsL)
    (hg : g ∈ pairsF) (hlive : m.Live g.1.id) : ∃ p ∈ pairs, p.1 = g.1 := by
  obtain ⟨p, hp, hid⟩ := List.mem_map.mp (h.pruned.mem_iff.mpr hlive)
  exact ⟨p, hp, List.inj_on_of_nodup_map h.folded.wellFormed.distinct (h.pruned.source p hp)
    (h.folded.source g hg) hid⟩

/-- Different nodes stay different on both ways. -/
theorem injOn (h : FoldSquare place placeF placeL rename m r f l pairs pairsF pairsL) :
    Set.InjOn rename {id | ∃ p ∈ pairs, placeF p.1.id = id} := by
  -- the copies are all folded over, so that first their places and then those of the sources differ
  have hlast : ∀ p ∈ pairs, p.2.id ∈ pairsL.map fun q => q.1.id := by
    intro p hp
    obtain ⟨q, hq, hpq⟩ := h.exists_last hp
    exact List.mem_map.mpr ⟨q, hq, by rw [hpq]⟩
  rintro _ ⟨p, hp, rfl⟩ _ ⟨p', hp', rfl⟩ heq
  rw [h.rename_source hp, h.rename_source hp'] at heq
  have hcopies := h.last.part.injOn (hlast p hp) (hlast p' hp') heq
  rw [(h.pruned.stands p hp).1, (h.pruned.stands p' hp').1] at hcopies
  have hmem : p.1.id ∈ pairs.map fun p => p.1.id := List.mem_map_of_mem hp
  have hmem' : p'.1.id ∈ pairs.map fun p => p.1.id := List.mem_map_of_mem hp'
  rw [h.pruned.injOn hmem hmem' hcopies]

/-- A node is folded exactly if its copy is. -/
theorem folded_iff (h : FoldSquare place placeF placeL rename m r f l pairs pairsF pairsL)
    (hp : p ∈ pairs) (hg : g ∈ pairsF) (hq : q ∈ pairsL) (hpg : g.1 = p.1) (hpq : q.1 = p.2) :
    Folded q ↔ Folded g := by
  rw [Folded, Folded, h.last.isConstant_iff_determined hq, h.folded.isConstant_iff_determined hg,
    hpg, hpq, (h.pruned.copied p hp).same.isOperation, h.pruned.determined_iff h.pruned.copied hp]

/-- If they are, then to the same constant. -/
theorem folded_constant (h : FoldSquare place placeF placeL rename m r f l pairs pairsF pairsL)
    (hp : p ∈ pairs) (hg : g ∈ pairsF) (hq : q ∈ pairsL) (hpg : g.1 = p.1) (hpq : q.1 = p.2)
    (hfolded : Folded g) : q.2 = g.2.relabel rename := by
  have hfolded' := (h.folded_iff hp hg hq hpg hpq).mpr hfolded
  obtain ⟨values, hvalues, hconstant⟩ := h.folded.folded_value hg hfolded
  obtain ⟨values', hvalues', hconstant'⟩ := h.last.folded_value hq hfolded'
  obtain ⟨b, hfed, hmeans⟩ := h.pruned.exists_alike
  have hdetermined := (h.last.isConstant_iff_determined hq).mp hfolded'.2
  have htype : q.1.type = g.1.type := by
    rw [hpq, hpg]
    exact (h.pruned.stands p hp).2.1
  -- the copy means what the source does, as it comes down to constants alone
  have hsame : r.reference q.1.type q.1.id = m.reference q.1.type g.1.id := by
    rw [← hdetermined.reference_feed h.pruned.wellFormed_result hfed, hpq, hpg]
    exact hmeans p hp _
  rw [hsame] at hvalues'
  have hid : rename (placeF g.1.id) = placeL q.1.id := by
    rw [hpq, hpg, h.rename_source hp]
  rcases g with ⟨⟨id, t, body, buffer⟩, g'⟩
  rcases q with ⟨⟨id', t', body', buffer'⟩, q'⟩
  obtain rfl : t' = t := htype
  obtain rfl := Option.some.inj (hvalues.symm.trans hvalues')
  calc q' = .constant (placeL id') t' values := hconstant'
    _ = .constant (rename (placeF id)) t' values := by rw [hid]
    _ = (Node.constant (placeF id) t' values).relabel rename := rfl
    _ = g'.relabel rename := congrArg _ hconstant.symm

/-- If they are not, then both are copied, and read the same. -/
theorem kept_copy (h : FoldSquare place placeF placeL rename m r f l pairs pairsF pairsL)
    (hp : p ∈ pairs) (hg : g ∈ pairsF) (hq : q ∈ pairsL) (hpg : g.1 = p.1) (hpq : q.1 = p.2)
    (hnot : ¬ Folded g) : q.2 = g.2.relabel rename := by
  have hkept := h.folded.keptIn hg hnot
  have hkept' := h.last.keptIn hq fun hfolded => hnot ((h.folded_iff hp hg hq hpg hpq).mp hfolded)
  -- both are copies of one node
  have hcopy : p.1.CopiedTo placeF g.2 := hpg ▸ hkept.toCopiedTo
  have hcopy' : p.1.CopiedTo (fun id => placeL (place id)) q.2 :=
    (h.pruned.copied p hp).trans (hpq ▸ hkept'.toCopiedTo)
  have hsource := h.pruned.source p hp
  have hboth : g.2.CopiedTo rename q.2 := by
    refine hcopy.between hcopy' (h.rename_eq _ (mem_ids.mpr ⟨p.1, hsource, rfl⟩)) fun s hs => ?_
    exact h.rename_eq _ (resolves_mem (h.pruned.wellFormed.resolves p.1 hsource s hs))
  refine hboth.eq_relabel hkept.normal hkept'.normal (h.injOn.mono ?_)
  -- all that is read is in the place of something that was pruned with the node
  rintro _ ⟨s, hs, rfl⟩
  obtain ⟨d, hd, hplace⟩ := h.folded.exists_dependency hg (Node.mem_dependencies.mpr ⟨s, hs, rfl⟩)
  obtain ⟨k, hk, rfl⟩ := List.mem_map.mp (h.pruned.closed p hp (hpg ▸ hd))
  exact ⟨k, hk, hplace⟩

/-- What comes of a node that is live is the same on both ways, but for the ids. -/
theorem relabel_mem (h : FoldSquare place placeF placeL rename m r f l pairs pairsF pairsL)
    (hg : g ∈ pairsF) (hlive : m.Live g.1.id) : g.2.relabel rename ∈ l.nodes := by
  obtain ⟨p, hp, hpg⟩ := h.exists_copy hg hlive
  obtain ⟨q, hq, hpq⟩ := h.exists_last hp
  have hsame : q.2 = g.2.relabel rename := by
    by_cases hfolded : Folded g
    · exact h.folded_constant hp hg hq hpg.symm hpq hfolded
    · exact h.kept_copy hp hg hq hpg.symm hpq hfolded
  rw [← hsame]
  exact h.last.part.mem_result hq

/-- The ids after pruning and folding, in their order. -/
theorem ids_last (h : FoldSquare place placeF placeL rename m r f l pairs pairsF pairsL) :
    l.ids = (pairs.map fun p => placeF p.1.id).map rename := by
  have hfirst : (pairsL.map fun q => q.1.id) = pairs.map fun p => p.2.id := by
    rw [← h.pruned.ids_result]
    exact Except.ok.inj (h.last.order.symm.trans h.pruned.order_result)
  calc l.ids
      = pairsL.map fun q => q.2.id := h.last.part.ids_result
    _ = (pairsL.map fun q => q.1.id).map placeL := by
        rw [List.map_map]
        exact List.map_congr_left fun q hq => (h.last.stands q hq).1
    _ = (pairs.map fun p => p.2.id).map placeL := by rw [hfirst]
    _ = (pairs.map fun p => placeF p.1.id).map rename := by
        rw [List.map_map, List.map_map]
        exact List.map_congr_left fun p hp => (h.rename_source hp).symm

/-- Folding what was pruned gives an excerpt of what folding gives: of each node that is live, what
it comes to, under another id. -/
theorem excerpt (h : FoldSquare place placeF placeL rename m r f l pairs pairsF pairsL) :
    ∃ kept, Excerpt rename kept f l := by
  obtain ⟨ids, live, ho, hlive, hpairs⟩ := h.pruned.listed
  obtain rfl : (pairsF.map fun g => g.1.id) = ids :=
    Except.ok.inj (h.folded.order.symm.trans ho)
  have hkept : ∀ n, n ∈ (pairsF.filter fun g => live g.1.id).map Prod.snd ↔
      ∃ g ∈ pairsF, m.Live g.1.id ∧ g.2 = n := by
    intro n
    simp only [List.mem_map, List.mem_filter, and_assoc, hlive]
  have hids : ((pairsF.filter fun g => live g.1.id).map Prod.snd).map Node.id =
      pairs.map fun p => placeF p.1.id := by
    calc ((pairsF.filter fun g => live g.1.id).map Prod.snd).map Node.id
        = ((pairsF.map fun g => g.1.id).filter live).map placeF := by
          rw [List.filter_map, List.map_map, List.map_map]
          exact List.map_congr_left fun g hg => (h.folded.stands g (List.mem_filter.mp hg).1).1
      _ = pairs.map fun p => placeF p.1.id := by
          rw [← hpairs, List.map_map]
          rfl
  have hmem : ∀ id, id ∈ ((pairsF.filter fun g => live g.1.id).map Prod.snd).map Node.id ↔
      ∃ p ∈ pairs, placeF p.1.id = id := by
    intro id
    rw [hids, List.mem_map]
  refine ⟨(pairsF.filter fun g => live g.1.id).map Prod.snd, ?_, ?_, ?_, ?_, ?_⟩
  · -- nodes are told by their ids, and those come in the same order
    refine nodes_ext h.last.wellFormed_result.distinct (fun n hn => hn) (fun n hn => ?_) ?_
    · obtain ⟨k, hk, rfl⟩ := List.mem_map.mp hn
      obtain ⟨g, hg, hlive, rfl⟩ := (hkept k).mp hk
      exact h.relabel_mem hg hlive
    · rw [List.map_map, ← ids, h.ids_last, ← hids, List.map_map (g := rename)]
      rfl
  · rw [h.folded.nodes]
    exact List.filter_sublist.map Prod.snd
  · intro n hn d hdep
    obtain ⟨g, hg, hlive, rfl⟩ := (hkept n).mp hn
    obtain ⟨d₀, hd₀, rfl⟩ := h.folded.exists_dependency hg hdep
    obtain ⟨p, hp, hpg⟩ := h.exists_copy hg hlive
    obtain ⟨k, hk, rfl⟩ := List.mem_map.mp (h.pruned.closed p hp (hpg ▸ hd₀))
    exact (hmem _).mpr ⟨k, hk, rfl⟩
  · intro n hn hout
    obtain ⟨g, hg, rfl⟩ := h.folded.part.exists_pair_result hn
    rw [(h.folded.isInput_eq hg).2] at hout
    exact (hkept _).mpr ⟨g, hg, .of_output (h.folded.source g hg) hout, rfl⟩
  · exact h.injOn.mono fun id hid => (hmem id).mp hid

end FoldSquare

/-- Pruning an excerpt leaves what pruning the whole does: no node that is live has been left out,
and no other one is. -/
theorem Excerpt.prune_eq {rename placeA placeB : NodeId → NodeId} {f l late early : Model}
    {kept : List Node} {pairsA pairsB : List (Node × Node)} (h : Excerpt rename kept f l)
    (hlate : PrunedTo placeA f late pairsA) (hearly : PrunedTo placeB l early pairsB)
    (hnormal : ∀ n ∈ f.nodes, n.Normal) (ho : f.order = .ok f.ids)
    (hnormal' : ∀ n ∈ l.nodes, n.Normal) (ho' : l.order = .ok l.ids) :
    ∃ other : NodeId → NodeId, Set.InjOn other {id | id ∈ late.ids} ∧
      early.nodes = late.nodes.map (Node.relabel other) := by
  have hd := hlate.wellFormed.distinct
  obtain ⟨live, hlive, hcore, hlateNodes⟩ := hlate.excerpt hnormal ho
  obtain ⟨live', hlive', hcore', hearlyNodes⟩ := hearly.excerpt hnormal' ho'
  obtain ⟨other, hother⟩ := exists_rename hlate.injOn fun id => placeB (rename id)
  have hids : (pairsA.map Prod.fst).map Node.id = pairsA.map fun p => p.1.id := List.map_map
  -- what is left of the excerpt stands for what is left of the whole
  have hleft : pairsB.map Prod.fst = (pairsA.map Prod.fst).map (Node.relabel rename) := by
    have hsame : ∀ n ∈ kept, live' (n.relabel rename).id = live n.id := by
      intro n hn
      rw [Bool.eq_iff_iff, hlive', hlive]
      exact h.live_iff hd hn
    calc pairsB.map Prod.fst
        = (kept.map (Node.relabel rename)).filter fun n => live' n.id := by rw [hcore', h.nodes]
      _ = (kept.filter fun n => live' (n.relabel rename).id).map (Node.relabel rename) :=
          List.filter_map
      _ = (kept.filter fun n => live n.id).map (Node.relabel rename) := by
          rw [List.filter_congr hsame]
      _ = (f.nodes.filter fun n => live n.id).map (Node.relabel rename) := by
          rw [filter_eq_of_sublist h.sublist hd.of_map fun n hn hl =>
            h.mem_of_live hd hn ((hlive n.id).mp hl)]
      _ = (pairsA.map Prod.fst).map (Node.relabel rename) := by rw [hcore]
  have hmoved : ∀ n ∈ pairsA.map Prod.fst, (n.relabel rename).relabel placeB =
      (n.relabel placeA).relabel other := by
    intro n hn
    rw [Node.relabel_relabel, Node.relabel_relabel]
    exact Node.relabel_congr (hother n.id (hids ▸ List.mem_map_of_mem hn)).symm
      fun d hdep => (hother d (hids ▸ hlateNodes.closed n hn hdep)).symm
  have hnodes : early.nodes = late.nodes.map (Node.relabel other) := by
    calc early.nodes
        = (pairsB.map Prod.fst).map (Node.relabel placeB) := hearlyNodes.nodes
      _ = (pairsA.map Prod.fst).map fun n => (n.relabel rename).relabel placeB := by
          rw [hleft, List.map_map]
          rfl
      _ = (pairsA.map Prod.fst).map fun n => (n.relabel placeA).relabel other :=
          List.map_congr_left hmoved
      _ = late.nodes.map (Node.relabel other) := by
          rw [hlateNodes.nodes, List.map_map (g := Node.relabel other)]
          rfl
  -- the ids of a model are different, and so must those be to which they correspond
  have hdistinct : (late.ids.map other).Nodup := by
    have hsame : early.ids = late.ids.map other := by
      rw [ids, ids, hnodes, List.map_map, List.map_map]
      rfl
    rw [← hsame]
    exact hearly.wellFormed_result.distinct
  exact ⟨other, fun a ha b hb hab => List.inj_on_of_nodup_map hdistinct ha hb hab, hnodes⟩

end Model

/-- Pruning early does not change what comes out. Folding and pruning a model, and doing that after
it was pruned, both succeed, whatever ids are drawn, and give the same nodes in the same order,
reading the same spans, under other ids. -/
theorem Reachable.prune_fold_prune {s₀ : Supply} {m : Model} (h : Reachable s₀ m)
    (ha : m.Allocatable) (s s' : Supply) :
    ∃ (early late : Model) (t t' : Supply) (rename : NodeId → NodeId),
      (m.prune >>= Model.fold >>= Model.prune).runWith s = (.ok early, t) ∧
      (m.fold >>= Model.prune).runWith s' = (.ok late, t') ∧
      Set.InjOn rename {id | id ∈ late.ids} ∧
      early.nodes = late.nodes.map (Node.relabel rename) := by
  obtain ⟨hwf, -⟩ := h.wellFormed
  obtain ⟨ids, ho⟩ := hwf.ordered
  -- the way on which pruning comes first
  obtain ⟨place, pairs, r, hprune, hpruned⟩ := hwf.prune_to ha s
  obtain ⟨pairsL, l, hfoldL, hlast⟩ := hpruned.wellFormed_result.fold_over
    hpruned.allocatable_result hpruned.order_result ⟨s.drawn + pairs.length⟩
  obtain ⟨placeB, pairsB, early, hpruneB, hearly⟩ := hlast.wellFormed_result.prune_to
    hlast.allocatable_result ⟨s.drawn + pairs.length + r.size⟩
  -- the way without it
  obtain ⟨pairsF, f, hfoldF, hfolded⟩ := hwf.fold_over ha ho s'
  obtain ⟨placeA, pairsA, late, hpruneA, hlate⟩ := hfolded.wellFormed_result.prune_to
    hfolded.allocatable_result ⟨s'.drawn + m.size⟩
  obtain ⟨rename, hsquare⟩ := hpruned.exists_square hfolded hlast
  obtain ⟨kept, hexcerpt⟩ := hsquare.excerpt
  obtain ⟨other, hinj, hnodes⟩ := hexcerpt.prune_eq hlate hearly
    (fun n hn => hfolded.normal_result hn) hfolded.order_result
    (fun n hn => hlast.normal_result hn) hlast.order_result
  have hrun : (m.prune >>= Model.fold >>= Model.prune).runWith s =
      (.ok early, ⟨s.drawn + pairs.length + r.size + pairsB.length⟩) := by
    have hbefore : (m.prune >>= Model.fold).runWith s =
        (.ok l, ⟨s.drawn + pairs.length + r.size⟩) := by
      rw [Drawing.runWith_bind_of_ok hprune, hfoldL]
    rw [Drawing.runWith_bind_of_ok hbefore, hpruneB]
  have hrun' : (m.fold >>= Model.prune).runWith s' =
      (.ok late, ⟨s'.drawn + m.size + pairsA.length⟩) := by
    rw [Drawing.runWith_bind_of_ok hfoldF, hpruneA]
  exact ⟨early, late, _, _, other, hrun, hrun', hinj, hnodes⟩

/-- An element of a sum that is folded, no element of an input, and an element of a sum that is
not folded. -/
def sumsAndNoInput : Selection :=
  ⟨[⟨⟨⟨4⟩, "output"⟩, 0, 1⟩, ⟨⟨⟨1⟩, "output"⟩, 1, 0⟩, ⟨⟨⟨7⟩, "output"⟩, 0, 1⟩]⟩

/-- Chains of constants of which an output node needs some. -/
def reportedModel : Model :=
  ⟨chainedModel.nodes ++ [.output ⟨8⟩ .int sumsAndNoInput]⟩

theorem reportedModel_reachable : Reachable ⟨8⟩ reportedModel := by
  have hissued : Supply.Issued ⟨8⟩ (NodeId.nth 7) := ⟨7, by decide, rfl⟩
  exact (chainedModel_reachable.wait (by decide)).add (.output hissued .int sumsAndNoInput) rfl

theorem prune_fold_prune_reportedModel :
    Reachable ⟨8⟩ reportedModel ∧ reportedModel.Allocatable ∧
      ∃ (early late : Model) (rename : NodeId → NodeId),
        (reportedModel.prune >>= Model.fold >>= Model.prune).runWith ⟨8⟩ = (.ok early, ⟨24⟩) ∧
          (reportedModel.fold >>= Model.prune).runWith ⟨8⟩ = (.ok late, ⟨20⟩) ∧
            Set.InjOn rename {id | id ∈ late.ids} ∧
              early.nodes = late.nodes.map (Node.relabel rename) := by
  have hallocatable : reportedModel.Allocatable := by decide
  obtain ⟨early, late, t, t', rename, hearly, hlate, hinj, hnodes⟩ :=
    reportedModel_reachable.prune_fold_prune hallocatable ⟨8⟩ ⟨8⟩
  have hdrawn : ((reportedModel.prune >>= Model.fold >>= Model.prune).runWith ⟨8⟩).2 = ⟨24⟩ := rfl
  have hdrawn' : ((reportedModel.fold >>= Model.prune).runWith ⟨8⟩).2 = ⟨20⟩ := rfl
  rw [hearly] at hdrawn
  rw [hlate] at hdrawn'
  exact ⟨reportedModel_reachable, hallocatable, early, late, rename, by rw [hearly, ← hdrawn],
    by rw [hlate, ← hdrawn'], hinj, hnodes⟩

/-- The constants are left out of which the sum was folded, and the quotient. -/
example : (reportedModel.fold >>= Model.prune).runWith ⟨8⟩ = (.ok ⟨[.input ⟨17⟩ .int 1,
    .constant ⟨18⟩ .int [(9 : Int32)],
    ⟨⟨19⟩, .int, .operation ElementType.isNumeric_int .add (.single ⟨⟨⟨18⟩, "output"⟩, 0, 1⟩)
      (.single ⟨⟨⟨17⟩, "output"⟩, 0, 1⟩), [(0 : Int32)]⟩,
    .output ⟨20⟩ .int ⟨[⟨⟨⟨18⟩, "output"⟩, 0, 1⟩, ⟨⟨⟨19⟩, "output"⟩, 0, 1⟩]⟩]⟩, ⟨20⟩) := rfl

end FlowGraph
