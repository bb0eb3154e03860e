import FlowGraph.Proofs.Pruning
import FlowGraph.Proofs.Refolding

/-! Pruning what has been pruned. Copying a node forgets what it names without reading an element of
it, so that a node which was only named is live before and unused after; once that is pruned as
well, nothing is left to prune. -/
namespace FlowGraph

/-- Where the steps inside of a set, which do not lead out of it, are the steps of another relation
at other places, so are the paths. -/
theorem reflTransGen_image {α β : Type} {step : α → α → Prop} {step' : β → β → Prop} {place : α → β}
    {inside : Set α} (hinj : Set.InjOn place inside)
    (hclosed : ∀ a ∈ inside, ∀ b, step a b → b ∈ inside)
    (hstep : ∀ a ∈ inside, ∀ b', step' (place a) b' ↔ ∃ b, step a b ∧ place b = b') {a b : α}
    (ha : a ∈ inside) (hb : b ∈ inside) :
    Relation.ReflTransGen step' (place a) (place b) ↔ Relation.ReflTransGen step a b := by
  constructor
  · intro hpath
    -- whatever is reached is the place of something that is
    have hall : ∀ b', Relation.ReflTransGen step' (place a) b' →
        ∃ c ∈ inside, Relation.ReflTransGen step a c ∧ place c = b' := by
      intro b' hpath
      induction hpath with
      | refl => exact ⟨a, ha, .refl, rfl⟩
      | tail _ hlast ih =>
        obtain ⟨c, hc, hbefore, rfl⟩ := ih
        obtain ⟨d, hd, rfl⟩ := (hstep c hc _).mp hlast
        exact ⟨d, hclosed c hc d hd, hbefore.tail hd, rfl⟩
    obtain ⟨c, hc, hreached, hplace⟩ := hall _ hpath
    rwa [← hinj hc hb hplace]
  · intro hpath
    have hall : ∀ c, Relation.ReflTransGen step a c →
        c ∈ inside ∧ Relation.ReflTransGen step' (place a) (place c) := by
      intro c hpath
      induction hpath with
      | refl => exact ⟨ha, .refl⟩
      | tail _ hlast ih =>
        exact ⟨hclosed _ ih.1 _ hlast, ih.2.tail ((hstep _ ih.1 _).mpr ⟨_, hlast, rfl⟩)⟩
    exact (hall b hpath).2

namespace Node

/-- The node reads an element of the other one, and does not only name it. -/
def TakesFrom (n : Node) (id : NodeId) : Prop := ∃ s ∈ n.spans, s.count ≠ 0 ∧ s.source.node = id

variable {place : NodeId → NodeId} {n n' : Node}

theorem takesFrom_iff {id : NodeId} : n.TakesFrom id ↔ ¬ n.ReadsOnly (· ≠ id) := by
  simp only [TakesFrom, ReadsOnly, not_forall, not_not, exists_prop]

/-- A copy takes elements from the places of the nodes from which its source takes some. -/
theorem Matches.takesFrom (h : n.Matches (Selection.WiredBy place) n') {id' : NodeId} :
    n'.TakesFrom id' ↔ ∃ id, n.TakesFrom id ∧ place id = id' := by
  rw [takesFrom_iff, h.readsOnly]
  simp only [ReadsOnly, not_forall, not_not, exists_prop, TakesFrom]
  constructor
  · rintro ⟨s, hs, hcount, rfl⟩
    exact ⟨_, ⟨s, hs, hcount, rfl⟩, rfl⟩
  · rintro ⟨_, ⟨s, hs, hcount, rfl⟩, rfl⟩
    exact ⟨s, hs, hcount, rfl⟩

theorem spans_relabel (place : NodeId → NodeId) (n : Node) :
    (n.relabel place).spans = n.spans.map (Span.relabel place) := by
  rcases n with ⟨id, t, body, buffer⟩
  cases body <;> simp [spans, inlets, relabel, rewire, Selection.relabel]

theorem sameEdges_relabel (place : NodeId → NodeId) (n : Node) :
    n.SameEdges place (n.relabel place) := by
  refine ⟨rfl, fun id => ?_⟩
  simp only [mem_dependencies, spans_relabel, List.mem_map]
  constructor
  · rintro ⟨_, ⟨s, hs, rfl⟩, rfl⟩
    exact ⟨_, ⟨s, hs, rfl⟩, rfl⟩
  · rintro ⟨_, ⟨s, hs, rfl⟩, rfl⟩
    exact ⟨_, ⟨s, hs, rfl⟩, rfl⟩

theorem isOutput_relabel (place : NodeId → NodeId) (n : Node) :
    (n.relabel place).isOutput = n.isOutput := by
  rcases n with ⟨id, t, body, buffer⟩
  cases body <;> rfl

/-- A copy has nothing but default values, and is wired canonically. -/
theorem carries_normal (place : NodeId → NodeId) :
    Workspace.Carries place (fun _ _ n' => n'.Normal) copy := by
  intro pairs c s n hc hspans hsized hsize hplace hfresh
  obtain ⟨n', hcopied, -, hnew, hstands⟩ := copied?_carried hc hspans hsized
  refine ⟨n', copy_ok.mpr ⟨n', ?_, hstands.substitute hsize hfresh _⟩, hstands, hnew,
    copied?_canonical hc hspans hcopied⟩
  rw [← hplace]
  exact hcopied

end Node

namespace Model

/-- The node is an output node, or comes after one by such steps. -/
def Reached (m : Model) (step : NodeId → NodeId → Prop) (id : NodeId) : Prop :=
  ∃ n ∈ m.nodes, n.isOutput = true ∧ Relation.ReflTransGen step n.id id

/-- The node is an output node, or one reads elements of it, directly or through others. -/
def Used (m : Model) : NodeId → Prop :=
  m.Reached fun a b => ∃ n ∈ m.nodes, n.id = a ∧ n.TakesFrom b

variable {place : NodeId → NodeId} {m r : Model}

theorem Reached.of_output {step : NodeId → NodeId → Prop} {n : Node} (hn : n ∈ m.nodes)
    (hout : n.isOutput = true) : m.Reached step n.id :=
  ⟨n, hn, hout, .refl⟩

/-- Where output nodes are in the places of output nodes, and steps at the places of steps, what is
reached is in the place of what is. -/
theorem reached_iff {step step' : NodeId → NodeId → Prop} {inside : Set NodeId}
    (hinj : Set.InjOn place inside) (hclosed : ∀ a ∈ inside, ∀ b, step a b → b ∈ inside)
    (hstep : ∀ a ∈ inside, ∀ b', step' (place a) b' ↔ ∃ b, step a b ∧ place b = b')
    (hmarks : ∀ n ∈ m.nodes, n.isOutput = true → n.id ∈ inside)
    (houtputs : ∀ id', (∃ n' ∈ r.nodes, n'.isOutput = true ∧ n'.id = id') ↔
      ∃ n ∈ m.nodes, n.isOutput = true ∧ place n.id = id') {id : NodeId} (hid : id ∈ inside) :
    r.Reached step' (place id) ↔ m.Reached step id := by
  constructor
  · rintro ⟨n', hn', hout', hpath⟩
    obtain ⟨n, hn, hout, hplace⟩ := (houtputs n'.id).mp ⟨n', hn', hout', rfl⟩
    rw [← hplace] at hpath
    exact ⟨n, hn, hout, (reflTransGen_image hinj hclosed hstep (hmarks n hn hout) hid).mp hpath⟩
  · rintro ⟨n, hn, hout, hpath⟩
    obtain ⟨n', hn', hout', hid'⟩ := (houtputs (place n.id)).mpr ⟨n, hn, hout, rfl⟩
    have himage := (reflTransGen_image hinj hclosed hstep (hmarks n hn hout) hid).mpr hpath
    rw [← hid'] at himage
    exact ⟨n', hn', hout', himage⟩

theorem Used.live {id : NodeId} (h : m.Used id) : m.Live id := by
  obtain ⟨n, hn, hout, hpath⟩ := h
  refine ⟨n, hn, hout, Relation.ReflTransGen.mono ?_ _ _ hpath⟩
  rintro a b ⟨k, hk, rfl, s, hs, -, rfl⟩
  exact ⟨k, hk, rfl, Node.mem_dependencies.mpr ⟨s, hs, rfl⟩⟩

/-- Where no node names another one without reading an element of it, all that is live is used. -/
theorem Live.used (hsolid : ∀ n ∈ m.nodes, m.Live n.id → ∀ s ∈ n.spans, s.count ≠ 0) {id : NodeId}
    (h : m.Live id) : m.Used id := by
  obtain ⟨root, hroot, hout, hpath⟩ := h
  induction hpath with
  | refl => exact .of_output hroot hout
  | tail hbefore hlast ih =>
    obtain ⟨n, hn, rfl, hdep⟩ := hlast
    obtain ⟨s, hs, rfl⟩ := Node.mem_dependencies.mp hdep
    have hlive : m.Live n.id := ⟨root, hroot, hout, hbefore⟩
    obtain ⟨first, hfirst, hfirstOut, hused⟩ := ih
    exact ⟨first, hfirst, hfirstOut, hused.tail ⟨n, hn, rfl, s, hs, hsolid n hn hlive s hs, rfl⟩⟩

/-- In a model of normal nodes, live and used are the same. -/
theorem live_iff_used (hnormal : ∀ n ∈ m.nodes, n.Normal) {id : NodeId} :
    m.Live id ↔ m.Used id := by
  refine ⟨fun h => h.used fun n hn _ s hs => ?_, Used.live⟩
  obtain ⟨i, hi, hspan⟩ := Node.mem_spans.mp hs
  exact ((hnormal n hn).canonical i hi).solid s hspan

/-- `part` has the nodes `kept` of `m`, in their order and under other ids: all output nodes, and
with each node all that it names. -/
structure Excerpt (place : NodeId → NodeId) (kept : List Node) (m part : Model) : Prop where
  nodes : part.nodes = kept.map (Node.relabel place)
  sublist : kept.Sublist m.nodes
  closed : ∀ n ∈ kept, n.dependencies ⊆ kept.map Node.id
  outputs : ∀ n ∈ m.nodes, n.isOutput = true → n ∈ kept
  injOn : Set.InjOn place {id | id ∈ kept.map Node.id}

namespace Excerpt

variable {kept : List Node} {part : Model}

theorem mem_kept (h : Excerpt place kept m part) (hd : m.ids.Nodup) {n : Node} (hn : n ∈ m.nodes)
    (hid : n.id ∈ kept.map Node.id) : n ∈ kept := by
  obtain ⟨k, hk, hsame⟩ := List.mem_map.mp hid
  rwa [← List.inj_on_of_nodup_map hd (h.sublist.subset hk) hn hsame]

theorem closed_dependsOn (h : Excerpt place kept m part) (hd : m.ids.Nodup) {a b : NodeId}
    (ha : a ∈ kept.map Node.id) (hab : m.DependsOn a b) : b ∈ kept.map Node.id := by
  obtain ⟨n, hn, rfl, hdep⟩ := hab
  exact h.closed n (h.mem_kept hd hn ha) hdep

/-- All that is live is in an excerpt. -/
theorem mem_of_live (h : Excerpt place kept m part) (hd : m.ids.Nodup) {n : Node}
    (hn : n ∈ m.nodes) (hlive : m.Live n.id) : n ∈ kept := by
  obtain ⟨root, hroot, hout, hpath⟩ := hlive
  have hall : ∀ id, Relation.ReflTransGen m.DependsOn root.id id → id ∈ kept.map Node.id := by
    intro id hpath
    induction hpath with
    | refl => exact List.mem_map_of_mem (h.outputs root hroot hout)
    | tail _ hlast ih => exact h.closed_dependsOn hd ih hlast
  exact h.mem_kept hd hn (hall n.id hpath)

/-- What is live in an excerpt is what is live in the whole. -/
theorem live_iff (h : Excerpt place kept m part) (hd : m.ids.Nodup) {n : Node} (hn : n ∈ kept) :
    part.Live (place n.id) ↔ m.Live n.id := by
  have hnodes : ∀ n', n' ∈ part.nodes ↔ ∃ k ∈ kept, k.relabel place = n' := by
    intro n'
    rw [h.nodes, List.mem_map]
  refine reached_iff h.injOn (fun a ha b => h.closed_dependsOn hd ha) (fun a ha b' => ?_)
    (fun k hk hout => List.mem_map_of_mem (h.outputs k hk hout)) (fun id' => ?_)
    (List.mem_map_of_mem hn)
  · constructor
    · rintro ⟨n', hn', hid, hdep⟩
      obtain ⟨k, hk, rfl⟩ := (hnodes n').mp hn'
      -- a node of the excerpt is told by its place
      obtain rfl : k.id = a := h.injOn (List.mem_map_of_mem hk) ha hid
      obtain ⟨d, hd, rfl⟩ := ((k.sameEdges_relabel place).2 b').mp hdep
      exact ⟨d, ⟨k, h.sublist.subset hk, rfl, hd⟩, rfl⟩
    · rintro ⟨d, ⟨k, hk, rfl, hdep⟩, rfl⟩
      have hkept := h.mem_kept hd hk ha
      exact ⟨k.relabel place, (hnodes _).mpr ⟨k, hkept, rfl⟩, rfl,
        ((k.sameEdges_relabel place).2 _).mpr ⟨d, hdep, rfl⟩⟩
  · constructor
    · rintro ⟨n', hn', hout, rfl⟩
      obtain ⟨k, hk, rfl⟩ := (hnodes n').mp hn'
      rw [Node.isOutput_relabel] at hout
      exact ⟨k, h.sublist.subset hk, hout, rfl⟩
    · rintro ⟨k, hk, hout, rfl⟩
      exact ⟨k.relabel place, (hnodes _).mpr ⟨k, h.outputs k hk hout, rfl⟩,
        (k.isOutput_relabel place).trans hout, rfl⟩

end Excerpt

/-- `r` is what pruning makes of `m`: normal copies of what is live, in the order of `m`. -/
structure PrunedTo (place : NodeId → NodeId) (m r : Model) (pairs : List (Node × Node)) : Prop
    extends CarriedPart place m r pairs where
  listed : ∃ (ids : List NodeId) (live : NodeId → Bool), m.order = .ok ids ∧
    (∀ id, live id = true ↔ m.Live id) ∧ (pairs.map fun p => p.1.id) = ids.filter live
  order_result : r.order = .ok r.ids
  allocatable_result : r.Allocatable
  copied : ∀ p ∈ pairs, p.1.CopiedTo place p.2
  normal : ∀ n ∈ r.nodes, n.Normal

/-- Pruning gives normal nodes. -/
theorem WellFormed.prune_normal (hwf : m.WellFormed) (ha : m.Allocatable) {s s' : Supply}
    (h : m.prune.runWith s = (.ok r, s')) : ∀ n ∈ r.nodes, n.Normal := by
  obtain ⟨ids, ho⟩ := hwf.ordered
  obtain ⟨found, s₁, hsearch, hrebuild⟩ := Drawing.runWith_bind_ok.mp h
  obtain ⟨hfound, rfl⟩ := Drawing.runWith_ofExcept_ok.mp hsearch
  rw [outputs_of_order ho] at hfound
  obtain ⟨live, hlive, hmem⟩ := hwf.ancestors_outputs (outputs_of_order ho)
  obtain rfl : live = found := Except.ok.inj (hlive.symm.trans hfound)
  have hclosed : ∀ n ∈ m.nodes, live.contains n.id = true →
      ∀ d ∈ n.dependencies, live.contains d = true := by
    intro n hn hid d hd
    rw [List.contains_iff_mem, hmem] at hid ⊢
    exact hid.step hn hd
  -- the same run as `prune_copies` speaks of, seen from what each copy is like
  obtain ⟨pairs, r', hrun, hnodes, -, -, -, -, -, -, hall⟩ := rebuild_live hwf ha ho live.contains
    hclosed _ (Node.carries_normal _) fun _ _ _ _ h => h
  rw [hrun] at hrebuild
  obtain rfl := Except.ok.inj (Prod.mk.inj hrebuild).1
  intro n hn
  rw [hnodes] at hn
  obtain ⟨p, hp, rfl⟩ := List.mem_map.mp hn
  exact (hall p hp).2.2.2.2

theorem WellFormed.prune_to (hwf : m.WellFormed) (ha : m.Allocatable) (s : Supply) :
    ∃ place pairs r, m.prune.runWith s = (.ok r, ⟨s.drawn + pairs.length⟩) ∧
      PrunedTo place m r pairs := by
  obtain ⟨ids, ho⟩ := hwf.ordered
  obtain ⟨place, live, pairs, r, hrun, hlive, hpairs, horder, halloc, hpart, hcopied⟩ :=
    hwf.prune_copies ha ho s
  exact ⟨place, pairs, r, hrun,
    { hpart with
      listed := ⟨ids, live, ho, hlive, hpairs⟩
      order_result := horder
      allocatable_result := halloc
      copied := hcopied
      normal := hwf.prune_normal ha hrun }⟩

namespace PrunedTo

variable {pairs : List (Node × Node)}

/-- What is kept is what is live. -/
theorem mem_iff (h : PrunedTo place m r pairs) {id : NodeId} :
    id ∈ pairs.map (fun p => p.1.id) ↔ m.Live id := by
  obtain ⟨ids, live, ho, hlive, hpairs⟩ := h.listed
  rw [hpairs, List.mem_filter, hlive, and_iff_right_iff_imp, (order_perm ho).mem_iff]
  rintro ⟨root, hroot, -, hpath⟩
  induction hpath with
  | refl => exact mem_ids.mpr ⟨root, hroot, rfl⟩
  | tail _ hlast _ =>
    obtain ⟨n, hn, -, hdep⟩ := hlast
    exact h.wellFormed.dependencies hn hdep

/-- What is still live after pruning is what was used before. -/
theorem live_result (h : PrunedTo place m r pairs) {p : Node × Node} (hp : p ∈ pairs) :
    r.Live p.2.id ↔ m.Used p.1.id := by
  have hd := h.wellFormed.distinct
  -- the steps of the copies are those of their sources, to what is live in turn
  have hkept : ∀ n ∈ m.nodes, m.Live n.id → ∃ q ∈ pairs, q.1 = n := by
    intro n hn hlive
    obtain ⟨q, hq, hid⟩ := List.mem_map.mp (h.mem_iff.mpr hlive)
    exact ⟨q, hq, List.inj_on_of_nodup_map hd (h.source q hq) hn hid⟩
  have hinside : p.1.id ∈ pairs.map fun p => p.1.id := List.mem_map_of_mem hp
  rw [live_iff_used h.normal, (h.stands p hp).1]
  refine reached_iff h.injOn (fun a ha b hab => ?_) (fun a ha b' => ?_)
    (fun n hn hout => h.mem_iff.mpr (.of_output hn hout)) (fun id' => ?_) hinside
  · obtain ⟨n, hn, rfl, s, hs, -, rfl⟩ := hab
    exact h.mem_iff.mpr ((h.mem_iff.mp ha).step hn (Node.mem_dependencies.mpr ⟨s, hs, rfl⟩))
  · constructor
    · rintro ⟨n', hn', hid, htakes⟩
      obtain ⟨q, hq, rfl⟩ := h.exists_pair_result hn'
      rw [(h.stands q hq).1] at hid
      obtain rfl := h.injOn (List.mem_map_of_mem hq) ha hid
      obtain ⟨b, hb, rfl⟩ := (h.copied q hq).same.takesFrom.mp htakes
      exact ⟨b, ⟨q.1, h.source q hq, rfl, hb⟩, rfl⟩
    · rintro ⟨b, ⟨n, hn, rfl, htakes⟩, rfl⟩
      obtain ⟨q, hq, rfl⟩ := hkept n hn (h.mem_iff.mp ha)
      exact ⟨q.2, h.mem_result hq, (h.stands q hq).1,
        (h.copied q hq).same.takesFrom.mpr ⟨b, htakes, rfl⟩⟩
  · constructor
    · rintro ⟨n', hn', hout, rfl⟩
      obtain ⟨q, hq, rfl⟩ := h.exists_pair_result hn'
      rw [(h.isInput_eq hq).2] at hout
      exact ⟨q.1, h.source q hq, hout, (h.stands q hq).1.symm⟩
    · rintro ⟨n, hn, hout, rfl⟩
      obtain ⟨q, hq, rfl⟩ := hkept n hn (.of_output hn hout)
      exact ⟨q.2, h.mem_result hq, (h.isInput_eq hq).2.trans hout, (h.stands q hq).1⟩

/-- Of normal nodes in their own order, pruning leaves some as they are, under other ids. -/
theorem excerpt (h : PrunedTo place m r pairs) (hnormal : ∀ n ∈ m.nodes, n.Normal)
    (ho : m.order = .ok m.ids) : ∃ live : NodeId → Bool, (∀ id, live id = true ↔ m.Live id) ∧
      pairs.map Prod.fst = m.nodes.filter (fun n => live n.id) ∧
        Excerpt place (pairs.map Prod.fst) m r := by
  have hids : (pairs.map Prod.fst).map Node.id = pairs.map fun p => p.1.id := List.map_map
  have hsource : ∀ n ∈ pairs.map Prod.fst, n ∈ m.nodes := by
    intro n hn
    obtain ⟨p, hp, rfl⟩ := List.mem_map.mp hn
    exact h.source p hp
  obtain ⟨ids, live, horder, hlive, hpairs⟩ := h.listed
  obtain rfl : m.ids = ids := Except.ok.inj (ho.symm.trans horder)
  have hfilter : pairs.map Prod.fst = m.nodes.filter fun n => live n.id := by
    refine nodes_ext h.wellFormed.distinct hsource (fun n hn => (List.mem_filter.mp hn).1) ?_
    rw [hids, hpairs, ids, List.filter_map]
    rfl
  -- a normal copy of a normal node has no choice but the ids
  have hmoved : ∀ p ∈ pairs, p.2 = p.1.relabel place := by
    intro p hp
    refine (h.copied p hp).eq_relabel (hnormal p.1 (h.source p hp)) (h.normal p.2 (h.mem_result hp))
      (h.injOn.mono ?_)
    rintro _ ⟨s, hs, rfl⟩
    exact h.closed p hp (Node.mem_dependencies.mpr ⟨s, hs, rfl⟩)
  refine ⟨live, hlive, hfilter, ?_, ?_, ?_, ?_, ?_⟩
  · rw [h.nodes, List.map_map]
    exact List.map_congr_left hmoved
  · rw [hfilter]
    exact List.filter_sublist
  · intro n hn
    obtain ⟨p, hp, rfl⟩ := List.mem_map.mp hn
    rw [hids]
    exact h.closed p hp
  · intro n hn hout
    rw [hfilter]
    exact List.mem_filter.mpr ⟨hn, (hlive n.id).mpr (.of_output hn hout)⟩
  · rw [hids]
    exact h.injOn

/-- Pruning normal nodes in their own order once more: only what is live has been left. -/
theorem again (h : PrunedTo place m r pairs) {place' : NodeId → NodeId} {r' : Model}
    {pairs' : List (Node × Node)} (h' : PrunedTo place' r r' pairs') :
    ∃ live : NodeId → Bool, (∀ id, live id = true ↔ r.Live id) ∧
      r'.nodes = (r.nodes.filter fun n => live n.id).map (Node.relabel place') ∧
      Set.InjOn place' {id | r.Live id} ∧ r'.size = pairs'.length ∧
      ∀ n ∈ r'.nodes, r'.Live n.id := by
  obtain ⟨live, hlive, hkept, hexcerpt⟩ := h'.excerpt h.normal h.order_result
  refine ⟨live, hlive, by rw [hexcerpt.nodes, hkept], ?_, ?_, fun n hn => ?_⟩
  · exact h'.injOn.mono fun id hid => h'.mem_iff.mpr hid
  · rw [size, h'.nodes, List.length_map]
  · rw [hexcerpt.nodes] at hn
    obtain ⟨k, hk, rfl⟩ := List.mem_map.mp hn
    refine (hexcerpt.live_iff h.wellFormed_result.distinct hk).mpr ?_
    rw [hkept] at hk
    exact (hlive k.id).mp (List.mem_filter.mp hk).2

end PrunedTo

end Model

/-- What pruning leaves, and what pruning leaves of that. The first time, the nodes are copies of
what is live: of output nodes, and of all that these name. Still ancestors of output nodes in the
result are exactly the copies of what is used: of output nodes, and of all of which these read
elements. Those are left when the result is pruned in turn, as they are but for their ids; and that
nothing more is pruned of, however often. -/
theorem Reachable.prune_again {s₀ : Supply} {m : Model} (h : Reachable s₀ m) (ha : m.Allocatable)
    (s : Supply) :
    ∃ (place : NodeId → NodeId) (pairs : List (Node × Node)) (r : Model)
        (outputs found : List NodeId),
      m.prune.runWith s = (.ok r, ⟨s.drawn + pairs.length⟩) ∧ r.nodes = pairs.map Prod.snd ∧
      (∀ p ∈ pairs, p.1 ∈ m.nodes ∧ p.1.CopiedTo place p.2) ∧
      (∀ id, id ∈ pairs.map (fun p => p.1.id) ↔ m.Live id) ∧
      r.outputs = .ok outputs ∧ r.ancestors outputs = .ok found ∧
      (∀ p ∈ pairs, p.2.id ∈ found ↔ m.Used p.1.id) ∧
      ∀ s' : Supply, ∃ (place' : NodeId → NodeId) (r' : Model),
        r.prune.runWith s' = (.ok r', ⟨s'.drawn + r'.size⟩) ∧
        Set.InjOn place' {id | id ∈ found} ∧
        r'.nodes = (r.nodes.filter fun n => found.contains n.id).map (Node.relabel place') ∧
        ((∀ id, m.Live id → m.Used id) → r'.nodes = r.nodes.map (Node.relabel place')) ∧
        ∀ s'' : Supply, ∃ (place'' : NodeId → NodeId) (r'' : Model),
          r'.prune.runWith s'' = (.ok r'', ⟨s''.drawn + r'.size⟩) ∧
          Set.InjOn place'' {id | id ∈ r'.ids} ∧
          r''.nodes = r'.nodes.map (Node.relabel place'') := by
  obtain ⟨hwf, -⟩ := h.wellFormed
  obtain ⟨place, pairs, r, hrun, hpruned⟩ := hwf.prune_to ha s
  have houtputs := Model.outputs_of_order hpruned.order_result
  obtain ⟨found, hfound, hmem⟩ := hpruned.wellFormed_result.ancestors_outputs houtputs
  refine ⟨place, pairs, r, _, found, hrun, hpruned.nodes,
    fun p hp => ⟨hpruned.source p hp, hpruned.copied p hp⟩, fun id => hpruned.mem_iff, houtputs,
    hfound, fun p hp => (hmem p.2.id).trans (hpruned.live_result hp), fun s' => ?_⟩
  obtain ⟨place', pairs', r', hrun', hpruned'⟩ :=
    hpruned.wellFormed_result.prune_to hpruned.allocatable_result s'
  obtain ⟨live, hlive, hnodes, hinj, hsize, hall⟩ := hpruned.again hpruned'
  have hsame : ∀ id, live id = found.contains id := by
    intro id
    rw [Bool.eq_iff_iff, hlive, List.contains_iff_mem, hmem]
  simp only [hsame] at hnodes
  refine ⟨place', r', by rw [hrun', hsize], hinj.mono fun id hid => (hmem id).mp hid, hnodes,
    fun hused => ?_, fun s'' => ?_⟩
  · -- if all that is live is used, then nothing is left out
    rw [hnodes, List.filter_eq_self.mpr fun n hn => ?_]
    obtain ⟨p, hp, rfl⟩ := hpruned.exists_pair_result hn
    rw [List.contains_iff_mem, hmem, hpruned.live_result hp]
    exact hused _ (hpruned.mem_iff.mp (List.mem_map_of_mem hp))
  · obtain ⟨place'', pairs'', r'', hrun'', hpruned''⟩ :=
      hpruned'.wellFormed_result.prune_to hpruned'.allocatable_result s''
    obtain ⟨live', hlive', hnodes', hinj', hsize', -⟩ := hpruned'.again hpruned''
    rw [List.filter_eq_self.mpr fun n hn => (hlive' n.id).mpr (hall n hn)] at hnodes'
    have hlength : r''.size = r'.size := by rw [Model.size, hnodes', List.length_map, Model.size]
    refine ⟨place'', r'', by rw [hrun'', ← hlength, hsize'], hinj'.mono fun id hid => ?_, hnodes'⟩
    obtain ⟨n, hn, rfl⟩ := Model.mem_ids.mp hid
    exact hall n hn

/-- What pruning leaves of the model with a constant of which an element is read, and an input that
is only named. -/
def unusedPruned : Model :=
  ⟨[.input ⟨5⟩ .int 1, .constant ⟨6⟩ .int [(6 : Int32)],
    .output ⟨7⟩ .int (.single ⟨⟨⟨6⟩, "output"⟩, 0, 1⟩)]⟩

/-- The input is there, but is no ancestor of an output node any more, and pruning once more drops
it. -/
theorem prune_leaves_unused :
    Reachable ⟨4⟩ unusedModel ∧ unusedModel.Allocatable ∧
      unusedModel.prune.runWith ⟨4⟩ = (.ok unusedPruned, ⟨7⟩) ∧ ⟨5⟩ ∈ unusedPruned.ids ∧
        (do unusedPruned.ancestors (← unusedPruned.outputs)) = .ok [⟨6⟩, ⟨7⟩] ∧
          unusedPruned.prune.runWith ⟨7⟩ = (.ok ⟨[.constant ⟨8⟩ .int [(6 : Int32)],
            .output ⟨9⟩ .int (.single ⟨⟨⟨8⟩, "output"⟩, 0, 1⟩)]⟩, ⟨9⟩) :=
  ⟨unusedModel_reachable, by decide, rfl, by decide, rfl, rfl⟩

theorem prune_again_unusedModel :
    Reachable ⟨4⟩ unusedModel ∧ unusedModel.Allocatable ∧
      ∃ (place : NodeId → NodeId) (r' : Model),
        unusedPruned.prune.runWith ⟨7⟩ = (.ok r', ⟨9⟩) ∧
          Set.InjOn place {id | id ∈ ([⟨6⟩, ⟨7⟩] : List NodeId)} ∧
            r'.nodes = (unusedPruned.nodes.drop 1).map (Node.relabel place) := by
  have hallocatable : unusedModel.Allocatable := by decide
  obtain ⟨place, pairs, r, outputs, found, hrun, -, -, -, houtputs, hfound, -, hagain⟩ :=
    unusedModel_reachable.prune_again hallocatable ⟨4⟩
  have hsame : unusedModel.prune.runWith ⟨4⟩ = (.ok unusedPruned, ⟨7⟩) := rfl
  obtain rfl : r = unusedPruned := Except.ok.inj (Prod.mk.inj (hrun.symm.trans hsame)).1
  obtain rfl : outputs = [⟨7⟩] := (Except.ok.inj houtputs).symm
  obtain rfl : found = [⟨6⟩, ⟨7⟩] := (Except.ok.inj hfound).symm
  obtain ⟨place', r', hrun', hinj, hnodes', -⟩ := hagain ⟨7⟩
  refine ⟨unusedModel_reachable, hallocatable, place', r', ?_, hinj, hnodes'⟩
  rw [hrun', Model.size, hnodes', List.length_map]
  rfl

end FlowGraph
