import FlowGraph.Proofs.Ancestors
import FlowGraph.Proofs.Computing

/-! Computing only what a selection needs. The nodes that are left out are never read: what is
needed is closed under dependencies, so that the order of the model goes through it alone. -/
namespace FlowGraph.Model

theorem node?_computeNode {m m' : Model} {id other : NodeId} (h : m.computeNode id = .ok m')
    (hne : other ≠ id) : m'.node? other = m.node? other := by
  simp only [computeNode, bind_ok, pure_ok, node_ok] at h
  obtain ⟨n, hn, n', hcomputed, rfl⟩ := h
  obtain ⟨-, rfl⟩ := node?_eq_some hn
  have hid : n'.id = n.id := (rebuffers_computed hcomputed).sameShape.id
  rw [node?_replace hn n' hid, if_neg hne]

theorem node?_computeAll {m : Model} {ids : List NodeId} {id : NodeId} (h : id ∉ ids) :
    (m.computeAll ids).2.node? id = m.node? id := by
  induction ids generalizing m with
  | nil => rfl
  | cons first rest ih =>
    have hne : id ≠ first := fun heq => h (heq ▸ List.mem_cons_self)
    have hrest : id ∉ rest := fun hmem => h (List.mem_cons_of_mem _ hmem)
    rw [computeAll]
    cases hstep : m.computeNode first with
    | error e => rfl
    | ok m' => rw [ih hrest, node?_computeNode hstep hne]

/-- Reading from nodes that are settled gives their meaning. -/
theorem Settled.read {m m' : Model} {done : List NodeId} (h : m.Settled m' done)
    (ha : m.Allocatable) {t : ElementType} {e : Selection}
    (he : ∀ s ∈ e.spans, s.Resolves m t) (hdone : ∀ s ∈ e.spans, s.source.node ∈ done) :
    ∃ values, m'.read t e = .ok values ∧ e.pick? (m.reference t) = some values := by
  have hspans : ∀ s ∈ e.spans, s.Resolves m' t ∧ s.Fits := fun s hs =>
    ⟨h.1.resolves (he s hs), fits_of_resolves ha (he s hs)⟩
  obtain ⟨values, hread, hpick⟩ := read_eq hspans
  have hheld : ∀ s ∈ e.spans, m'.buffer? t s.source.node = m.reference t s.source.node :=
    fun s hs => h.2 _ (hdone s hs) t
  rw [Selection.pick?_congr hheld] at hpick
  exact ⟨values, hread, hpick⟩

/-- The nodes that are computed for a selection are those it needs, in the order of the model. -/
theorem WellFormed.needed_eq {m : Model} (h : m.WellFormed) {t : ElementType} {e : Selection}
    (he : ∀ s ∈ e.spans, s.Resolves m t) {ids : List NodeId} (ho : m.order = .ok ids) :
    ∃ found : List NodeId, m.needed e = .ok (ids.filter found.contains) ∧
      ∀ id, found.contains id = true ↔ m.Needs e.nodes id := by
  -- the check that comes first passes, as every span names an outlet
  have houtlets : e.spans.forM (fun s => discard (m.outlet s.source)) = .ok () := by
    refine forM_ok.mpr fun s hs => ?_
    obtain ⟨n, hn, hname, -⟩ := he s hs
    rw [outlet_ok.mpr ⟨n, hn, hname, rfl⟩]
    rfl
  have hroots : e.nodes ⊆ m.ids := by
    intro id hid
    obtain ⟨s, hs, rfl⟩ := Selection.mem_nodes.mp hid
    exact resolves_mem (he s hs)
  obtain ⟨found, hfound, hneeds⟩ := h.ancestors_eq hroots
  refine ⟨found, ?_, fun id => by simpa using hneeds id⟩
  simp only [needed, houtlets, hfound, ho]
  rfl

theorem computeSelection_snd {m : Model} {t : ElementType} {e : Selection} {ids : List NodeId}
    (h : m.needed e = .ok ids) : (m.computeSelection t e).2 = (m.computeAll ids).2 := by
  rw [computeSelection, h]
  simp only
  generalize m.computeAll ids = computed
  rcases computed with ⟨error | ⟨⟩, m'⟩
  · rfl
  · rfl

/-- What a selection does not need is left alone, however its computing ends. -/
theorem WellFormed.node?_computeSelection {m : Model} (hwf : m.WellFormed) {t : ElementType}
    {e : Selection} (he : ∀ s ∈ e.spans, s.Resolves m t) {id : NodeId}
    (hid : ¬ m.Needs e.nodes id) : (m.computeSelection t e).2.node? id = m.node? id := by
  obtain ⟨ids, ho⟩ := hwf.ordered
  obtain ⟨found, hneeded, hneeds⟩ := hwf.needed_eq he ho
  rw [computeSelection_snd hneeded]
  apply node?_computeAll
  intro hmem
  exact hid ((hneeds id).mp (List.mem_filter.mp hmem).2)

end Model

theorem split_filter {α : Type} {p : α → Bool} {xs before after : List α} {x : α}
    (h : xs.filter p = before ++ x :: after) :
    ∃ first last, xs = first ++ x :: last ∧ before = first.filter p ∧ p x = true := by
  obtain ⟨first, others, rfl, rfl, hothers⟩ := List.filter_eq_append_iff.mp h
  obtain ⟨skipped, last, rfl, hskipped, hx, -⟩ := List.filter_eq_cons_iff.mp hothers
  refine ⟨first ++ skipped, last, by simp, ?_, hx⟩
  rw [List.filter_append, List.filter_eq_nil_iff.mpr hskipped, List.append_nil]

namespace Model

/-- The two ways in which computing a selection ends. -/
theorem WellFormed.computeSelection_cases {m : Model} (hwf : m.WellFormed) (ha : m.Allocatable)
    {t : ElementType} {e : Selection} (he : ∀ s ∈ e.spans, s.Resolves m t) {ids : List NodeId}
    (ho : m.order = .ok ids) :
    (∃ values, (m.computeSelection t e).1 = .ok values ∧ e.pick? (m.reference t) = some values ∧
      ∀ n ∈ m.nodes, m.Needs e.nodes n.id → (m.reference n.type n.id).isSome) ∨
    (∃ before n after detail, (m.computeSelection t e).1 = .error (.arithmetic n.id detail) ∧
      ids = before ++ n.id :: after ∧ n ∈ m.nodes ∧ m.Needs e.nodes n.id ∧
        m.reference n.type n.id = none ∧ n.Fails (m.reference n.type) detail ∧
          ∀ k ∈ m.nodes, k.id ∈ before → m.Needs e.nodes k.id →
            (m.reference k.type k.id).isSome) := by
  obtain ⟨found, hneeded, hneeds⟩ := hwf.needed_eq he ho
  obtain ⟨-, listed, rfl, hperm, hfollows⟩ := order_ok ho
  have hmem : ∀ n ∈ listed, n ∈ m.nodes := fun n hn => hperm.mem_iff.mp hn
  have hnodup : (listed.map Node.id).Nodup := (order_perm ho).nodup_iff.mpr hwf.distinct
  have hids : (listed.map Node.id).filter found.contains =
      (listed.filter fun n => found.contains n.id).map Node.id := List.filter_map
  -- whatever a needed node reads is needed, and so comes before it among the needed ones
  have hclosed : ∀ n ∈ listed, found.contains n.id = true →
      ∀ d ∈ n.dependencies, found.contains d = true := by
    intro n hn hlive d hd
    have hneed : m.Needs e.nodes n.id := (hneeds n.id).mp hlive
    exact (hneeds d).mpr (hneed.step ⟨n, hmem n hn, rfl, hd⟩)
  have hneededFollow : Follows [] (listed.filter fun n => found.contains n.id) :=
    follows_filter hfollows hclosed
  have hneededNodup : ((listed.filter fun n => found.contains n.id).map Node.id).Nodup := by
    rw [← hids]
    exact hnodup.filter _
  have hstart : m.Settled m [] := ⟨.refl m, by simp⟩
  rw [hids] at hneeded
  rw [computeSelection, hneeded]
  rcases hstart.computeAll hwf ha (fun n hn => hmem n (List.mem_filter.mp hn).1) hneededFollow
    (by simpa using hneededNodup) with ⟨m₁, hrun, hsettled, hdefined⟩ |
      ⟨before, n, after, detail, m₁, hsplit, hrun, -, hdefined, hnone, hfails, -⟩
  · left
    -- the nodes that the selection names are needed, and settled by now
    have hdone : ∀ s ∈ e.spans, s.source.node ∈
        [] ++ (listed.filter fun n => found.contains n.id).map Node.id := by
      intro s hs
      have hroot : s.source.node ∈ e.nodes := Selection.mem_nodes.mpr ⟨s, hs, rfl⟩
      have hin : s.source.node ∈ listed.map Node.id :=
        (order_perm ho).mem_iff.mpr (resolves_mem (he s hs))
      rw [List.nil_append, ← hids]
      exact List.mem_filter.mpr ⟨hin, (hneeds _).mpr (needs_root hroot)⟩
    obtain ⟨values, hread, hpick⟩ := hsettled.read ha he hdone
    refine ⟨values, by simp only [hrun, hread], hpick, fun n hn hneed => ?_⟩
    exact hdefined n (List.mem_filter.mpr ⟨hperm.mem_iff.mpr hn, (hneeds n.id).mpr hneed⟩)
  · right
    obtain ⟨first, last, hlisted, rfl, hlive⟩ := split_filter hsplit
    have hn : n ∈ m.nodes := hmem n (by simp [hlisted])
    refine ⟨first.map Node.id, n, last.map Node.id, detail, by simp only [hrun], by simp [hlisted],
      hn, (hneeds n.id).mp hlive, hnone, hfails, fun k hk hbefore hneed => ?_⟩
    -- the id names one node only, the one that was listed
    obtain ⟨k', hk', hid⟩ := List.mem_map.mp hbefore
    obtain rfl : k' = k := List.inj_on_of_nodup_map hwf.distinct
      (hmem k' (by simp [hlisted, hk'])) hk hid
    exact hdefined k' (List.mem_filter.mpr ⟨hk', (hneeds k'.id).mpr hneed⟩)

end Model

/-- Computing a selection agrees with computing the whole model, and touches only what it needs. It
succeeds exactly if everything that it needs has a value, and gives the values at its elements,
which are those that are read after the whole model was computed. However it ends, no buffer
changes but of nodes that are needed, and the error is that of the first of these in the order
without a value. -/
theorem Reachable.computeSelection_eq_reference {s : Supply} {m : Model} (h : Reachable s m)
    (ha : m.Allocatable) {t : ElementType} {e : Selection}
    (he : ∀ s ∈ e.spans, s.Resolves m t) :
    ∃ ids m₁, m.order = .ok ids ∧ (m.computeSelection t e).2 = m₁ ∧ m.Rebuffers m₁ ∧
      (∀ id, ¬ m.Needs e.nodes id → m₁.node? id = m.node? id) ∧
      ((∃ values, (m.computeSelection t e).1 = .ok values) ↔
        ∀ n ∈ m.nodes, m.Needs e.nodes n.id → (m.reference n.type n.id).isSome) ∧
      (∀ values, (m.computeSelection t e).1 = .ok values →
        e.pick? (m.reference t) = some values) ∧
      (m.compute.1 = .ok () → ∃ values, (m.computeSelection t e).1 = .ok values ∧
        m.compute.2.read t e = .ok values) ∧
      ∀ error, (m.computeSelection t e).1 = .error error → ∃ before n after detail,
        ids = before ++ n.id :: after ∧ n ∈ m.nodes ∧ m.Needs e.nodes n.id ∧
          error = .arithmetic n.id detail ∧ m.reference n.type n.id = none ∧
            n.Fails (m.reference n.type) detail ∧
              ∀ k ∈ m.nodes, k.id ∈ before → m.Needs e.nodes k.id →
                (m.reference k.type k.id).isSome := by
  obtain ⟨hwf, -⟩ := h.wellFormed
  obtain ⟨ids, ho⟩ := hwf.ordered
  refine ⟨ids, _, ho, rfl, Model.rebuffers_computeSelection hwf.distinct t e,
    fun id hid => hwf.node?_computeSelection he hid, ?_⟩
  rcases hwf.computeSelection_cases ha he ho with ⟨values, hvalues, hpick, hdefined⟩ |
    ⟨before, n, after, detail, herror, hids, hn, hneed, hnone, hfails, hbefore⟩
  · rw [hvalues]
    refine ⟨⟨fun _ => hdefined, fun _ => ⟨values, rfl⟩⟩, ?_, ?_, ?_⟩
    · intro other hother
      rw [← Except.ok.inj hother, hpick]
    · -- both ways of computing have settled the nodes that the selection reads
      intro hcompute
      refine ⟨values, rfl, ?_⟩
      rcases hwf.compute_cases ha (.refl m) ho with ⟨m₁, hrun, hsettled, -⟩ |
        ⟨_, _, _, _, _, _, _, hrun, -⟩
      · have hdone : ∀ s ∈ e.spans, s.source.node ∈ ids := fun s hs =>
          (Model.order_perm ho).mem_iff.mpr (Model.resolves_mem (he s hs))
        obtain ⟨others, hread, hothers⟩ := hsettled.read ha he hdone
        rw [hpick, Option.some.injEq] at hothers
        rw [hrun, hread, hothers]
      · rw [hrun] at hcompute
        cases hcompute
    · intro error herror
      cases herror
  · rw [herror]
    -- a node that is needed has no value, which rules out every success
    have hundefined : ¬ ∀ k ∈ m.nodes, m.Needs e.nodes k.id → (m.reference k.type k.id).isSome := by
      intro hall
      have hsome := hall n hn hneed
      rw [hnone] at hsome
      cases hsome
    refine ⟨⟨fun hok => ?_, fun hall => absurd hall hundefined⟩, ?_, ?_, ?_⟩
    · obtain ⟨values, hok⟩ := hok
      cases hok
    · intro values hok
      cases hok
    · intro hcompute
      rcases hwf.compute_cases ha (.refl m) ho with ⟨m₁, -, -, hall⟩ |
        ⟨_, _, _, _, _, _, _, hrun, -⟩
      · exact absurd (fun k hk _ => hall k hk) hundefined
      · rw [hrun] at hcompute
        cases hcompute
    · intro error hsame
      obtain rfl := Except.error.inj hsame
      exact ⟨before, n, after, detail, hids, hn, hneed, rfl, hnone, hfails, hbefore⟩

/-- A constant, and no element of a quotient that depends on it. -/
def constantAndNoQuotient : Selection :=
  ⟨[⟨⟨⟨2⟩, "output"⟩, 0, 1⟩, ⟨⟨⟨3⟩, "output"⟩, 1, 0⟩]⟩

theorem computeSelection_eq_reference_constantAndNoQuotient :
    Reachable ⟨4⟩ quotientModel ∧ quotientModel.Allocatable ∧
      (∀ s ∈ constantAndNoQuotient.spans, s.Resolves quotientModel .int) ∧
        ((∃ values, (quotientModel.computeSelection .int constantAndNoQuotient).1 = .ok values) ↔
          ∀ n ∈ quotientModel.nodes, quotientModel.Needs constantAndNoQuotient.nodes n.id →
            (quotientModel.reference n.type n.id).isSome) := by
  have hresolves : ∀ s ∈ constantAndNoQuotient.spans, s.Resolves quotientModel .int := by
    intro s hs
    simp only [constantAndNoQuotient, List.mem_cons, List.not_mem_nil, or_false] at hs
    rcases hs with rfl | rfl
    · exact ⟨quotientModel.nodes[1], rfl, rfl, rfl, by decide⟩
    · exact ⟨quotientModel.nodes[2], rfl, rfl, rfl, by decide⟩
  obtain ⟨_, _, -, -, -, -, hiff, -⟩ := quotientModel_reachable.computeSelection_eq_reference
    quotientModel_allocatable hresolves
  exact ⟨quotientModel_reachable, quotientModel_allocatable, hresolves, hiff⟩

/-- The constant alone can be computed, though the quotient fails. -/
example : (quotientModel.computeSelection .int (.single ⟨⟨⟨2⟩, "output"⟩, 0, 1⟩)).1 =
    .ok [(6 : Int32)] := by rfl

end FlowGraph
