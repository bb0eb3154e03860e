import FlowGraph.Proofs.Cycles
import FlowGraph.Proofs.Insertion

/-! What counting finds is the order of the model, and no count falls below zero on the way. -/
namespace FlowGraph

theorem nodup_eraseDups {α : Type} [DecidableEq α] (xs : List α) : xs.eraseDups.Nodup := by
  induction hlength : xs.length using Nat.strong_induction_on generalizing xs with
  | _ length ih =>
    cases xs with
    | nil => exact List.nodup_nil
    | cons a rest =>
      have hless : (rest.filter fun b => !b == a).length < length := by
        rw [← hlength, List.length_cons]
        exact Nat.lt_succ_of_le (List.length_filter_le _ _)
      rw [List.eraseDups_cons, List.nodup_cons]
      exact ⟨by simp [List.mem_eraseDups], ih _ hless _ rfl⟩

/-- Of different elements, one less is left out of `known` when one more is known. -/
theorem countP_not_mem_append {α : Type} [DecidableEq α] {xs known : List α} {a : α}
    (hd : xs.Nodup) (ha : a ∉ known) :
    xs.countP (· ∉ known) = xs.countP (· ∉ known ++ [a]) + if a ∈ xs then 1 else 0 := by
  induction xs with
  | nil => rfl
  | cons b rest ih =>
    obtain ⟨hb, hrest⟩ := List.nodup_cons.mp hd
    rw [List.countP_cons, List.countP_cons, ih hrest]
    by_cases hab : a = b
    · subst hab
      simp [ha, hb]
    · have hba : ¬ b = a := fun h => hab h.symm
      have hsame : b ∉ known ++ [a] ↔ b ∉ known := by simp [hba]
      simp only [hsame, List.mem_cons, hab, false_or]
      omega

theorem countP_not_mem_eq_zero {α : Type} [DecidableEq α] {xs known : List α} :
    xs.countP (· ∉ known) = 0 ↔ xs ⊆ known := by
  rw [List.countP_eq_zero]
  simp [List.subset_def]

namespace Model

variable {m : Model} {done ids : List NodeId} {n : Node}

theorem mem_links {i : Nat} {d : NodeId} :
    (i, d) ∈ m.links ↔ ∃ n, m.nodes[i]? = some n ∧ d ∈ n.dependencies := by
  simp only [links, List.mem_flatMap, List.mem_map, Prod.mk.injEq, Prod.exists,
    List.mem_zipIdx_iff_getElem?]
  constructor
  · intro h
    obtain ⟨n, j, hn, e, he, rfl, rfl⟩ := h
    exact ⟨n, hn, he⟩
  · intro h
    obtain ⟨n, hn, hd⟩ := h
    exact ⟨n, i, hn, d, hd, rfl, rfl⟩

theorem nodup_dependencies (n : Node) : n.dependencies.Nodup := nodup_eraseDups _

theorem nodup_links (m : Model) : m.links.Nodup := by
  rw [links, List.nodup_flatMap]
  constructor
  · intro p _
    exact (nodup_dependencies p.1).map fun _ _ h => (Prod.mk.inj h).2
  · -- links of different nodes are at different positions
    have hpositions : (m.nodes.zipIdx.map Prod.snd).Nodup := by
      rw [List.zipIdx_map_snd]
      exact List.nodup_range'
    refine (List.pairwise_map.mp hpositions).imp fun {p q} hne => ?_
    rw [Function.onFun, List.disjoint_left]
    intro a ha hb
    obtain ⟨_, -, rfl⟩ := List.mem_map.mp ha
    obtain ⟨_, -, h⟩ := List.mem_map.mp hb
    exact hne (Prod.mk.inj h).1.symm

/-- All links are entered, unless one leads out of the model. -/
theorem foldlM_enter (links : List (Nat × NodeId)) (t : Tally) :
    links.foldlM m.enter t =
      match (links.map Prod.snd).find? fun d => (m.index d).isNone with
      | some d => .error (.unknownNode d)
      | none => .ok
        { waiting := fun i => t.waiting i + links.countP (·.1 = i)
          readers := fun j => t.readers j ++
            (links.filter fun p => m.index p.2 = some j).map Prod.fst } := by
  induction links generalizing t with
  | nil => simp [pure, Except.pure]
  | cons p rest ih =>
    obtain ⟨i, d⟩ := p
    rw [List.foldlM_cons, List.map_cons]
    cases hindex : m.index d with
    | none => simp [enter, hindex, bind, Except.bind]
    | some j =>
      rw [List.find?_cons_of_neg (by simp [hindex])]
      have hentered : m.enter t (i, d) = .ok (t.link i j) := by simp only [enter, hindex]
      rw [hentered]
      change rest.foldlM m.enter (t.link i j) = _
      rw [ih]
      -- what was entered for this link is what it adds to the sums
      have hwaiting (k : Nat) : (t.link i j).waiting k + rest.countP (·.1 = k) =
          t.waiting k + ((i, d) :: rest).countP (·.1 = k) := by
        by_cases hk : k = i
        · subst hk
          simp only [Tally.link, Function.update_self, List.countP_cons, decide_true, if_true]
          omega
        · simp [Tally.link, Function.update_of_ne hk, Ne.symm hk]
      have hreaders (k : Nat) : (t.link i j).readers k ++
            (rest.filter fun p => m.index p.2 = some k).map Prod.fst =
          t.readers k ++ (((i, d) :: rest).filter fun p => m.index p.2 = some k).map Prod.fst := by
        by_cases hk : k = j
        · subst hk
          simp [Tally.link, hindex]
        · simp [Tally.link, Function.update_of_ne hk, hindex, Ne.symm hk]
      simp only [hwaiting, hreaders]

theorem index_isNone (hd : m.ids.Nodup) (id : NodeId) : (m.index id).isNone = !m.contains id := by
  rw [Bool.eq_iff_iff, Option.isNone_iff_eq_none, Bool.not_eq_true', contains_eq_false]
  constructor
  · intro hnone hmem
    obtain ⟨k, hk⟩ := List.mem_iff_getElem?.mp hmem
    rw [(index_eq_some hd).mpr hk] at hnone
    cases hnone
  · intro hnot
    by_contra hsome
    obtain ⟨k, hk⟩ := Option.ne_none_iff_exists'.mp hsome
    exact hnot (List.mem_of_getElem? ((index_eq_some hd).mp hk))

theorem map_snd_links (m : Model) : m.links.map Prod.snd = m.nodes.flatMap Node.dependencies := by
  have hnode : ∀ p : Node × Nat, (p.1.dependencies.map (p.2, ·)).map Prod.snd =
      p.1.dependencies := by simp [Function.comp_def]
  conv_rhs => rw [← List.zipIdx_map_fst 0 m.nodes, List.flatMap_map]
  rw [links, List.map_flatMap]
  exact List.flatMap_congr fun p _ => hnode p

/-- What the tally says of a model: each node waits for all it depends on, and is known, once, to
each of them. -/
structure Tally.Counts (m : Model) (t : Tally) : Prop where
  waiting : ∀ {i n}, m.nodes[i]? = some n → t.waiting i = n.dependencies.length
  nodup : ∀ j, (t.readers j).Nodup
  mem_readers : ∀ {i j n}, m.nodes[j]? = some n →
    (i ∈ t.readers j ↔ ∃ r, m.nodes[i]? = some r ∧ n.id ∈ r.dependencies)

/-- The tally in which all links of a model are entered. -/
def linked (m : Model) : Tally where
  waiting i := m.links.countP (·.1 = i)
  readers j := (m.links.filter fun p => m.index p.2 = some j).map Prod.fst

theorem tally_eq (hd : m.ids.Nodup) :
    m.tally = match m.missing? with
      | some d => .error (.unknownNode d)
      | none => .ok m.linked := by
  have hmissing : ((m.links.map Prod.snd).find? fun d => (m.index d).isNone) = m.missing? := by
    rw [map_snd_links, missing?]
    simp only [index_isNone hd]
  rw [tally, foldlM_enter, hmissing]
  simp only [Nat.zero_add, List.nil_append, linked]

theorem linked_counts (hd : m.ids.Nodup) : m.linked.Counts m where
  waiting {i n} hn := by
    -- the links at a position are those of the node there
    have hperm : (m.links.filter (·.1 = i)).Perm (n.dependencies.map (i, ·)) := by
      refine (List.perm_ext_iff_of_nodup ((nodup_links m).filter _)
        ((nodup_dependencies n).map fun _ _ h => (Prod.mk.inj h).2)).mpr fun p => ?_
      obtain ⟨j, d⟩ := p
      rw [List.mem_filter, mem_links, decide_eq_true_eq, List.mem_map]
      constructor
      · intro h
        obtain ⟨⟨k, hk, hdep⟩, rfl⟩ := h
        obtain rfl := Option.some.inj (hn.symm.trans hk)
        exact ⟨d, hdep, rfl⟩
      · intro h
        obtain ⟨e, he, hpair⟩ := h
        obtain ⟨rfl, rfl⟩ := Prod.mk.inj hpair
        exact ⟨⟨n, hn, he⟩, rfl⟩
    calc m.links.countP (·.1 = i)
        = (m.links.filter (·.1 = i)).length := List.countP_eq_length_filter
      _ = (n.dependencies.map (i, ·)).length := hperm.length_eq
      _ = n.dependencies.length := List.length_map _
  nodup j := by
    refine ((nodup_links m).filter _).map_on ?_
    intro p hp q hq heq
    -- one id is at the position that is read from
    have hp' : m.index p.2 = some j := by simpa using (List.mem_filter.mp hp).2
    have hq' : m.index q.2 = some j := by simpa using (List.mem_filter.mp hq).2
    rw [index_eq_some hd] at hp' hq'
    exact Prod.ext heq (Option.some.inj (hp'.symm.trans hq'))
  mem_readers {i j n} hn := by
    have hid : m.ids[j]? = some n.id := by rw [ids, List.getElem?_map, hn, Option.map_some]
    rw [linked, List.mem_map]
    constructor
    · intro h
      obtain ⟨⟨k, d⟩, hp, rfl⟩ := h
      obtain ⟨hlink, hindex⟩ := List.mem_filter.mp hp
      rw [decide_eq_true_eq, index_eq_some hd, hid] at hindex
      obtain rfl := Option.some.inj hindex
      exact mem_links.mp hlink
    · intro h
      refine ⟨(i, n.id), List.mem_filter.mpr ⟨mem_links.mpr h, ?_⟩, rfl⟩
      rw [decide_eq_true_eq]
      exact (index_eq_some hd).mpr hid

/-- Where the ordering stands after `done`: how many of its dependencies each node still waits for,
and which nodes can be listed, each once. -/
structure Queue.Stands (m : Model) (done : List NodeId) (q : Queue) : Prop where
  waiting : ∀ {i n}, m.nodes[i]? = some n → q.waiting i = n.dependencies.countP (· ∉ done)
  nodup : q.ready.Nodup
  mem_ready : ∀ i, i ∈ q.ready ↔
    ∃ n, m.nodes[i]? = some n ∧ n.id ∉ done ∧ n.dependencies ⊆ done
  closed : ∀ n ∈ m.nodes, n.id ∈ done → n.dependencies ⊆ done

/-- Different nodes that wait for some each wait for one less, and those that waited for one only
become ready. -/
theorem foldlM_release {ks : List Nat} (hd : ks.Nodup) {q : Queue}
    (hwaits : ∀ k ∈ ks, q.waiting k ≠ 0) :
    ks.foldlM Queue.release q = some
      { waiting := fun k => if k ∈ ks then q.waiting k - 1 else q.waiting k
        ready := (ks.filter (q.waiting · = 1)).reverse ++ q.ready } := by
  induction ks generalizing q with
  | nil => simp
  | cons k rest ih =>
    obtain ⟨hk, hrest⟩ := List.nodup_cons.mp hd
    have hwait := hwaits k List.mem_cons_self
    let left := q.waiting k - 1
    let ready := if left = 0 then k :: q.ready else q.ready
    have hrelease : q.release k = some ⟨Function.update q.waiting k left, ready⟩ := by
      rw [Queue.release, if_neg hwait]
    -- the others still wait for as many
    have hother : ∀ j ∈ rest, Function.update q.waiting k left j = q.waiting j := by
      intro j hj
      have hne : j ≠ k := fun heq => hk (heq ▸ hj)
      exact Function.update_of_ne hne _ _
    have hothers : ∀ j ∈ rest, Function.update q.waiting k left j ≠ 0 := by
      intro j hj
      rw [hother j hj]
      exact hwaits j (List.mem_cons_of_mem _ hj)
    rw [List.foldlM_cons, hrelease]
    change rest.foldlM Queue.release ⟨Function.update q.waiting k left, ready⟩ = _
    rw [ih hrest hothers, Option.some.injEq, Queue.mk.injEq]
    constructor
    · funext j
      by_cases hj : j = k
      · subst hj
        simp [hk, left]
      · simp [hj]
    · have hfilter : rest.filter (Function.update q.waiting k left · = 1) =
          rest.filter (q.waiting · = 1) := List.filter_congr fun j hj => by rw [hother j hj]
      rw [hfilter]
      by_cases hone : q.waiting k = 1
      · simp [ready, left, hone]
      · have hleft : left ≠ 0 := by omega
        simp [ready, hleft, hone]

namespace Queue.Stands

variable {q : Queue}

theorem waiting_eq_zero (h : q.Stands m done) {i : Nat} (hn : m.nodes[i]? = some n) :
    q.waiting i = 0 ↔ n.dependencies ⊆ done := by
  rw [h.waiting hn, countP_not_mem_eq_zero]

/-- When no node is ready, nothing comes next. -/
theorem next?_eq_none (h : q.Stands m done) (hempty : q.ready.min? = none) :
    m.next? done = none := by
  rw [Model.next?_eq_none]
  intro n hn hnew hready
  obtain ⟨i, hi⟩ := List.mem_iff_getElem?.mp hn
  have hmem := (h.mem_ready i).mpr ⟨n, hi, hnew, hready⟩
  rw [List.min?_eq_none_iff.mp hempty] at hmem
  cases hmem

/-- The first node that is ready comes next. -/
theorem next?_eq_some (h : q.Stands m done) {i : Nat} (hmin : q.ready.min? = some i) :
    ∃ n, m.nodes[i]? = some n ∧ m.next? done = some n := by
  obtain ⟨hmem, hleast⟩ := List.min?_eq_some_iff.mp hmin
  obtain ⟨n, hn, hnew, hready⟩ := (h.mem_ready i).mp hmem
  obtain ⟨hi, hget⟩ := List.getElem?_eq_some_iff.mp hn
  refine ⟨n, hn, List.find?_eq_some_iff_getElem.mpr ⟨?_, i, hi, hget, fun j hj => ?_⟩⟩
  · simpa [isReady_iff] using And.intro hnew hready
  · -- a node before it that could be listed would be ready, but none is before the least
    by_contra hcan
    have hboth : m.nodes[j].id ∉ done ∧ m.nodes[j].dependencies ⊆ done := by
      simpa [isReady_iff] using hcan
    have hnode : m.nodes[j]? = some m.nodes[j] := List.getElem?_eq_getElem _
    have hbefore := hleast j ((h.mem_ready j).mpr ⟨_, hnode, hboth⟩)
    omega

/-- One step: the node that comes next is listed, no count falls below zero, and the counts are
those of the longer list. -/
theorem step {t : Tally} (ht : t.Counts m) (hd : m.ids.Nodup) (h : q.Stands m done) {i : Nat}
    (hmin : q.ready.min? = some i) (hn : m.nodes[i]? = some n) :
    ∃ q', (t.readers i).foldlM Queue.release { q with ready := q.ready.erase i } = some q' ∧
      q'.Stands m (done ++ [n.id]) := by
  have hmem : i ∈ q.ready := (List.min?_eq_some_iff.mp hmin).1
  obtain ⟨n', hn', hnew, hready⟩ := (h.mem_ready i).mp hmem
  obtain rfl := Option.some.inj (hn.symm.trans hn')
  have hposition {k : Nat} {r : Node} (hr : m.nodes[k]? = some r) (hsame : r.id = n.id) :
      k = i := by
    have hk : m.index n.id = some k := by
      rw [index_eq_some hd, ids, List.getElem?_map, hr, Option.map_some, hsame]
    have hi : m.index n.id = some i := by
      rw [index_eq_some hd, ids, List.getElem?_map, hn, Option.map_some]
    exact Option.some.inj (hk.symm.trans hi)
  have hreader {k : Nat} {r : Node} (hr : m.nodes[k]? = some r) :
      k ∈ t.readers i ↔ n.id ∈ r.dependencies := by
    rw [ht.mem_readers hn, hr]
    simp
  have hwaits : ∀ k ∈ t.readers i, q.waiting k ≠ 0 := by
    intro k hk hzero
    obtain ⟨r, hr, hdep⟩ := (ht.mem_readers hn).mp hk
    exact hnew ((h.waiting_eq_zero hr).mp hzero hdep)
  -- who reads from the node can not be listed yet, nor be the node itself
  have hunlisted : ∀ r ∈ m.nodes, n.id ∈ r.dependencies → r.id ∉ done ++ [n.id] := by
    intro r hr hdep hmem
    rcases List.mem_append.mp hmem with hdone | hself
    · exact hnew (h.closed r hr hdone hdep)
    · obtain rfl := List.inj_on_of_nodup_map hd hr (List.mem_of_getElem? hn)
        (List.mem_singleton.mp hself)
      exact hnew (hready hdep)
  have hwaiting {k : Nat} {r : Node} (hr : m.nodes[k]? = some r) :
      (if k ∈ t.readers i then q.waiting k - 1 else q.waiting k) =
        r.dependencies.countP (· ∉ done ++ [n.id]) := by
    have hcount := countP_not_mem_append (nodup_dependencies r) hnew
    rw [h.waiting hr, hcount]
    simp only [hreader hr]
    split <;> omega
  refine ⟨_, foldlM_release (ht.nodup i) hwaits, hwaiting, ?_, fun k => ?_, ?_⟩
  · rw [List.nodup_append]
    refine ⟨List.nodup_reverse.mpr ((ht.nodup i).filter _), h.nodup.erase i, ?_⟩
    rintro k hk _ hk' rfl
    obtain ⟨r, hr, -, hsub⟩ := (h.mem_ready k).mp (List.mem_of_mem_erase hk')
    have hzero := (h.waiting_eq_zero hr).mpr hsub
    have hone : q.waiting k = 1 := by simpa using (List.mem_filter.mp (List.mem_reverse.mp hk)).2
    omega
  · rw [List.mem_append, List.mem_reverse, List.mem_filter, h.nodup.mem_erase_iff, h.mem_ready]
    constructor
    · intro hk
      rcases hk with ⟨hk, hone⟩ | ⟨hne, r, hr, hfresh, hsub⟩
      · -- what waited for this node only
        obtain ⟨r, hr, hdep⟩ := (ht.mem_readers hn).mp hk
        refine ⟨r, hr, hunlisted r (List.mem_of_getElem? hr) hdep, ?_⟩
        rw [decide_eq_true_eq] at hone
        rw [← countP_not_mem_eq_zero, ← hwaiting hr, if_pos hk, hone]
      · refine ⟨r, hr, ?_, List.Subset.trans hsub (List.subset_append_left _ _)⟩
        rw [List.mem_append, not_or, List.mem_singleton]
        exact ⟨hfresh, fun hsame => hne (hposition hr hsame)⟩
    · intro hk
      obtain ⟨r, hr, hfresh, hsub⟩ := hk
      by_cases hdep : n.id ∈ r.dependencies
      · have hk := (hreader hr).mpr hdep
        have hleft := hwaiting hr
        rw [if_pos hk, countP_not_mem_eq_zero.mpr hsub] at hleft
        have hwait := hwaits k hk
        have hone : q.waiting k = 1 := by omega
        exact .inl ⟨hk, decide_eq_true hone⟩
      · -- what could be listed before
        rw [List.mem_append, not_or, List.mem_singleton] at hfresh
        refine .inr ⟨?_, r, hr, hfresh.1, fun d hd => ?_⟩
        · rintro rfl
          exact hfresh.2 (congrArg Node.id (Option.some.inj (hr.symm.trans hn)))
        · have hd' := hsub hd
          rw [List.mem_append, List.mem_singleton] at hd'
          exact hd'.resolve_right fun heq => hdep (heq ▸ hd)
  · intro r hr hmem
    refine List.Subset.trans ?_ (List.subset_append_left _ _)
    rcases List.mem_append.mp hmem with hdone | hself
    · exact h.closed r hr hdone
    · obtain rfl := List.inj_on_of_nodup_map hd hr (List.mem_of_getElem? hn)
        (List.mem_singleton.mp hself)
      exact hready

end Queue.Stands

/-- The whole run, by induction on the steps, of which there are enough for all nodes that are not
listed yet: the listing is found, and no count falls below zero. -/
theorem drain_listing {t : Tally} (ht : t.Counts m) (hd : m.ids.Nodup) (steps : Nat) {q : Queue}
    (h : q.Stands m done) (hsteps : (m.unlisted done).length ≤ steps) :
    ∃ rest q', m.Listing done rest ∧ m.drain t.readers steps done q = some (done ++ rest, q') ∧
      q'.Stands m (done ++ rest) := by
  induction steps generalizing done q with
  | zero =>
    have hunlisted : m.unlisted done = [] := List.eq_nil_of_length_eq_zero (by omega)
    have hnone : m.next? done = none := by
      rw [← find?_unlisted, hunlisted]
      rfl
    have hready : q.ready = [] := by
      cases hmin : q.ready.min? with
      | none => exact List.min?_eq_none_iff.mp hmin
      | some i =>
        obtain ⟨n, -, hnext⟩ := h.next?_eq_some hmin
        rw [hnone] at hnext
        cases hnext
    exact ⟨[], q, .stop hnone, by simp [drain, hready], by rwa [List.append_nil]⟩
  | succ steps ih =>
    cases hmin : q.ready.min? with
    | none =>
      exact ⟨[], q, .stop (h.next?_eq_none hmin), by simp [drain, hmin], by rwa [List.append_nil]⟩
    | some i =>
      obtain ⟨n, hn, hnext⟩ := h.next?_eq_some hmin
      obtain ⟨q₁, hrelease, hstands⟩ := h.step ht hd hmin hn
      have hfewer : (m.unlisted (done ++ [n.id])).length ≤ steps := by
        have hfound : (m.unlisted done).find? (isReady done) = some n := by rwa [find?_unlisted]
        have hless := (find?_eraseP_perm hfound).length_eq
        rw [List.length_cons, eraseP_unlisted hd hnext] at hless
        omega
      obtain ⟨rest, q', hrest, hrun, hend⟩ := ih hstands hfewer
      refine ⟨n.id :: rest, q', .step hnext hrest, ?_, ?_⟩
      · simp only [drain, hmin, hn, hrelease, Option.bind_eq_bind, Option.bind_some, hrun,
          List.append_assoc, List.singleton_append]
      · rwa [List.append_assoc, List.singleton_append] at hend

/-- A listing is as long as the model unless something is not listed. -/
theorem Listing.length_lt_iff (h : m.Listing [] ids) (hd : m.ids.Nodup) :
    ids.length < m.size ↔ m.unlisted ids ≠ [] := by
  have hnodup : ids.Nodup := by simpa using h.nodup List.nodup_nil
  have hsub : ids ⊆ m.ids := by
    intro id hid
    obtain ⟨k, hk, rfl⟩ := List.mem_iff_getElem.mp hid
    obtain ⟨n, hnext, hkey⟩ := h.next?_take hk
    exact Model.mem_ids.mpr ⟨n, (next?_spec hnext).1, hkey⟩
  rw [← length_ids]
  constructor
  · intro hless hempty
    have hall : m.ids ⊆ ids := by
      intro id hid
      obtain ⟨n, hn, rfl⟩ := Model.mem_ids.mp hid
      by_contra hnot
      have hmem : n ∈ m.unlisted ids := mem_unlisted.mpr ⟨hn, hnot⟩
      rw [hempty] at hmem
      cases hmem
    have hle := (List.Nodup.subperm hd hall).length_le
    omega
  · intro hne
    obtain ⟨n, hn⟩ := List.exists_mem_of_ne_nil _ hne
    obtain ⟨hnode, hnot⟩ := mem_unlisted.mp hn
    -- the ids with one that is not listed are still ids of the model
    have hmore : (n.id :: ids).Subperm m.ids := List.Nodup.subperm
      (List.nodup_cons.mpr ⟨hnot, hnodup⟩)
      (List.cons_subset.mpr ⟨Model.mem_ids.mpr ⟨n, hnode, rfl⟩, hsub⟩)
    exact hmore.length_le

/-- In the end, those that still wait for something are those that are not listed. -/
theorem Listing.stuck_eq (h : m.Listing [] ids) (hd : m.ids.Nodup) {q : Queue}
    (hq : q.Stands m ids) : q.stuck m = (m.unlisted ids).map Node.id := by
  have hwaiting : ∀ p ∈ m.nodes.zipIdx, decide (0 < q.waiting p.2) = !ids.contains p.1.id := by
    intro p hp
    have hn : m.nodes[p.2]? = some p.1 := List.mem_zipIdx_iff_getElem?.mp hp
    have hnode : p.1 ∈ m.nodes := List.mem_of_getElem? hn
    rw [Bool.eq_iff_iff, decide_eq_true_eq, Nat.pos_iff_ne_zero, ne_eq, hq.waiting_eq_zero hn,
      Bool.not_eq_true', List.contains_eq_mem, decide_eq_false_iff_not, not_iff_not]
    constructor
    · intro hready
      by_contra hnot
      obtain ⟨d, hdep, hmissing⟩ := h.waits hnode hnot
      exact hmissing (hready hdep)
    · intro hlisted d hdep
      exact (h.idxOf_lt hd hnode hlisted hdep).1
  have hnodes : m.nodes = m.nodes.zipIdx.map Prod.fst := (List.zipIdx_map_fst 0 m.nodes).symm
  rw [Queue.stuck, List.filter_congr hwaiting, unlisted]
  conv_rhs => rw [hnodes, List.filter_map, List.map_map]
  rfl

/-- At the start every node waits for all it depends on. -/
theorem Tally.Counts.stands {t : Tally} (ht : t.Counts m) : (t.queue m).Stands m [] := by
  have hwaiting {i : Nat} {n : Node} (hn : m.nodes[i]? = some n) :
      t.waiting i = n.dependencies.countP (· ∉ ([] : List NodeId)) := by
    rw [ht.waiting hn]
    simp
  refine ⟨hwaiting, List.nodup_range.filter _, fun i => ?_, by simp⟩
  rw [Tally.queue, List.mem_filter, List.mem_range, decide_eq_true_eq]
  constructor
  · intro h
    obtain ⟨hi, hzero⟩ := h
    have hn : m.nodes[i]? = some m.nodes[i] := List.getElem?_eq_getElem hi
    rw [hwaiting hn, countP_not_mem_eq_zero] at hzero
    exact ⟨_, hn, List.not_mem_nil, hzero⟩
  · intro h
    obtain ⟨n, hn, -, hsub⟩ := h
    rw [hwaiting hn, countP_not_mem_eq_zero]
    exact ⟨(List.getElem?_eq_some_iff.mp hn).1, hsub⟩

/-- Counting finds the order of a model, or what is wrong with it. -/
theorem countedOrder_eq (hd : m.ids.Nodup) : m.countedOrder = some m.order := by
  rw [countedOrder, tally_eq hd]
  cases hmissing : m.missing? with
  | some d => simp only [order, hmissing]
  | none =>
    have hcounts := linked_counts hd
    have hsize : (m.unlisted []).length ≤ m.size := by rw [unlisted_nil, size]
    obtain ⟨ids, q, hlisting, hrun, hend⟩ := drain_listing hcounts hd m.size hcounts.stands hsize
    rw [List.nil_append] at hrun hend
    -- the order is known from the same listing
    obtain ⟨ids', hlisting', horder⟩ := exists_listing hd
    obtain rfl := hlisting.unique hlisting'
    have hlength := hlisting.length_lt_iff hd
    simp only [horder hmissing, hrun, hlisting.stuck_eq hd hend, Option.bind_eq_bind,
      Option.bind_some, Option.pure_def]
    by_cases hleft : m.unlisted ids = []
    · rw [if_neg fun hless => hlength.mp hless hleft, if_pos hleft]
    · rw [if_pos (hlength.mpr hleft), if_neg hleft]

/-- Every node once, each after all it depends on, and at every position the node that was added
first among those that can stand there. -/
structure GreedyOrder (m : Model) (ids : List NodeId) : Prop where
  nodup : ids.Nodup
  perm : ids.Perm m.ids
  after : ∀ n ∈ m.nodes, ∀ d ∈ n.dependencies, ids.idxOf d < ids.idxOf n.id
  least : ∀ (k : Nat) (hk : k < ids.length),
    IsLeast {i | ∃ n, m.nodes[i]? = some n ∧ n.id ∉ ids.take k ∧ n.dependencies ⊆ ids.take k}
      (m.ids.idxOf ids[k])

theorem Listing.greedyOrder (h : m.Listing [] ids) (hd : m.ids.Nodup) (ho : m.order = .ok ids) :
    m.GreedyOrder ids where
  nodup := by simpa using h.nodup List.nodup_nil
  perm := order_perm ho
  after _ hn _ hdep := order_rank hd ho hn hdep
  least k hk := by
    obtain ⟨n, hnext, hid⟩ := h.next?_take hk
    rw [← hid]
    exact next?_isLeast hd (by simpa using hnext)

/-- What is missing is named. -/
theorem order_unknown (h : ∃ n ∈ m.nodes, ∃ d ∈ n.dependencies, d ∉ m.ids) :
    ∃ d, m.order = .error (.unknownNode d) ∧ d ∉ m.ids ∧ ∃ n ∈ m.nodes, d ∈ n.dependencies := by
  cases hmissing : m.missing? with
  | none =>
    obtain ⟨n, hn, d, hdep, hd⟩ := h
    exact absurd (missing?_eq_none.mp hmissing n hn hdep) hd
  | some d =>
    have hunknown : m.contains d = false := by simpa using List.find?_some hmissing
    obtain ⟨n, hn, hdep⟩ := List.mem_flatMap.mp (List.mem_of_find?_eq_some hmissing)
    exact ⟨d, by rw [order, hmissing], contains_eq_false.mp hunknown, n, hn, hdep⟩

theorem follows_iff {nodes : List Node} : Follows done nodes ↔
    ∀ i n, nodes[i]? = some n → n.dependencies ⊆ done ++ (nodes.take i).map Node.id := by
  induction nodes generalizing done with
  | nil => simp [Follows]
  | cons k rest ih =>
    rw [Follows, ih]
    constructor
    · intro h i n hn
      cases i with
      | zero =>
        obtain rfl : k = n := by simpa using hn
        simpa using h.1
      | succ i => simpa using h.2 i n (by simpa using hn)
    · intro h
      refine ⟨by simpa using h 0 k rfl, fun i n hn => ?_⟩
      simpa using h (i + 1) n (by simpa using hn)

/-- The order of any model with different ids. It is what counting finds, where no count ever falls
below zero. If an id is missing, one that is missing is named; otherwise there is an order if and
only if nothing goes in a circle, and it is greedy. What was added in an order stays in it. -/
theorem order_greedy (m : Model) (hd : m.ids.Nodup) :
    m.countedOrder = some m.order ∧
    ((∃ n ∈ m.nodes, ∃ d ∈ n.dependencies, d ∉ m.ids) →
      ∃ d, m.order = .error (.unknownNode d) ∧ d ∉ m.ids ∧ ∃ n ∈ m.nodes, d ∈ n.dependencies) ∧
    ((∀ n ∈ m.nodes, n.dependencies ⊆ m.ids) → ((∃ ids, m.order = .ok ids) ↔ m.Acyclic)) ∧
    (∀ ids, m.order = .ok ids → m.GreedyOrder ids) ∧
    ((∀ i n, m.nodes[i]? = some n → n.dependencies ⊆ m.ids.take i) → m.order = .ok m.ids) := by
  refine ⟨countedOrder_eq hd, order_unknown, ?_, ?_, ?_⟩
  · intro hall
    constructor
    · intro h
      obtain ⟨ids, ho⟩ := h
      exact order_acyclic hd ho
    · intro hacyclic
      rcases order_cases hd hall with hordered | hstuck
      · obtain ⟨-, ids, -, ho⟩ := hordered
        exact ⟨ids, ho⟩
      · exact absurd hacyclic hstuck.1
  · intro ids ho
    rcases order_cases hd (order_ok ho).1 with hordered | hstuck
    · obtain ⟨-, ids', hlisting, ho'⟩ := hordered
      obtain rfl := Except.ok.inj (ho.symm.trans ho')
      exact hlisting.greedyOrder hd ho
    · exact absurd (order_acyclic hd ho) hstuck.1
  · intro h
    refine order_of_follows (follows_iff.mpr fun i n hn => ?_)
    simpa [ids, List.map_take] using h i n hn

/-- An output, twice reading from an input that is added after it, and a constant in between. -/
def belated : Model :=
  ⟨[.output ⟨7⟩ .int ⟨[⟨⟨⟨5⟩, Node.outletName⟩, 0, 1⟩, ⟨⟨⟨5⟩, Node.outletName⟩, 0, 1⟩]⟩,
    .constant ⟨2⟩ .int [(3 : Int32)], .input ⟨5⟩ .int 1]⟩

theorem order_greedy_belated :
    belated.countedOrder = some (.ok [⟨2⟩, ⟨5⟩, ⟨7⟩]) ∧ belated.GreedyOrder [⟨2⟩, ⟨5⟩, ⟨7⟩] := by
  have hd : belated.ids.Nodup := by decide
  have ho : belated.order = .ok [⟨2⟩, ⟨5⟩, ⟨7⟩] := rfl
  obtain ⟨hcounted, -, -, hgreedy, -⟩ := order_greedy belated hd
  rw [ho] at hcounted
  exact ⟨hcounted, hgreedy _ ho⟩

end Model

end FlowGraph
