import FlowGraph.Proofs.Order

/-! The order of a model step by step. What comes next is always the first node, as they were added,
that is not listed yet and depends on listed ones only; this leaves no choice, so that a listing is
known from any way to find it. -/
namespace FlowGraph

/-- Taking out the first element that is found is leaving out its key, if keys are different. -/
theorem eraseP_eq_filter {α β : Type} [DecidableEq β] {key : α → β} {p : α → Bool} {xs : List α}
    {x : α} (hd : (xs.map key).Nodup) (h : xs.find? p = some x) :
    xs.eraseP p = xs.filter fun a => key a ≠ key x := by
  induction xs with
  | nil => cases h
  | cons a rest ih =>
    rw [List.map_cons, List.nodup_cons] at hd
    by_cases ha : p a = true
    · rw [List.find?_cons_of_pos ha] at h
      obtain rfl := Option.some.inj h
      have hrest : ∀ b ∈ rest, decide (key b ≠ key a) = true := by
        intro b hb
        have hne : key b ≠ key a := fun heq => hd.1 (heq ▸ List.mem_map_of_mem hb)
        simpa using hne
      rw [List.eraseP_cons_of_pos ha, List.filter_cons_of_neg (by simp),
        List.filter_eq_self.mpr hrest]
    · rw [List.find?_cons_of_neg ha] at h
      have hx : x ∈ rest := List.mem_of_find?_eq_some h
      have hne : key a ≠ key x := fun heq => hd.1 (heq ▸ List.mem_map_of_mem hx)
      rw [List.eraseP_cons_of_neg ha, List.filter_cons_of_pos (by simpa using hne), ih hd.2 h]

namespace Model

/-- The first node, as they were added, that is not `done` and depends only on what is. -/
def next? (m : Model) (done : List NodeId) : Option Node :=
  m.nodes.find? fun n => !done.contains n.id && isReady done n

/-- The nodes that are not `done`, as they were added. -/
def unlisted (m : Model) (done : List NodeId) : List Node :=
  m.nodes.filter fun n => !done.contains n.id

/-- After `done` come the ids in `rest`: each time that of the next node, until there is none. -/
inductive Listing (m : Model) : List NodeId → List NodeId → Prop
  | stop {done : List NodeId} (h : m.next? done = none) : Listing m done []
  | step {done rest : List NodeId} {n : Node} (h : m.next? done = some n)
    (hrest : Listing m (done ++ [n.id]) rest) : Listing m done (n.id :: rest)

variable {m : Model} {done rest ids : List NodeId} {n : Node}

theorem next?_spec (h : m.next? done = some n) :
    n ∈ m.nodes ∧ n.id ∉ done ∧ n.dependencies ⊆ done := by
  have hn := List.find?_some h
  rw [Bool.and_eq_true, isReady_iff] at hn
  exact ⟨List.mem_of_find?_eq_some h, by simpa using hn.1, hn.2⟩

theorem next?_eq_none :
    m.next? done = none ↔ ∀ n ∈ m.nodes, n.id ∉ done → ¬ n.dependencies ⊆ done := by
  rw [next?, List.find?_eq_none]
  refine forall₂_congr fun n _ => ?_
  rw [Bool.and_eq_true, isReady_iff, not_and]
  simp

/-- Of all nodes that could come next, the next one was added first. -/
theorem next?_isLeast (hd : m.ids.Nodup) (h : m.next? done = some n) :
    IsLeast {i | ∃ k, m.nodes[i]? = some k ∧ k.id ∉ done ∧ k.dependencies ⊆ done}
      (m.ids.idxOf n.id) := by
  obtain ⟨-, hfresh, hready⟩ := next?_spec h
  obtain ⟨-, i, hi, hn, hbefore⟩ := List.find?_eq_some_iff_getElem.mp h
  -- ids are different, so that the position of the node is that of its id
  have hposition : m.ids.idxOf n.id = i := by
    have hlength : i < m.ids.length := by rwa [length_ids]
    have hid : m.ids[i] = n.id := by simp only [ids, List.getElem_map, hn]
    rw [← hid, hd.idxOf_getElem i hlength]
  rw [hposition]
  constructor
  · exact ⟨n, by rw [List.getElem?_eq_getElem hi, hn], hfresh, hready⟩
  · intro j hj
    obtain ⟨k, hk, hknew, hkready⟩ := hj
    by_contra hlt
    -- the search passed over what was added before, as listed or as waiting
    have hnot := hbefore j (Nat.lt_of_not_le hlt)
    obtain ⟨hjlt, rfl⟩ := List.getElem?_eq_some_iff.mp hk
    rw [Bool.not_eq_true', Bool.and_eq_false_iff] at hnot
    rcases hnot with hlisted | hwaits
    · exact hknew (by simpa using hlisted)
    · rw [isReady_iff.mpr hkready] at hwaits
      cases hwaits

theorem mem_unlisted : n ∈ m.unlisted done ↔ n ∈ m.nodes ∧ n.id ∉ done := by
  simp [unlisted]

theorem unlisted_nil (m : Model) : m.unlisted [] = m.nodes :=
  List.filter_eq_self.mpr fun _ _ => rfl

theorem find?_unlisted (m : Model) (done : List NodeId) :
    (m.unlisted done).find? (isReady done) = m.next? done := by
  rw [unlisted, List.find?_filter, next?]
  simp

theorem eraseP_unlisted (hd : m.ids.Nodup) (h : m.next? done = some n) :
    (m.unlisted done).eraseP (isReady done) = m.unlisted (done ++ [n.id]) := by
  have hkeys : ((m.unlisted done).map Node.id).Nodup :=
    hd.sublist (List.filter_sublist.map Node.id)
  rw [eraseP_eq_filter hkeys (by rwa [find?_unlisted]), unlisted, unlisted, List.filter_filter]
  refine List.filter_congr fun k _ => ?_
  rw [Bool.eq_iff_iff]
  simp [and_comm]

namespace Listing

/-- There is one way to go on from `done`. -/
theorem unique {rest' : List NodeId} (h : m.Listing done rest) (h' : m.Listing done rest') :
    rest = rest' := by
  induction h generalizing rest' with
  | stop hnone =>
    cases h' with
    | stop => rfl
    | step hsome => rw [hnone] at hsome; cases hsome
  | step hsome _ ih =>
    cases h' with
    | stop hnone => rw [hsome] at hnone; cases hnone
    | step hsome' hrest' =>
      obtain rfl := Option.some.inj (hsome.symm.trans hsome')
      rw [ih hrest']

/-- Nothing can come after a listing. -/
theorem next?_end (h : m.Listing done rest) : m.next? (done ++ rest) = none := by
  induction h with
  | stop hnone => rwa [List.append_nil]
  | step _ _ ih => rwa [List.append_assoc, List.singleton_append] at ih

/-- At each position is the node that comes next after those before it. -/
theorem next?_take (h : m.Listing done rest) {k : Nat} (hk : k < rest.length) :
    ∃ n, m.next? (done ++ rest.take k) = some n ∧ n.id = rest[k] := by
  induction h generalizing k with
  | stop => simp at hk
  | @step done rest n hsome _ ih =>
    cases k with
    | zero => exact ⟨n, by simpa using hsome, rfl⟩
    | succ k =>
      obtain ⟨k', hk', hid⟩ := ih (k := k) (by simpa using hk)
      exact ⟨k', by simpa using hk', by simpa using hid⟩

/-- No node is listed twice. -/
theorem nodup (h : m.Listing done rest) (hdone : done.Nodup) : (done ++ rest).Nodup := by
  induction h with
  | stop => rwa [List.append_nil]
  | @step done rest n hsome _ ih =>
    have hfresh := (next?_spec hsome).2.1
    have hstep : (done ++ [n.id]).Nodup := by
      rw [← List.concat_eq_append, List.nodup_concat]
      exact ⟨hfresh, hdone⟩
    simpa using ih hstep

/-- What a listed node depends on was listed before it. -/
theorem idxOf_lt (h : m.Listing [] ids) (hd : m.ids.Nodup) (hn : n ∈ m.nodes) (hid : n.id ∈ ids)
    {d : NodeId} (hdep : d ∈ n.dependencies) : d ∈ ids ∧ ids.idxOf d < ids.idxOf n.id := by
  have hlt := List.idxOf_lt_length_of_mem hid
  obtain ⟨k, hnext, hkid⟩ := h.next?_take hlt
  obtain ⟨hk, -, hready⟩ := next?_spec hnext
  -- the node at this position is `n`, since ids are different
  rw [List.getElem_idxOf] at hkid
  obtain rfl := List.inj_on_of_nodup_map hd hk hn hkid
  have hbefore : d ∈ ids.take (ids.idxOf k.id) := by simpa using hready hdep
  refine ⟨List.mem_of_mem_take hbefore, ?_⟩
  have hindex := List.idxOf_lt_length_of_mem hbefore
  rw [List.length_take] at hindex
  have hsame : ids.idxOf d = (ids.take (ids.idxOf k.id)).idxOf d := by
    conv_lhs => rw [← List.take_append_drop (ids.idxOf k.id) ids]
    exact List.idxOf_append_of_mem hbefore
  omega

/-- A node that is not listed at the end waits for another one that is not. -/
theorem waits (h : m.Listing [] ids) (hn : n ∈ m.nodes) (hid : n.id ∉ ids) :
    ∃ d ∈ n.dependencies, d ∉ ids := by
  have hblocked := next?_eq_none.mp h.next?_end n hn (by simpa using hid)
  simpa [List.subset_def] using hblocked

end Listing

/-- The ordering goes through the listing, with what is not listed left over. By induction on the
steps, of which there are enough for all nodes that are not listed yet. -/
theorem orderFrom_listing (hd : m.ids.Nodup) (steps : Nat) (done : List NodeId)
    (hsteps : (m.unlisted done).length ≤ steps) :
    ∃ rest, m.Listing done rest ∧
      orderFrom steps done (m.unlisted done) = (done ++ rest, m.unlisted (done ++ rest)) := by
  induction steps generalizing done with
  | zero =>
    have hempty : m.unlisted done = [] := List.eq_nil_of_length_eq_zero (by omega)
    have hnone : m.next? done = none := by
      rw [← find?_unlisted, hempty]
      rfl
    exact ⟨[], .stop hnone, by simp [orderFrom]⟩
  | succ steps ih =>
    rw [orderFrom, find?_unlisted]
    cases hnext : m.next? done with
    | none => exact ⟨[], .stop hnext, by simp⟩
    | some n =>
      -- the node that is listed leaves one fewer for the steps that are left
      have herase := eraseP_unlisted hd hnext
      have hfound : (m.unlisted done).find? (isReady done) = some n := by rwa [find?_unlisted]
      have hless := (find?_eraseP_perm hfound).length_eq
      rw [List.length_cons, herase] at hless
      obtain ⟨rest, hrest, hrun⟩ := ih (done ++ [n.id]) (by omega)
      refine ⟨n.id :: rest, .step hnext hrest, ?_⟩
      simp only [herase, hrun, List.append_assoc, List.singleton_append]

/-- Every model has its listing, which decides what its order is. -/
theorem exists_listing (hd : m.ids.Nodup) : ∃ ids, m.Listing [] ids ∧
    (m.missing? = none → m.order = if m.unlisted ids = [] then .ok ids
      else .error (.cycleDetected ((m.unlisted ids).map Node.id))) := by
  have hsize : (m.unlisted []).length ≤ m.size := by rw [unlisted_nil, size]
  obtain ⟨ids, hlisting, hrun⟩ := orderFrom_listing hd m.size [] hsize
  refine ⟨ids, hlisting, fun hall => ?_⟩
  rw [unlisted_nil, List.nil_append] at hrun
  simp only [order, hall, hrun]
  cases m.unlisted ids with
  | nil => rfl
  | cons n stuck => rfl

end Model

end FlowGraph
