import FlowGraph.Proofs.WellFormed

/-! The ancestors of some nodes are these nodes and everything that they read from, directly or
through others. The search for them sees every node once, whatever order its stack is in. -/
namespace FlowGraph

/-- `id` is one of `roots`, or one of them depends on it. -/
def Model.Needs (m : Model) (roots : List NodeId) (id : NodeId) : Prop :=
  ∃ root ∈ roots, Relation.ReflTransGen m.DependsOn root id

/-- The dependencies that nodes not yet `seen` will put on the stack. -/
def unread (seen : List NodeId) : List Node → Nat
  | [] => 0
  | n :: rest => (if n.id ∈ seen then 0 else n.dependencies.length) + unread seen rest

theorem unread_nil (nodes : List Node) :
    unread [] nodes = (nodes.flatMap Node.dependencies).length := by
  induction nodes with
  | nil => rfl
  | cons n rest ih => simp [unread, ih]

theorem unread_mono (id : NodeId) (seen : List NodeId) (nodes : List Node) :
    unread (id :: seen) nodes ≤ unread seen nodes := by
  induction nodes with
  | nil => exact Nat.le_refl _
  | cons n rest ih =>
    simp only [unread, List.mem_cons]
    by_cases hseen : n.id ∈ seen
    · simpa [hseen] using ih
    · rw [if_neg hseen]
      split
      · omega
      · omega

/-- Seeing a node moves its dependencies from those to come onto the stack. -/
theorem unread_cons {seen : List NodeId} {nodes : List Node} {n : Node} (hn : n ∈ nodes)
    (hnew : n.id ∉ seen) :
    n.dependencies.length + unread (n.id :: seen) nodes ≤ unread seen nodes := by
  induction nodes with
  | nil => cases hn
  | cons k rest ih =>
    simp only [unread, List.mem_cons]
    by_cases hk : k = n
    · subst hk
      have hrest := unread_mono k.id seen rest
      rw [if_pos (.inl rfl), if_neg hnew]
      omega
    · have hmem : n ∈ rest := List.mem_of_ne_of_mem (Ne.symm hk) hn
      have hrest := ih hmem
      by_cases hseen : k.id ∈ seen
      · rw [if_pos (.inr hseen), if_pos hseen]
        omega
      · rw [if_neg hseen]
        split
        · omega
        · omega

/-- The node found at `a` reads from `b`. -/
def Model.Leads (m : Model) (a b : NodeId) : Prop := ∃ n, m.node? a = some n ∧ b ∈ n.dependencies

/-- `id` is one of `roots`, or is met on the way from one of them. -/
def Model.Reaches (m : Model) (roots : List NodeId) (id : NodeId) : Prop :=
  ∃ root ∈ roots, Relation.ReflTransGen m.Leads root id

/-- A search for ancestors without a bound on its steps: from what it has `seen` and what is on its
`stack`, the top one first, it comes to an end with a result. -/
inductive Model.Search (m : Model) :
    List NodeId → List NodeId → Except GraphError (List NodeId) → Prop
  | done {seen : List NodeId} : Search m seen [] (.ok seen)
  | skip {seen rest : List NodeId} {id : NodeId} {result : Except GraphError (List NodeId)}
    (hid : id ∈ seen) (hrest : Search m seen rest result) : Search m seen (id :: rest) result
  | missing {seen rest : List NodeId} {id : NodeId} (hid : id ∉ seen) (hn : m.node? id = none) :
    Search m seen (id :: rest) (.error (.unknownNode id))
  | expand {seen rest : List NodeId} {id : NodeId} {n : Node}
    {result : Except GraphError (List NodeId)} (hid : id ∉ seen) (hn : m.node? id = some n)
    (hrest : Search m (id :: seen) (n.dependencies.reverse ++ rest) result) :
    Search m seen (id :: rest) result

namespace Model

variable {m : Model} {roots seen stack : List NodeId}

theorem needs_root {id : NodeId} (h : id ∈ roots) : m.Needs roots id := ⟨id, h, .refl⟩

/-- What is needed is closed under dependencies. -/
theorem Needs.step {a b : NodeId} (h : m.Needs roots a) (hab : m.DependsOn a b) :
    m.Needs roots b := by
  obtain ⟨root, hroot, hpath⟩ := h
  exact ⟨root, hroot, hpath.tail hab⟩

theorem Needs.mem_ids (h : ∀ n ∈ m.nodes, n.dependencies ⊆ m.ids) (hroots : roots ⊆ m.ids)
    {id : NodeId} (hid : m.Needs roots id) : id ∈ m.ids := by
  obtain ⟨root, hroot, hpath⟩ := hid
  induction hpath with
  | refl => exact hroots hroot
  | tail _ hstep _ =>
    obtain ⟨n, hn, -, hdep⟩ := hstep
    exact h n hn hdep

/-- Where names are unique, the node found at an id is the one of that id. -/
theorem leads_eq_dependsOn (hd : m.ids.Nodup) : m.Leads = m.DependsOn := by
  funext a b
  refine propext ⟨?_, ?_⟩
  · intro h
    obtain ⟨n, hn, hdep⟩ := h
    obtain ⟨hmem, hid⟩ := node?_eq_some hn
    exact ⟨n, hmem, hid, hdep⟩
  · intro h
    obtain ⟨n, hn, rfl, hdep⟩ := h
    exact ⟨n, node?_of_mem hd hn, hdep⟩

theorem reaches_iff_needs (hd : m.ids.Nodup) {id : NodeId} :
    m.Reaches roots id ↔ m.Needs roots id := by
  rw [Reaches, Needs, leads_eq_dependsOn hd]

theorem reaches_root {id : NodeId} (h : id ∈ roots) : m.Reaches roots id := ⟨id, h, .refl⟩

theorem Reaches.step {a b : NodeId} (h : m.Reaches roots a) (hab : m.Leads a b) :
    m.Reaches roots b := by
  obtain ⟨root, hroot, hpath⟩ := h
  exact ⟨root, hroot, hpath.tail hab⟩

theorem Search.deterministic {result other : Except GraphError (List NodeId)}
    (h : m.Search seen stack result) (h' : m.Search seen stack other) : result = other := by
  induction h with
  | done =>
    cases h'
    rfl
  | skip hid _ ih =>
    cases h' with
    | skip _ hrest => exact ih hrest
    | missing hnew => exact absurd hid hnew
    | expand hnew => exact absurd hid hnew
  | missing hid hn =>
    cases h' with
    | skip hseen => exact absurd hseen hid
    | missing => rfl
    | expand _ hn' =>
      rw [hn] at hn'
      cases hn'
  | expand hid hn _ ih =>
    cases h' with
    | skip hseen => exact absurd hseen hid
    | missing _ hn' =>
      rw [hn] at hn'
      cases hn'
    | expand _ hn' hrest =>
      rw [hn, Option.some.injEq] at hn'
      subst hn'
      exact ih hrest

/-- By induction on the steps that are left: there is one for each dependency that can still be put
on the stack, so that the stack is empty before they are used up. -/
theorem search_ancestorsFrom (steps : Nat)
    (hsteps : stack.length + unread seen m.nodes ≤ steps) :
    m.Search seen stack (m.ancestorsFrom steps seen stack) := by
  induction steps generalizing seen stack with
  | zero =>
    have hempty : stack = [] := by
      apply List.eq_nil_of_length_eq_zero
      omega
    subst hempty
    exact .done
  | succ steps ih =>
    cases stack with
    | nil => exact .done
    | cons id rest =>
      rw [List.length_cons] at hsteps
      rw [Model.ancestorsFrom]
      by_cases hid : id ∈ seen
      · -- the step is paid for by the one entry that leaves the stack
        rw [if_pos (by simpa using hid)]
        exact .skip hid (ih (by omega))
      · rw [if_neg (by simpa using hid)]
        cases hn : m.node? id with
        | none => exact .missing hid hn
        | some n =>
          obtain ⟨hmem, rfl⟩ := node?_eq_some hn
          -- the stack grows by what was counted as still to come, and by no more
          have hless := unread_cons hmem hid
          refine .expand hid hn (ih ?_)
          rw [List.length_append, List.length_reverse]
          omega

/-- The bound on the steps is one that no search comes to. -/
theorem search_ancestors (m : Model) (roots : List NodeId) :
    m.Search [] roots.reverse (m.ancestors roots) := by
  apply search_ancestorsFrom
  rw [unread_nil, List.length_reverse]

/-- What holds in the middle of a search: only what is reached was met, and whatever was met and is
not yet seen waits on the stack. -/
structure Searching (m : Model) (roots seen stack : List NodeId) : Prop where
  seen_once : seen.Nodup
  seen_found : seen ⊆ m.ids
  seen_reached : ∀ id ∈ seen, m.Reaches roots id
  stack_reached : ∀ id ∈ stack, m.Reaches roots id
  roots_met : ∀ id ∈ roots, id ∈ seen ∨ id ∈ stack
  reads_met : ∀ id ∈ seen, ∀ d, m.Leads id d → d ∈ seen ∨ d ∈ stack

namespace Searching

theorem start (m : Model) (roots : List NodeId) : Searching m roots [] roots.reverse where
  seen_once := List.nodup_nil
  seen_found := List.nil_subset _
  seen_reached := by simp
  stack_reached := fun id hid => reaches_root (List.mem_reverse.mp hid)
  roots_met := fun id hid => .inr (List.mem_reverse.mpr hid)
  reads_met := by simp

theorem skip {id : NodeId} (h : Searching m roots seen (id :: stack)) (hid : id ∈ seen) :
    Searching m roots seen stack := by
  -- what waits at the top was seen before, so nothing is lost with it
  have hmet : ∀ d, d ∈ seen ∨ d ∈ id :: stack → d ∈ seen ∨ d ∈ stack := by
    intro d hd
    rcases hd with hd | hd
    · exact .inl hd
    · rcases List.mem_cons.mp hd with rfl | hd
      · exact .inl hid
      · exact .inr hd
  exact
    { seen_once := h.seen_once
      seen_found := h.seen_found
      seen_reached := h.seen_reached
      stack_reached := fun d hd => h.stack_reached d (List.mem_cons_of_mem _ hd)
      roots_met := fun d hd => hmet d (h.roots_met d hd)
      reads_met := fun d hd e he => hmet e (h.reads_met d hd e he) }

theorem expand {id : NodeId} {n : Node} (h : Searching m roots seen (id :: stack)) (hid : id ∉ seen)
    (hn : m.node? id = some n) :
    Searching m roots (id :: seen) (n.dependencies.reverse ++ stack) := by
  have hreached : m.Reaches roots id := h.stack_reached id List.mem_cons_self
  have hfound : id ∈ m.ids := mem_ids.mpr ⟨n, node?_eq_some hn⟩
  have hmet : ∀ d, d ∈ seen ∨ d ∈ id :: stack →
      d ∈ id :: seen ∨ d ∈ n.dependencies.reverse ++ stack := by
    intro d hd
    simp only [List.mem_cons, List.mem_append] at hd ⊢
    tauto
  refine ⟨h.seen_once.cons hid, List.cons_subset.mpr ⟨hfound, h.seen_found⟩, ?_, ?_,
    fun d hd => hmet d (h.roots_met d hd), ?_⟩
  · intro d hd
    rcases List.mem_cons.mp hd with rfl | hd
    · exact hreached
    · exact h.seen_reached d hd
  · intro d hd
    rcases List.mem_append.mp hd with hd | hd
    · exact hreached.step ⟨n, hn, List.mem_reverse.mp hd⟩
    · exact h.stack_reached d (List.mem_cons_of_mem _ hd)
  · intro d hd e he
    rcases List.mem_cons.mp hd with rfl | hd
    · -- the node that has just been seen: all that it reads was put on the stack
      obtain ⟨k, hk, hdep⟩ := he
      rw [hn, Option.some.injEq] at hk
      subst hk
      exact .inr (List.mem_append_left _ (List.mem_reverse.mpr hdep))
    · exact hmet e (h.reads_met d hd e he)

/-- With nothing left to look at, exactly what is reached has been seen. -/
theorem exact (h : Searching m roots seen []) (id : NodeId) : id ∈ seen ↔ m.Reaches roots id := by
  constructor
  · exact h.seen_reached id
  · intro hid
    obtain ⟨root, hroot, hpath⟩ := hid
    -- along the path from the root: what is met is seen, as nothing waits any more
    induction hpath with
    | refl => simpa using h.roots_met root hroot
    | tail _ hstep ih => simpa using h.reads_met _ ih _ hstep

/-- The whole run, by induction on its steps. -/
theorem run {result : Except GraphError (List NodeId)} (h : Searching m roots seen stack)
    (hrun : m.Search seen stack result) :
    (∃ found, result = .ok found ∧ Searching m roots found []) ∨
    (∃ id, result = .error (.unknownNode id) ∧ id ∉ m.ids ∧ m.Reaches roots id) := by
  induction hrun with
  | done => exact .inl ⟨_, rfl, h⟩
  | skip hid _ ih => exact ih (h.skip hid)
  | @missing _ _ id _ hn =>
    have hmissing : id ∉ m.ids := by
      rw [← contains_eq_false, contains, hn]
      rfl
    exact .inr ⟨id, rfl, hmissing, h.stack_reached id List.mem_cons_self⟩
  | expand hid hn _ ih => exact ih (h.expand hid hn)

end Searching

/-- A search ends with exactly what is reached, or at something reached that is not in the model. -/
theorem ancestors_cases (m : Model) (roots : List NodeId) :
    (∃ found, m.ancestors roots = .ok found ∧ found.Nodup ∧ found ⊆ m.ids ∧
      ∀ id, id ∈ found ↔ m.Reaches roots id) ∨
    (∃ id, m.ancestors roots = .error (.unknownNode id) ∧ id ∉ m.ids ∧ m.Reaches roots id) := by
  rcases (Searching.start m roots).run (search_ancestors m roots) with ⟨found, hrun, hfound⟩ | h
  · exact .inl ⟨found, hrun, hfound.seen_once, hfound.seen_found, hfound.exact⟩
  · exact .inr h

/-- In a well-formed model nothing that is needed is missing. -/
theorem WellFormed.ancestors_eq (h : m.WellFormed) (hroots : roots ⊆ m.ids) :
    ∃ found, m.ancestors roots = .ok found ∧ ∀ id, id ∈ found ↔ m.Needs roots id := by
  have hneeds : ∀ id, m.Reaches roots id ↔ m.Needs roots id := fun _ => reaches_iff_needs h.distinct
  rcases ancestors_cases m roots with ⟨found, hrun, -, -, hfound⟩ | ⟨id, -, hmissing, hreached⟩
  · exact ⟨found, hrun, fun id => (hfound id).trans (hneeds id)⟩
  · have hneeded := (hneeds id).mp hreached
    exact absurd (hneeded.mem_ids (fun n hn => h.dependencies hn) hroots) hmissing

end Model

/-- What is left of an order when only some nodes stay, with all that they depend on. -/
theorem follows_filter {live : NodeId → Bool} {done : List NodeId} {nodes : List Node}
    (h : Follows done nodes)
    (hlive : ∀ n ∈ nodes, live n.id = true → ∀ d ∈ n.dependencies, live d = true) :
    Follows (done.filter live) (nodes.filter fun n => live n.id) := by
  induction nodes generalizing done with
  | nil => trivial
  | cons n rest ih =>
    have hrest := ih h.2 fun k hk => hlive k (List.mem_cons_of_mem _ hk)
    rw [List.filter_append] at hrest
    rw [List.filter_cons]
    by_cases hn : live n.id = true
    · rw [if_pos hn]
      refine ⟨fun d hd => ?_, by simpa [hn] using hrest⟩
      exact List.mem_filter.mpr ⟨h.1 hd, hlive n List.mem_cons_self hn d hd⟩
    · rw [if_neg hn]
      simpa [hn] using hrest

end FlowGraph
