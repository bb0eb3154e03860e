import Mathlib
import FlowGraph.Proofs.Lookup

/-! The order of a model lists its nodes once each, every node after all it depends on. -/
namespace FlowGraph

/-- Each of the nodes comes after all it depends on, where `done` come first of all. -/
def Follows : List NodeId → List Node → Prop
  | _, [] => True
  | done, n :: rest => n.dependencies ⊆ done ∧ Follows (done ++ [n.id]) rest

/-- `a` reads from `b` directly. -/
def Model.DependsOn (m : Model) (a b : NodeId) : Prop :=
  ∃ n ∈ m.nodes, n.id = a ∧ b ∈ n.dependencies

/-- No node reads, directly or through others, from itself. -/
def Model.Acyclic (m : Model) : Prop := ∀ id, ¬ Relation.TransGen m.DependsOn id id

theorem follows_append {done : List NodeId} {first rest : List Node} :
    Follows done (first ++ rest) ↔
      Follows done first ∧ Follows (done ++ first.map Node.id) rest := by
  induction first generalizing done with
  | nil => simp [Follows]
  | cons n first ih =>
    simp only [List.cons_append, Follows, ih, List.map_cons, and_assoc, List.append_assoc,
      List.nil_append]

/-- One step of the ordering takes a ready node out of the pending ones. -/
theorem find?_eraseP_perm {α : Type} {p : α → Bool} {xs : List α} {x : α}
    (h : xs.find? p = some x) : (x :: xs.eraseP p).Perm xs := by
  induction xs with
  | nil => simp at h
  | cons a rest ih =>
    by_cases ha : p a = true
    · rw [List.find?_cons_of_pos ha] at h
      rw [List.eraseP_cons_of_pos ha, Option.some.inj h]
    · rw [List.find?_cons_of_neg ha] at h
      rw [List.eraseP_cons_of_neg ha]
      exact (List.Perm.swap a x _).trans ((ih h).cons a)

namespace Model

theorem isReady_iff {done : List NodeId} {n : Node} :
    isReady done n = true ↔ n.dependencies ⊆ done := by
  simp only [isReady, List.all_eq_true, List.contains_eq_mem, decide_eq_true_eq]
  rfl

theorem orderFrom_follows (steps : Nat) (done : List NodeId) (pending : List Node) :
    ∃ listed, (orderFrom steps done pending).1 = done ++ listed.map Node.id ∧
      (listed ++ (orderFrom steps done pending).2).Perm pending ∧ Follows done listed := by
  induction steps generalizing done pending with
  | zero => exact ⟨[], by simp [orderFrom], by simp [orderFrom], trivial⟩
  | succ steps ih =>
    cases hf : pending.find? (isReady done) with
    | none => exact ⟨[], by simp [orderFrom, hf], by simp [orderFrom, hf], trivial⟩
    | some n =>
      obtain ⟨listed, hids, hperm, hfollows⟩ :=
        ih (done ++ [n.id]) (pending.eraseP (isReady done))
      have hready : n.dependencies ⊆ done := isReady_iff.mp (List.find?_some hf)
      refine ⟨n :: listed, ?_, ?_, hready, hfollows⟩
      · simp only [orderFrom, hf, hids, List.map_cons, List.append_assoc, List.singleton_append]
      · simp only [orderFrom, hf, List.cons_append]
        exact (hperm.cons n).trans (find?_eraseP_perm hf)

theorem missing?_eq_none {m : Model} :
    m.missing? = none ↔ ∀ n ∈ m.nodes, n.dependencies ⊆ m.ids := by
  simp only [missing?, List.find?_eq_none, List.mem_flatMap, Bool.not_eq_true', ← contains_iff,
    List.subset_def]
  constructor
  · intro h n hn id hid
    simpa using h id ⟨n, hn, hid⟩
  · intro h id h
    obtain ⟨n, hn, hid⟩ := h
    simp [h n hn hid]

theorem order_ok {m : Model} {ids : List NodeId} (h : m.order = .ok ids) :
    (∀ n ∈ m.nodes, n.dependencies ⊆ m.ids) ∧
      ∃ listed : List Node, ids = listed.map Node.id ∧ listed.Perm m.nodes ∧ Follows [] listed := by
  unfold order at h
  cases hm : m.missing? with
  | some id => simp [hm] at h
  | none =>
    refine ⟨missing?_eq_none.mp hm, ?_⟩
    obtain ⟨listed, hids, hperm, hfollows⟩ := orderFrom_follows m.size [] m.nodes
    simp only [hm] at h
    rcases ho : orderFrom m.size [] m.nodes with ⟨found, stuck⟩
    cases stuck with
    | cons n stuck => simp [ho] at h
    | nil =>
      simp only [ho, Except.ok.injEq] at h
      rw [ho] at hids hperm
      exact ⟨listed, by simpa [h] using hids, by simpa using hperm, hfollows⟩

theorem order_perm {m : Model} {ids : List NodeId} (h : m.order = .ok ids) : ids.Perm m.ids := by
  obtain ⟨-, listed, rfl, hperm, -⟩ := order_ok h
  exact hperm.map Node.id

theorem length_order {m : Model} {ids : List NodeId} (h : m.order = .ok ids) :
    ids.length = m.size := by
  rw [(order_perm h).length_eq, length_ids]

/-- Nodes that already follow their dependencies are listed as they stand. -/
theorem orderFrom_of_follows (done : List NodeId) (pending : List Node)
    (h : Follows done pending) :
    orderFrom pending.length done pending = (done ++ pending.map Node.id, []) := by
  induction pending generalizing done with
  | nil => simp [orderFrom]
  | cons n rest ih =>
    have hready : isReady done n = true := isReady_iff.mpr h.1
    simp only [List.length_cons, orderFrom, List.find?_cons_of_pos hready,
      List.eraseP_cons_of_pos hready]
    rw [ih _ h.2]
    simp

theorem follows_dependencies {done : List NodeId} {nodes : List Node} (h : Follows done nodes) :
    ∀ n ∈ nodes, n.dependencies ⊆ done ++ nodes.map Node.id := by
  induction nodes generalizing done with
  | nil => simp
  | cons k rest ih =>
    intro n hn
    rcases List.mem_cons.mp hn with rfl | hn
    · exact List.subset_append_of_subset_left _ h.1
    · simpa using ih h.2 n hn

theorem order_of_follows {m : Model} (h : Follows [] m.nodes) : m.order = .ok m.ids := by
  have hdeps : m.missing? = none :=
    missing?_eq_none.mpr (by simpa [ids] using follows_dependencies h)
  have ho := orderFrom_of_follows [] m.nodes h
  simp only [order, hdeps, size, ho, List.nil_append, ids]

/-- In an order every dependency has a lower rank than the node that reads from it. -/
theorem order_rank {m : Model} (hd : m.ids.Nodup) {ids : List NodeId} (h : m.order = .ok ids)
    {n : Node} (hn : n ∈ m.nodes) {d : NodeId} (hdep : d ∈ n.dependencies) :
    ids.idxOf d < ids.idxOf n.id := by
  have hnodup : ids.Nodup := (order_perm h).nodup_iff.mpr hd
  obtain ⟨-, listed, rfl, hperm, hfollows⟩ := order_ok h
  -- when `n` was listed, all it depends on was
  obtain ⟨before, after, rfl⟩ := List.append_of_mem (hperm.mem_iff.mpr hn)
  obtain ⟨-, hready, -⟩ := follows_append.mp hfollows
  have hlow : d ∈ before.map Node.id := by simpa using hready hdep
  have hfresh : n.id ∉ before.map Node.id := by
    rw [List.map_append, List.map_cons] at hnodup
    exact fun hmem => (List.nodup_append.mp hnodup).2.2 _ hmem _ List.mem_cons_self rfl
  rw [List.map_append, List.map_cons, List.idxOf_append_of_mem hlow,
    List.idxOf_append_of_notMem hfresh, List.idxOf_cons_self]
  have hlt := List.idxOf_lt_length_of_mem hlow
  omega

/-- A model that has an order has no cycle: ranks fall along every path. -/
theorem order_acyclic {m : Model} (hd : m.ids.Nodup) {ids : List NodeId} (h : m.order = .ok ids) :
    m.Acyclic := by
  intro id hcycle
  have hfall : ∀ {a b}, Relation.TransGen m.DependsOn a b → ids.idxOf b < ids.idxOf a := by
    intro a b hpath
    induction hpath with
    | single hstep =>
      obtain ⟨n, hn, rfl, hdep⟩ := hstep
      exact order_rank hd h hn hdep
    | tail _ hstep ih =>
      obtain ⟨n, hn, rfl, hdep⟩ := hstep
      exact Nat.lt_trans (order_rank hd h hn hdep) ih
  exact Nat.lt_irrefl _ (hfall hcycle)

theorem orderFrom_nil (steps : Nat) (done : List NodeId) :
    orderFrom steps done [] = (done, []) := by
  cases steps <;> simp [orderFrom]

/-- A node added at the end is taken only when all others are listed. -/
theorem orderFrom_append {n : Node} {ids : List NodeId} (hn : n.dependencies ⊆ ids) (steps : Nat)
    (done : List NodeId) (pending : List Node) (h : orderFrom steps done pending = (ids, [])) :
    orderFrom (steps + 1) done (pending ++ [n]) = (ids ++ [n.id], []) := by
  induction steps generalizing done pending with
  | zero =>
    -- no step was left for the others, so there were none
    obtain ⟨rfl, rfl⟩ : done = ids ∧ pending = [] := by simpa [orderFrom] using h
    simp [orderFrom, isReady_iff.mpr hn]
  | succ steps ih =>
    rw [orderFrom]
    rw [orderFrom] at h
    cases hf : pending.find? (isReady done) with
    | none =>
      obtain ⟨rfl, rfl⟩ : done = ids ∧ pending = [] := by simpa [hf] using h
      simp [isReady_iff.mpr hn, orderFrom_nil]
    | some k =>
      -- the new node stands behind `k`, so that `k` is found first here as well
      have hk := List.find?_some hf
      rw [hf] at h
      simp only [List.find?_append, hf, Option.some_or,
        List.eraseP_append_left hk _ (List.mem_of_find?_eq_some hf)]
      exact ih _ _ h

theorem order_insert {m : Model} {ids : List NodeId} (h : m.order = .ok ids) {n : Node}
    (hn : n.dependencies ⊆ m.ids) : (m.insert n).order = .ok (ids ++ [n.id]) := by
  have hperm := order_perm h
  have hdeps := (order_ok h).1
  have hall : (m.insert n).missing? = none := by
    refine missing?_eq_none.mpr fun k hk => ?_
    have hids : m.ids ⊆ (m.insert n).ids := by simp [Model.ids, insert]
    rcases List.mem_append.mp hk with hk | hk
    · exact List.Subset.trans (hdeps k hk) hids
    · rw [List.mem_singleton.mp hk]
      exact List.Subset.trans hn hids
  have hrun : orderFrom m.size [] m.nodes = (ids, []) := by
    rw [order, missing?_eq_none.mpr hdeps] at h
    rcases ho : orderFrom m.size [] m.nodes with ⟨found, stuck⟩
    cases stuck <;> simp_all
  have hsize : (m.insert n).size = m.size + 1 := by simp [size, insert]
  -- one more node takes one more step
  have hrun' := orderFrom_append (fun d hd => hperm.mem_iff.mpr (hn hd)) m.size [] m.nodes hrun
  simp only [order, hall, hsize]
  rw [show (m.insert n).nodes = m.nodes ++ [n] from rfl, hrun']

end Model

/-- `n'` is `n` under another name, reading from the same nodes under their other names. -/
def Node.SameEdges (rename : NodeId → NodeId) (n n' : Node) : Prop :=
  n'.id = rename n.id ∧ ∀ id, id ∈ n'.dependencies ↔ ∃ d ∈ n.dependencies, rename d = id

theorem eraseP_congr {α : Type} {p q : α → Bool} {xs : List α} (h : ∀ x ∈ xs, p x = q x) :
    xs.eraseP p = xs.eraseP q := by
  induction xs with
  | nil => rfl
  | cons a rest ih =>
    have ha := h a List.mem_cons_self
    have hrest := ih fun x hx => h x (List.mem_cons_of_mem _ hx)
    simp only [List.eraseP_cons, ha, hrest]

namespace Model

theorem isReady_renamed {rename : NodeId → NodeId} {known done : List NodeId} {n n' : Node}
    (hinj : ∀ a ∈ known, ∀ b ∈ known, rename a = rename b → a = b) (hdone : done ⊆ known)
    (hn : n.dependencies ⊆ known) (h : n.SameEdges rename n') :
    isReady (done.map rename) n' = isReady done n := by
  rw [Bool.eq_iff_iff, isReady_iff, isReady_iff]
  constructor
  · intro hsub d hd
    obtain ⟨e, he, hed⟩ := List.mem_map.mp (hsub ((h.2 _).mpr ⟨d, hd, rfl⟩))
    rwa [← hinj e (hdone he) d (hn hd) hed]
  · intro hsub id hid
    obtain ⟨d, hd, rfl⟩ := (h.2 id).mp hid
    exact List.mem_map_of_mem (hsub hd)

/-- Renaming commutes with ordering, since nodes get ready at the same time. -/
theorem orderFrom_renamed {rename : NodeId → NodeId} {g : Node → Node} {known : List NodeId}
    (hinj : ∀ a ∈ known, ∀ b ∈ known, rename a = rename b → a = b) (steps : Nat)
    {done : List NodeId} (hdone : done ⊆ known) (pending : List Node)
    (h : ∀ n ∈ pending, n.id ∈ known ∧ n.dependencies ⊆ known ∧ n.SameEdges rename (g n)) :
    orderFrom steps (done.map rename) (pending.map g) =
      ((orderFrom steps done pending).1.map rename, (orderFrom steps done pending).2.map g) := by
  induction steps generalizing done pending with
  | zero => rfl
  | succ steps ih =>
    -- so both runs find the same node and go on with the same rest
    have hready : ∀ n ∈ pending, (isReady (done.map rename) ∘ g) n = isReady done n :=
      fun n hn => isReady_renamed hinj hdone (h n hn).2.1 (h n hn).2.2
    rw [orderFrom, orderFrom, List.find?_map, List.eraseP_map, List.find?_congr hready,
      eraseP_congr hready]
    cases hf : pending.find? (isReady done) with
    | none => rfl
    | some n =>
      have hn := h n (List.mem_of_find?_eq_some hf)
      have hdone' : done ++ [n.id] ⊆ known :=
        List.append_subset.mpr ⟨hdone, by simpa using hn.1⟩
      have hstep := ih hdone' (pending.eraseP (isReady done))
        fun k hk => h k (List.mem_of_mem_eraseP hk)
      simpa [hn.2.2.1] using hstep

theorem order_renamed (rename : NodeId → NodeId) (g : Node → Node) {m : Model}
    (hinj : ∀ a ∈ m.ids, ∀ b ∈ m.ids, rename a = rename b → a = b)
    (hg : ∀ n ∈ m.nodes, n.SameEdges rename (g n)) {ids : List NodeId} (h : m.order = .ok ids) :
    Model.order ⟨m.nodes.map g⟩ = .ok (ids.map rename) := by
  have hdeps := (order_ok h).1
  have hall : Model.missing? ⟨m.nodes.map g⟩ = none := by
    refine missing?_eq_none.mpr fun n' hn' id hid => ?_
    obtain ⟨n, hn, rfl⟩ := List.mem_map.mp hn'
    obtain ⟨d, hd, rfl⟩ := ((hg n hn).2 id).mp hid
    obtain ⟨k, hk, rfl⟩ := mem_ids.mp (hdeps n hn hd)
    exact mem_ids.mpr ⟨g k, List.mem_map_of_mem hk, (hg k hk).1⟩
  have hrun := orderFrom_renamed hinj m.size (List.nil_subset m.ids) m.nodes
    fun n hn => ⟨List.mem_map_of_mem hn, hdeps n hn, hg n hn⟩
  have hsize : Model.size ⟨m.nodes.map g⟩ = m.size := by simp [size]
  rw [order, missing?_eq_none.mpr hdeps] at h
  simp only [order, hall, hsize]
  rw [List.map_nil] at hrun
  rw [hrun]
  rcases ho : orderFrom m.size [] m.nodes with ⟨found, stuck⟩
  cases stuck <;> simp_all

end Model

end FlowGraph
