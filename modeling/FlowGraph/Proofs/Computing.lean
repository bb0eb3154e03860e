import FlowGraph.Proofs.Reachable

/-! Computing a model gives every node its meaning, or stops at the first node that has none. No
buffer is read before it has been computed, so that what was there before makes no difference. -/
namespace FlowGraph

namespace Model

/-- Reading a span gives what the node holds at its elements. -/
theorem readSpan_eq {m : Model} {t : ElementType} {s : Span} (h : s.Resolves m t) (hf : s.Fits) :
    ∃ run, m.readSpan t s = .ok run ∧ s.pick? (m.buffer? t) = some run := by
  obtain ⟨n, hn, hname, rfl, hstop⟩ := h
  have hvalues : m.values n.type s.source = .ok n.buffer := by
    have ho : m.outlet s.source = .ok n.outlet := outlet_ok.mpr ⟨n, hn, hname, rfl⟩
    rw [values, ho]
    exact dif_pos rfl
  rw [Span.stop_of_fits hf] at hstop
  refine ⟨_, ?_, Span.pick?_eq (buffer?_of_node? hn) hstop⟩
  have hbetween : valuesBetween? n.buffer s.start.toNat s.stop =
      some ((n.buffer.drop s.start.toNat).take s.count.toNat) := by
    rw [valuesBetween?, Span.stop_of_fits hf, if_pos ⟨Nat.le_add_right _ _, hstop⟩,
      Nat.add_sub_cancel_left]
  simp only [readSpan, hvalues, hbetween, bind_ok, pure_ok, Except.ok.injEq, exists_eq_left']

/-- Reading a selection gives what the nodes hold at its elements, in their order. -/
theorem read_eq {m : Model} {t : ElementType} {e : Selection}
    (h : ∀ s ∈ e.spans, s.Resolves m t ∧ s.Fits) :
    ∃ values, m.read t e = .ok values ∧ e.pick? (m.buffer? t) = some values := by
  -- span by span, as both sides go through the selection
  have hruns : ∀ spans : List Span, (∀ s ∈ spans, s.Resolves m t ∧ s.Fits) → ∃ runs,
      spans.mapM (m.readSpan t) = .ok runs ∧ spans.mapM (Span.pick? (m.buffer? t)) = some runs := by
    intro spans
    induction spans with
    | nil => exact fun _ => ⟨[], rfl, rfl⟩
    | cons s rest ih =>
      intro hspans
      obtain ⟨hs, hf⟩ := hspans s List.mem_cons_self
      obtain ⟨run, hrun, hpick⟩ := readSpan_eq hs hf
      obtain ⟨runs, hruns, hpicks⟩ := ih fun s hs => hspans s (List.mem_cons_of_mem _ hs)
      refine ⟨run :: runs, ?_, ?_⟩
      · rw [List.mapM_cons, hrun, hruns]
        rfl
      · rw [List.mapM_cons, hpick, hpicks]
        rfl
  obtain ⟨runs, hread, hpick⟩ := hruns e.spans h
  refine ⟨runs.flatten, ?_, ?_⟩
  · rw [read, hread]
    rfl
  · rw [Selection.pick?_eq, hpick]
    rfl

end Model

/-- The text that tells of the element `index` of an operation, which has no result. -/
def Node.undefinedAt (n : Node) (op : Operation) (x y : n.type.Value) (index : Nat) : String :=
  n.type.display x ++ " " ++ op.name ++ " " ++ n.type.display y ++
    " is undefined at element " ++ toString index

/-- `detail` tells of the first element without a result of the operation that `n` carries out on
the values of other nodes. -/
def Node.Fails (n : Node) (value : NodeId → Option (List n.type.Value)) (detail : String) : Prop :=
  ∃ numeric op left right xs ys, ∃ index : Nat, ∃ x y,
    n.body = .operation numeric op left right ∧ left.pick? value = some xs ∧
      right.pick? value = some ys ∧ (xs.zip ys)[index]? = some (x, y) ∧
        op.meaning? n.type x y = none ∧
          (∀ p ∈ (xs.zip ys).take index, (op.meaning? n.type p.1 p.2).isSome) ∧
            detail = n.undefinedAt op x y index

namespace Node

/-- How a node fails is decided by what it depends on. -/
theorem Fails.congr {n : Node} {v w : NodeId → Option (List n.type.Value)} {detail : String}
    (hf : n.Fails v detail) (h : ∀ d ∈ n.dependencies, v d = w d) : n.Fails w detail := by
  obtain ⟨numeric, op, left, right, xs, ys, index, x, y, hbody, hxs, hys, hrest⟩ := hf
  have hspans := spans_operation hbody
  -- both operands are read from what the node depends on
  have hpick : ∀ e : Selection, e.spans ⊆ n.spans → e.pick? w = e.pick? v := by
    intro e he
    apply Selection.pick?_congr
    intro s hs
    exact (h _ (mem_dependencies.mpr ⟨s, he hs, rfl⟩)).symm
  refine ⟨numeric, op, left, right, xs, ys, index, x, y, hbody, ?_, ?_, hrest⟩
  · rw [hpick left (by simp [hspans]), hxs]
  · rw [hpick right (by simp [hspans]), hys]

/-- Combining gives a result for every pair of elements, or stops at the first pair without. -/
theorem combine_eq (n : Node) (op : Operation) (index : Nat) (xs ys : List n.type.Value) :
    (∃ zs, (xs.zip ys).mapM (fun p => op.meaning? n.type p.1 p.2) = some zs ∧
      n.combine op index xs ys = .ok zs) ∨
    (∃ (k : Nat) (x y : n.type.Value),
      (xs.zip ys).mapM (fun p => op.meaning? n.type p.1 p.2) = none ∧
        (xs.zip ys)[k]? = some (x, y) ∧ op.meaning? n.type x y = none ∧
          (∀ p ∈ (xs.zip ys).take k, (op.meaning? n.type p.1 p.2).isSome) ∧
            n.combine op index xs ys =
              .error (.arithmetic n.id (n.undefinedAt op x y (index + k)))) := by
  induction xs generalizing index ys with
  | nil =>
    left
    exact ⟨[], rfl, by rw [combine]; simp⟩
  | cons x xs ih =>
    cases ys with
    | nil =>
      left
      exact ⟨[], rfl, by rw [combine]; simp⟩
    | cons y ys =>
      rw [combine, Operation.apply_eq_meaning, List.zip_cons_cons, List.mapM_cons]
      cases hz : op.meaning? n.type x y with
      | none =>
        right
        refine ⟨0, x, y, by simp, by simp, hz, by simp, ?_⟩
        simp [undefinedAt]
      | some z =>
        rcases ih (index + 1) ys with ⟨zs, hzs, hok⟩ | ⟨k, x', y', hnone, hk, hundef, hbefore, herr⟩
        · left
          refine ⟨z :: zs, ?_, ?_⟩
          · simp [hzs]
          · simp only [hok]
            rfl
        · right
          refine ⟨k + 1, x', y', ?_, by simpa using hk, hundef, ?_, ?_⟩
          · simp [hnone]
          · intro p hp
            rw [List.take_succ_cons, List.mem_cons] at hp
            rcases hp with rfl | hp
            · simp [hz]
            · exact hbefore p hp
          · simp only [herr, Nat.add_assoc, Nat.add_comm 1 k]
            rfl

end Node

namespace Model

/-- Evaluating a node gives its value in terms of what the others hold. -/
theorem evaluate_eq {m : Model} {n : Node} (hn : n.Sized) (hsize : n.size < sizeLimit)
    (h : ∀ s ∈ n.spans, s.Resolves m n.type ∧ s.Fits) :
    (∃ values, n.value? (m.buffer? n.type) = some values ∧ m.evaluate n = .ok values) ∨
    (∃ detail, n.value? (m.buffer? n.type) = none ∧ n.Fails (m.buffer? n.type) detail ∧
      m.evaluate n = .error (.arithmetic n.id detail)) := by
  rcases n with ⟨id, t, body, buffer⟩
  cases body with
  | input values => exact .inl ⟨values, rfl, if_pos hn⟩
  | constant values => exact .inl ⟨values, rfl, if_pos hn⟩
  | output source =>
    left
    have hspans : ∀ s ∈ source.spans, s.Resolves m t ∧ s.Fits := by
      simpa [Node.spans, Node.inlets] using h
    obtain ⟨values, hread, hpick⟩ := read_eq hspans
    -- below the limit a size counts every element, so that the values fit the buffer
    have hlength : values.length = buffer.length := by
      have hsource : source.size = buffer.length := hn
      have hbound : buffer.length < sizeLimit := hsize
      rw [Selection.length_pick? hpick, ← Selection.size_of_lt (by omega), hsource]
    refine ⟨values, hpick, ?_⟩
    simp only [evaluate, hread]
    exact if_pos hlength
  | operation numeric op left right =>
    have hspans : ∀ s, s ∈ left.spans ∨ s ∈ right.spans → s.Resolves m t ∧ s.Fits := by
      simpa [Node.spans, Node.inlets] using h
    obtain ⟨xs, hxs, hpickx⟩ := read_eq fun s hs => hspans s (.inl hs)
    obtain ⟨ys, hys, hpicky⟩ := read_eq fun s hs => hspans s (.inr hs)
    -- both operands have as many values as the buffer, and so has what they combine to
    have hlength : xs.length = buffer.length ∧ ys.length = buffer.length := by
      obtain ⟨hleft, hright⟩ : left.size = buffer.length ∧ right.size = buffer.length := hn
      have hbound : buffer.length < sizeLimit := hsize
      rw [Selection.length_pick? hpickx, Selection.length_pick? hpicky,
        ← Selection.size_of_lt (by omega), ← Selection.size_of_lt (by omega)]
      exact ⟨hleft, hright⟩
    have heval : m.evaluate ⟨id, t, .operation numeric op left right, buffer⟩ =
        (Node.combine ⟨id, t, .operation numeric op left right, buffer⟩ op 0 xs ys >>=
          Outlet.checkValues (Node.outlet ⟨id, t, .operation numeric op left right, buffer⟩)) := by
      simp only [evaluate, hxs, hys]
      rfl
    rcases Node.combine_eq ⟨id, t, .operation numeric op left right, buffer⟩ op 0 xs ys with
      ⟨zs, hzs, hok⟩ | ⟨k, x, y, hnone, hk, hundef, hbefore, herr⟩
    · left
      have hzlength : zs.length = buffer.length := by
        rw [mapM_length hzs, List.length_zip]
        omega
      refine ⟨zs, ?_, ?_⟩
      · simpa [Node.value?, hpickx, hpicky] using hzs
      · rw [heval, hok]
        exact if_pos hzlength
    · right
      refine ⟨_, ?_, ⟨numeric, op, left, right, xs, ys, k, x, y, rfl, hpickx, hpicky, hk, hundef,
        hbefore, rfl⟩, ?_⟩
      · simpa [Node.value?, hpickx, hpicky] using hnone
      · rw [Nat.zero_add] at herr
        rw [heval, herr]
        rfl

theorem node?_replace {m : Model} {n : Node} (hn : m.node? n.id = some n) (n' : Node)
    (hid : n'.id = n.id) (id : NodeId) :
    (m.replace n').node? id = if id = n.id then some n' else m.node? id := by
  have hids : ∀ old ∈ m.nodes, (if old.id = n'.id then n' else old).id = old.id := by
    intro old _
    split
    case isTrue heq => exact heq.symm
    case isFalse => rfl
  refine (node?_mapNodes hids id).trans ?_
  split
  case isTrue heq => rw [heq, hn, Option.map_some, if_pos hid.symm]
  case isFalse hne =>
    cases hk : m.node? id with
    | none => rfl
    | some k => rw [Option.map_some, if_neg (by rw [(node?_eq_some hk).2, hid]; exact hne)]

/-- The nodes that are `done` hold their meaning in `m'`, which is `m` but for its buffers. -/
def Settled (m m' : Model) (done : List NodeId) : Prop :=
  m.Rebuffers m' ∧ ∀ id ∈ done, ∀ t, m'.buffer? t id = m.reference t id

/-- For elements of another type a node neither holds nor means anything. -/
theorem buffer?_eq_reference {m m' : Model} {n : Node} {held : List n.type.Value}
    (hn : m.node? n.id = some n) (hn' : m'.node? n.id = some { n with buffer := held })
    (hmeans : m.reference n.type n.id = some held) (t : ElementType) :
    m'.buffer? t n.id = m.reference t n.id := by
  by_cases ht : n.type = t
  · subst ht
    rw [hmeans]
    exact buffer?_of_node? hn'
  · rw [reference_of_type_ne hn ht, buffer?, hn', Option.bind_eq_bind, Option.bind_some, dif_neg ht]

/-- What a node evaluates to when everything it depends on is settled. -/
theorem Settled.evaluate {m m' : Model} (hwf : m.WellFormed) (ha : m.Allocatable)
    {done : List NodeId} (h : m.Settled m' done) {n : Node} (hn : n ∈ m.nodes)
    (hready : n.dependencies ⊆ done) {held : List n.type.Value}
    (hn' : m'.node? n.id = some { n with buffer := held }) :
    (∃ values, m.reference n.type n.id = some values ∧
      m'.evaluate { n with buffer := held } = .ok values) ∨
    (∃ detail, m.reference n.type n.id = none ∧ n.Fails (m.reference n.type) detail ∧
      m'.evaluate { n with buffer := held } = .error (.arithmetic n.id detail)) := by
  obtain ⟨hr, hsettled⟩ := h
  have hwf' := hr.wellFormed hwf
  have ha' := hr.allocatable ha
  have hmem' := (node?_eq_some hn').1
  -- what the node reads from was computed before it
  have hdeps : ∀ d ∈ n.dependencies, m'.buffer? n.type d = m.reference n.type d :=
    fun d hd => hsettled d (hready hd) n.type
  have hvalue : n.value? (m'.buffer? n.type) = m.reference n.type n.id := by
    rw [reference_of_mem hwf hn]
    exact Node.value?_congr hdeps
  have heval := evaluate_eq (hwf'.sized _ hmem') (ha' _ hmem') fun s hs =>
    ⟨hwf'.resolves _ hmem' s hs, fits_of_resolves ha' (hwf'.resolves _ hmem' s hs)⟩
  simp only [Node.value?_buffer, hvalue] at heval
  rcases heval with ⟨values, hsome, hok⟩ | ⟨detail, hnone, hfails, herr⟩
  · exact .inl ⟨values, hsome, hok⟩
  · have hfails : n.Fails (m'.buffer? n.type) detail := hfails
    exact .inr ⟨detail, hnone, hfails.congr hdeps, herr⟩

/-- One step: a node whose dependencies are settled gets settled, or has no meaning. -/
theorem Settled.computeNode {m m' : Model} (hwf : m.WellFormed) (ha : m.Allocatable)
    {done : List NodeId} (h : m.Settled m' done) {n : Node} (hn : n ∈ m.nodes)
    (hready : n.dependencies ⊆ done) (hnew : n.id ∉ done) :
    (∃ m'', m'.computeNode n.id = .ok m'' ∧ m.Settled m'' (done ++ [n.id]) ∧
      (∀ id, id ≠ n.id → m''.node? id = m'.node? id) ∧ (m.reference n.type n.id).isSome) ∨
    (∃ detail, m'.computeNode n.id = .error (.arithmetic n.id detail) ∧
      m.reference n.type n.id = none ∧ n.Fails (m.reference n.type) detail) := by
  have hnode := node?_of_mem hwf.distinct hn
  obtain ⟨n', hn', held, hheld, rfl⟩ := h.1.node? hnode
  have hdist' : m'.ids.Nodup := (h.1.wellFormed hwf).distinct
  have hstep : m'.computeNode n.id =
      (m'.computed { n with buffer := held } >>= fun k => .ok (m'.replace k)) := by
    rw [Model.computeNode, node, hn']
    rfl
  rcases h.evaluate hwf ha hn hready hn' with ⟨values, hmeans, hok⟩ | ⟨detail, hnone, hfails, herr⟩
  · left
    have hfound :=
      node?_replace (n := { n with buffer := held }) hn' { n with buffer := values } rfl
    have hself : (m'.replace { n with buffer := values }).node? n.id =
        some { n with buffer := values } := by rw [hfound, if_pos rfl]
    have hr : m.Rebuffers (m'.replace { n with buffer := values }) :=
      h.1.trans (rebuffers_replace hdist' (node?_eq_some hn').1 ⟨values, length_evaluate hok, rfl⟩)
    refine ⟨m'.replace { n with buffer := values }, ?_, ⟨hr, ?_⟩, ?_, by simp [hmeans]⟩
    · rw [hstep, computed, hok]
      rfl
    · intro id hid t
      -- a node that was done keeps its buffer, and `n` has just got its own
      rcases List.mem_append.mp hid with hid | hid
      · have hne : id ≠ n.id := fun heq => hnew (heq ▸ hid)
        rw [buffer?, hfound, if_neg hne]
        exact h.2 id hid t
      · rw [List.mem_singleton.mp hid]
        exact buffer?_eq_reference hnode hself hmeans t
    · intro id hne
      rw [hfound, if_neg hne]
  · right
    refine ⟨detail, ?_, hnone, hfails⟩
    rw [hstep, computed, herr]
    rfl

/-- The run, by induction on the nodes that are still to be computed. It settles them all, or stops
at the first that has no meaning and leaves that one and those after it as they were. -/
theorem Settled.computeAll {m m' : Model} (hwf : m.WellFormed) (ha : m.Allocatable)
    {done : List NodeId} {rest : List Node} (h : m.Settled m' done) (hmem : ∀ n ∈ rest, n ∈ m.nodes)
    (hfollows : Follows done rest) (hnodup : (done ++ rest.map Node.id).Nodup) :
    (∃ m'', m'.computeAll (rest.map Node.id) = (.ok (), m'') ∧
      m.Settled m'' (done ++ rest.map Node.id) ∧
        ∀ n ∈ rest, (m.reference n.type n.id).isSome) ∨
    (∃ before n after detail m'', rest = before ++ n :: after ∧
      m'.computeAll (rest.map Node.id) = (.error (.arithmetic n.id detail), m'') ∧
        m.Settled m'' (done ++ before.map Node.id) ∧
          (∀ k ∈ before, (m.reference k.type k.id).isSome) ∧
            m.reference n.type n.id = none ∧ n.Fails (m.reference n.type) detail ∧
              ∀ id ∈ n.id :: after.map Node.id, m''.node? id = m'.node? id) := by
  induction rest generalizing done m' with
  | nil => exact .inl ⟨m', rfl, by simpa using h, by simp⟩
  | cons n rest ih =>
    have hn := hmem n List.mem_cons_self
    have hnodup' : ((done ++ [n.id]) ++ rest.map Node.id).Nodup := by simpa using hnodup
    have hnew : n.id ∉ done := fun hid =>
      (List.nodup_append.mp hnodup).2.2 _ hid _ List.mem_cons_self rfl
    rw [List.map_cons, Model.computeAll]
    rcases h.computeNode hwf ha hn hfollows.1 hnew with
      ⟨m₁, hstep, hsettled, hframe, hsome⟩ | ⟨detail, hstep, hnone, hfails⟩
    · rw [hstep]
      rcases ih hsettled (fun k hk => hmem k (List.mem_cons_of_mem _ hk)) hfollows.2 hnodup' with
        ⟨m₂, hrun, hall, hdefined⟩ |
        ⟨before, k, after, detail, m₂, rfl, hrun, hall, hdefined, hnone, hfails, hkept⟩
      · left
        exact ⟨m₂, hrun, by simpa using hall, List.forall_mem_cons.mpr ⟨hsome, hdefined⟩⟩
      · right
        refine ⟨n :: before, k, after, detail, m₂, rfl, hrun, by simpa using hall,
          List.forall_mem_cons.mpr ⟨hsome, hdefined⟩, hnone, hfails, fun id hid => ?_⟩
        -- the step changed only `n`, which comes before these
        have hne : id ≠ n.id := by
          rintro rfl
          refine (List.nodup_append.mp hnodup').2.2 n.id (by simp) n.id ?_ rfl
          rw [List.map_append, List.map_cons]
          exact List.mem_append_right _ hid
        rw [hkept id hid, hframe id hne]
    · right
      rw [hstep]
      exact ⟨[], n, rest, detail, m', rfl, rfl, by simpa using h, by simp, hnone, hfails,
        fun id _ => rfl⟩

/-- A model whose nodes are all settled holds its meaning everywhere. -/
theorem Settled.all {m m' : Model} {ids : List NodeId} (h : m.Settled m' ids)
    (hids : ∀ id ∈ m.ids, id ∈ ids) (t : ElementType) (id : NodeId) :
    m'.buffer? t id = m.reference t id := by
  by_cases hid : id ∈ m.ids
  · exact h.2 id (hids id hid) t
  · have hnone : m'.node? id = none := by
      rw [← h.1.ids, ← contains_eq_false, contains] at hid
      simpa using hid
    rw [reference_of_notMem hid, buffer?, hnone]
    rfl

/-- The two ways in which computing ends. -/
theorem WellFormed.compute_cases {m m₀ : Model} (hwf : m.WellFormed) (ha : m.Allocatable)
    (hb : m.Rebuffers m₀) {ids : List NodeId} (ho : m.order = .ok ids) :
    (∃ m₁, m₀.compute = (.ok (), m₁) ∧ m.Settled m₁ ids ∧
      ∀ n ∈ m.nodes, (m.reference n.type n.id).isSome) ∨
    (∃ before n after detail m₁, ids = before ++ n.id :: after ∧ n ∈ m.nodes ∧
      m₀.compute = (.error (.arithmetic n.id detail), m₁) ∧ m.Settled m₁ before ∧
        (∀ k ∈ m.nodes, k.id ∈ before → (m.reference k.type k.id).isSome) ∧
          m.reference n.type n.id = none ∧ n.Fails (m.reference n.type) detail ∧
            ∀ id ∈ n.id :: after, m₁.node? id = m₀.node? id) := by
  obtain ⟨-, listed, rfl, hperm, hfollows⟩ := order_ok ho
  have hnodup : (listed.map Node.id).Nodup := (order_perm ho).nodup_iff.mpr hwf.distinct
  have hcompute : m₀.compute = m₀.computeAll (listed.map Node.id) := by
    rw [Model.compute, hb.order ho]
  have hstart : m.Settled m₀ [] := ⟨hb, by simp⟩
  rw [hcompute]
  rcases hstart.computeAll hwf ha (fun n hn => hperm.mem_iff.mp hn) hfollows (by simpa using hnodup)
    with ⟨m₁, hrun, hsettled, hdefined⟩ |
      ⟨before, n, after, detail, m₁, rfl, hrun, hsettled, hdefined, hnone, hfails, hkept⟩
  · left
    exact ⟨m₁, hrun, by simpa using hsettled, fun n hn => hdefined n (hperm.mem_iff.mpr hn)⟩
  · right
    refine ⟨before.map Node.id, n, after.map Node.id, detail, m₁, by simp,
      hperm.mem_iff.mp (by simp), hrun, by simpa using hsettled, fun k hk hbefore => ?_, hnone,
      hfails, hkept⟩
    -- the id names one node only, the one that was listed
    obtain ⟨k', hk', hid⟩ := List.mem_map.mp hbefore
    have hsame : k' = k := List.inj_on_of_nodup_map hwf.distinct
      (hperm.mem_iff.mp (by simp [hk'])) hk hid
    exact hsame ▸ hdefined k' hk'

end Model

/-- Computing is meaning. Whatever the buffers held before, it succeeds exactly if every node has a
value; then each buffer holds the value of its node, and every selection reads the values at its
elements. Otherwise the error is that of the first node in the order without a value, the nodes
before it hold their values, and it and those after it are as they were. -/
theorem Reachable.compute_eq_reference {s : Supply} {m m₀ : Model} (h : Reachable s m)
    (ha : m.Allocatable) (hb : m.Rebuffers m₀) :
    ∃ ids m₁, m.order = .ok ids ∧ ids.Perm m.ids ∧ m₀.compute.2 = m₁ ∧ m.Rebuffers m₁ ∧
      (m₀.compute.1 = .ok () ↔ ∀ n ∈ m.nodes, (m.reference n.type n.id).isSome) ∧
      (m₀.compute.1 = .ok () → (∀ t id, m₁.buffer? t id = m.reference t id) ∧
        ∀ t e, (∀ s ∈ e.spans, s.Resolves m t) →
          ∃ values, e.pick? (m.reference t) = some values ∧ m₁.read t e = .ok values) ∧
      ∀ e, m₀.compute.1 = .error e → ∃ before n after detail,
        ids = before ++ n.id :: after ∧ n ∈ m.nodes ∧ e = .arithmetic n.id detail ∧
          m.reference n.type n.id = none ∧ n.Fails (m.reference n.type) detail ∧
          (∀ k ∈ m.nodes, k.id ∈ before → (m.reference k.type k.id).isSome) ∧
          (∀ id ∈ before, ∀ t, m₁.buffer? t id = m.reference t id) ∧
          ∀ id ∈ n.id :: after, m₁.node? id = m₀.node? id := by
  obtain ⟨hwf, -⟩ := h.wellFormed
  obtain ⟨ids, ho⟩ := hwf.ordered
  refine ⟨ids, _, ho, Model.order_perm ho, rfl, ?_⟩
  rcases hwf.compute_cases ha hb ho with ⟨m₁, hrun, hsettled, hdefined⟩ |
    ⟨before, n, after, detail, m₁, hids, hn, hrun, hsettled, hdefined, hnone, hfails, hkept⟩
  · rw [hrun]
    have hall := hsettled.all fun id hid => (Model.order_perm ho).mem_iff.mpr hid
    refine ⟨hsettled.1, ⟨fun _ => hdefined, fun _ => rfl⟩, ?_, ?_⟩
    · refine fun _ => ⟨hall, fun t e he => ?_⟩
      have hspans : ∀ s ∈ e.spans, s.Resolves m₁ t ∧ s.Fits := fun s hs =>
        ⟨hsettled.1.resolves (he s hs), Model.fits_of_resolves ha (he s hs)⟩
      obtain ⟨values, hread, hpick⟩ := Model.read_eq hspans
      -- what is read are buffers, which hold meanings by now
      rw [Selection.pick?_congr fun s _ => hall t s.source.node] at hpick
      exact ⟨values, hpick, hread⟩
    · intro e he
      cases he
  · rw [hrun]
    refine ⟨hsettled.1, ⟨?_, fun hall => ?_⟩, ?_, ?_⟩
    · intro hok
      cases hok
    · have hsome := hall n hn
      rw [hnone] at hsome
      cases hsome
    · intro hok
      cases hok
    · intro e he
      obtain rfl := Except.error.inj he
      exact ⟨before, n, after, detail, hids, hn, rfl, hnone, hfails, hdefined, hsettled.2, hkept⟩

theorem ElementType.isNumeric_int : ElementType.int.isNumeric = true := rfl

/-- Six divided by an input, which is zero until it is set. -/
def quotientModel : Model :=
  ⟨[.input ⟨1⟩ .int 1, .constant ⟨2⟩ .int [(6 : Int32)],
    ⟨⟨3⟩, .int, .operation ElementType.isNumeric_int .divide (.single ⟨⟨⟨2⟩, "output"⟩, 0, 1⟩)
      (.single ⟨⟨⟨1⟩, "output"⟩, 0, 1⟩), [(0 : Int32)]⟩,
    .output ⟨4⟩ .int (.single ⟨⟨⟨3⟩, "output"⟩, 0, 1⟩)]⟩

/-- The quotient without its output node. -/
theorem quotient_reachable : Reachable ⟨4⟩ ⟨quotientModel.nodes.take 3⟩ := by
  have hissued : ∀ k < 4, Supply.Issued ⟨4⟩ (NodeId.nth k) := fun k hk => ⟨k, hk, rfl⟩
  have h₁ := (Reachable.empty ⟨4⟩).add (.input (hissued 0 (by decide)) .int 1) rfl
  have h₂ := h₁.add (.constant (hissued 1 (by decide)) .int [(6 : Int32)]) rfl
  have hquotient : Node.operation (NodeId.nth 2) .int rfl .divide
      (.single ⟨⟨⟨2⟩, "output"⟩, 0, 1⟩) (.single ⟨⟨⟨1⟩, "output"⟩, 0, 1⟩) =
        .ok quotientModel.nodes[2] := rfl
  exact h₂.add (.operation (hissued 2 (by decide)) hquotient) rfl

theorem quotientModel_reachable : Reachable ⟨4⟩ quotientModel := by
  have hissued : Supply.Issued ⟨4⟩ (NodeId.nth 3) := ⟨3, by decide, rfl⟩
  exact quotient_reachable.add (.output hissued .int (.single ⟨⟨⟨3⟩, "output"⟩, 0, 1⟩)) rfl

theorem quotientModel_allocatable : quotientModel.Allocatable := by decide

theorem compute_eq_reference_quotientModel :
    Reachable ⟨4⟩ quotientModel ∧ quotientModel.Allocatable ∧
      (quotientModel.compute.1 = .ok () ↔
        ∀ n ∈ quotientModel.nodes, (quotientModel.reference n.type n.id).isSome) := by
  obtain ⟨_, _, -, -, -, -, hiff, -, -⟩ := Reachable.compute_eq_reference quotientModel_reachable
    quotientModel_allocatable (.refl quotientModel)
  exact ⟨quotientModel_reachable, quotientModel_allocatable, hiff⟩

end FlowGraph
