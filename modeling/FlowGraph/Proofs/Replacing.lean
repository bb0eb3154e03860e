import FlowGraph.Graph.InPlace
import FlowGraph.Proofs.Storing

/-! Reading selections, inlets and outlets in place: all of what is there is replaced, or nothing of
it. Selections are read exactly if their sizes can be, one by one and together. -/
namespace FlowGraph

namespace Archive

variable {σ τ α : Type} {s : σ} {put : τ → σ}

/-- What is in the place of `s` after a reading: all that was read, or `s` as it was. -/
def settle (s : σ) (put : τ → σ) : Except Error τ → Except Error Unit × σ
  | .ok x => (.ok (), put x)
  | .error e => (.error e, s)

theorem settle_ok {result : Except Error τ} {s' : σ} :
    settle s put result = (.ok (), s') ↔ ∃ x, result = .ok x ∧ put x = s' := by
  cases result <;> simp [settle]

theorem settle_error {result : Except Error τ} {s' : σ} {e : Error} :
    settle s put result = (.error e, s') ↔ result = .error e ∧ s' = s := by
  cases result <;> simp [settle, eq_comm]

namespace Update

/-- A failure leaves the state as it was. -/
def AllOrNothing (u : Update σ Unit) : Prop :=
  ∀ s s' e, u.apply s = (.error e, s') → s' = s

/-- What a reading settles, and nothing else, is all or nothing. -/
theorem allOrNothing_of_settle {u : Update σ Unit} {read : σ → Type} {put : (s : σ) → read s → σ}
    {result : (s : σ) → Except Error (read s)} (h : ∀ s, u.apply s = settle s (put s) (result s)) :
    u.AllOrNothing := by
  intro s s' e hrun
  rw [h] at hrun
  exact (settle_error.mp hrun).2

theorem apply_get_bind (next : σ → Update σ Unit) (s : σ) :
    (get >>= next).apply s = (next s).apply s := rfl

/-- A reading that changes nothing comes first on both sides. -/
theorem apply_read {result : Except Error α} {next : α → Update σ Unit} {rest : α → Except Error τ}
    (h : ∀ x, (next x).apply s = settle s put (rest x)) :
    (ofExcept result >>= next).apply s = settle s put (result >>= rest) := by
  cases result with
  | error e => rfl
  | ok x => exact h x

theorem apply_check {failing : Prop} [Decidable failing] {e : Error} {next : Update σ Unit}
    {rest : Except Error τ} (h : next.apply s = settle s put rest) :
    (do
      if failing then throw e
      next : Update σ Unit).apply s =
      settle s put (do
        if failing then throw e
        rest) := by
  split
  · rfl
  · exact h

/-- What is read into a part is put back in any case, and was not changed if that failed. -/
theorem apply_within {υ : Type} {name : String} {part : σ → υ} {replace : σ → υ → σ}
    {u : Update υ Unit} {take : τ → υ} {rest : Except Error τ} (hself : replace s (part s) = s)
    (h : u.apply (part s) = settle (part s) take rest) :
    (within name part replace u).apply s =
      settle s (fun x => replace s (take x)) (Archive.within name rest) := by
  change (Archive.within name (u.apply (part s)).1, replace s (u.apply (part s)).2) = _
  rw [h]
  cases rest with
  | ok x => rfl
  | error e => exact congrArg (Prod.mk _) hself

end Update

end Archive

open Archive (Update settle settle_ok settle_error)

/-- A span takes over what is read. When the reading fails it is left in between. -/
theorem Span.apply_restore (a : Archive) (s : Span) :
    ∃ left, (restore a).apply s = settle left (fun read => read) (ofArchive a) := by
  unfold restore ofArchive
  cases a.read Archive.Value.asUInt64 "node" with
  | error e => exact ⟨s, rfl⟩
  | ok node =>
    cases a.read Archive.Value.asString "port" with
    | error e => exact ⟨s, rfl⟩
    | ok name =>
      -- from here on the address is the new one, whether the run can be read or not
      refine ⟨{ s with source := ⟨⟨node⟩, name⟩ }, ?_⟩
      exact Update.apply_read fun start => Update.apply_read fun count => Update.apply_check rfl

/-- So a span alone is not all or nothing. -/
example : ((Span.restore (.ofList [("node", .uint 5), ("port", .string "left")])).apply default).2 =
    ⟨⟨⟨5⟩, "left"⟩, 0, 0⟩ := by
  rfl

namespace Selection

/-- By induction on the items: the spans before them are kept aside until the last one is read. -/
theorem apply_restoreFrom (items : List Archive) (index total : Nat) (spans : List Span)
    (e : Selection) :
    (restoreFrom index total spans items).apply e =
      settle e (fun rest => ⟨spans ++ rest⟩) (spansOfArchive index total items) := by
  induction items generalizing index total spans with
  | nil =>
    rw [restoreFrom, spansOfArchive, settle, List.append_nil]
    rfl
  | cons item rest ih =>
    -- what the span of a failed item was left as is never looked at
    obtain ⟨left, hitem⟩ := Span.apply_restore item default
    rw [restoreFrom, hitem, spansOfArchive]
    cases Span.ofArchive item with
    | error err => rfl
    | ok s =>
      refine Update.apply_check ((ih (index + 1) (total + s.count.toNat) (spans ++ [s])).trans ?_)
      cases spansOfArchive (index + 1) (total + s.count.toNat) rest with
      | error err => rfl
      | ok others =>
        rw [settle, List.append_assoc]
        rfl

theorem apply_restore (a : Archive) (e : Selection) :
    (restore a).apply e = settle e (fun read => read) (ofArchive a) := by
  refine Update.apply_read fun items => (apply_restoreFrom items 0 0 [] e).trans ?_
  cases spansOfArchive 0 0 items <;> rfl

end Selection

theorem Inlet.apply_restore (a : Archive) (i : Inlet) :
    (restore a).apply i =
      settle i (fun selection => { i with selection }) (selectionOfArchive i.type a) := by
  rw [restore, Update.apply_get_bind]
  refine Update.apply_read fun _ => Update.apply_read fun elements => ?_
  exact Update.apply_within rfl (Selection.apply_restore elements i.selection)

theorem Outlet.apply_restore (a : Archive) (o : Outlet) :
    (restore a).apply o =
      settle o (fun values => { o with values }) (valuesOfArchive o.type a) := by
  rw [restore, Update.apply_get_bind]
  exact Update.apply_read fun _ => Update.apply_read fun size => Update.apply_check rfl

/-- Why `s` cannot be read after the spans `before`: its end is no size, or the elements are too
many with it. -/
inductive Span.Overflows (before : List Span) (s : Span) : Archive.Error → Prop
  | stop (h : ¬ s.Fits) :
    Overflows before s (.property (Archive.itemName "ranges" before.length) (.outOfRange
      "element range" (toString s.start.toNat ++ " + " ++ toString s.count.toNat)))
  | total (hs : s.Fits)
    (h : sizeLimit < (before.map (·.count.toNat)).sum + s.count.toNat) :
    Overflows before s (.outOfRange "element count"
      (toString (before.map (·.count.toNat)).sum ++ " + " ++ toString s.count.toNat))

theorem Span.Overflows.innermost {before : List Span} {s : Span} {e : Archive.Error}
    (h : s.Overflows before e) : ∃ target text, e.innermost = .outOfRange target text := by
  cases h <;> exact ⟨_, _, rfl⟩

namespace Selection

/-- By induction on the spans still to be read: the first one that overflows is the error. -/
theorem spansOfArchive_overflow (rest : List Span) {done : List Span} (hdone : Bounded ⟨done⟩)
    (h : ¬ Bounded ⟨done ++ rest⟩) :
    ∃ before s after err, done ++ rest = before ++ s :: after ∧ Bounded ⟨before⟩ ∧
      s.Overflows before err ∧
      spansOfArchive done.length (done.map (·.count.toNat)).sum (rest.map Span.toArchive) =
        .error err := by
  induction rest generalizing done with
  | nil => exact absurd hdone (by rwa [List.append_nil] at h)
  | cons s rest ih =>
    rw [List.map_cons, spansOfArchive]
    by_cases hs : s.Fits
    case neg =>
      rw [s.storedAs_toArchive.ofArchive_eq, if_pos (Nat.lt_of_not_le hs)]
      exact ⟨done, s, rest, _, rfl, hdone, .stop hs, rfl⟩
    rw [Span.ofArchive_toArchive hs]
    by_cases hsum : sizeLimit < (done.map (·.count.toNat)).sum + s.count.toNat
    case pos => exact ⟨done, s, rest, _, rfl, hdone, .total hs hsum, if_pos hsum⟩
    have hnext : Bounded ⟨done ++ [s]⟩ := by
      refine ⟨?_, ?_⟩
      · exact List.forall_mem_append.mpr ⟨hdone.1, List.forall_mem_singleton.mpr hs⟩
      · simpa using hsum
    obtain ⟨before, k, after, err, hsplit, hbefore, hoverflow, hrun⟩ := ih hnext (by simpa using h)
    refine ⟨before, k, after, err, by simpa using hsplit, hbefore, hoverflow, ?_⟩
    rw [List.length_append, List.length_singleton, List.map_append, List.map_singleton,
      List.sum_append, List.sum_singleton] at hrun
    refine (if_neg hsum).trans ?_
    rw [hrun]
    rfl

theorem ofArchive_toArchive_overflow {e : Selection} (h : ¬ e.Bounded) :
    ∃ before s after err, e.spans = before ++ s :: after ∧ Bounded ⟨before⟩ ∧
      s.Overflows before err ∧ ofArchive e.toArchive = .error err := by
  have hnothing : Bounded ⟨[]⟩ := ⟨fits_empty, Nat.zero_le _⟩
  obtain ⟨before, s, after, err, hsplit, hbefore, hoverflow, hrun⟩ :=
    spansOfArchive_overflow e.spans hnothing h
  have hranges : e.toArchive.objects "ranges" = .ok (e.spans.map Span.toArchive) := by
    rw [Archive.objects_ok, toArchive, Archive.get?_ofList, List.map_map]
    rfl
  refine ⟨before, s, after, err, hsplit, hbefore, hoverflow, ?_⟩
  rw [ofArchive, hranges]
  change (spansOfArchive 0 0 _ >>= _) = _
  rw [show spansOfArchive 0 0 (e.spans.map Span.toArchive) = .error err from hrun]
  rfl

theorem restore_ok {a : Archive} {e read : Selection} :
    (restore a).apply e = (.ok (), read) ↔ read.StoredAs a ∧ read.Bounded := by
  rw [apply_restore, settle_ok, ← ofArchive_ok_iff]
  exact exists_eq_right

end Selection

theorem Inlet.restore_ok {a : Archive} {i read : Inlet} :
    (restore a).apply i = (.ok (), read) ↔ a.get? "type" = some (.string i.type.name) ∧
      ∃ (elements : Archive) (selection : Selection), a.get? "elements" = some elements.toValue ∧
        selection.StoredAs elements ∧ selection.Bounded ∧ read = { i with selection } := by
  simp only [apply_restore, settle_ok, selectionOfArchive_ok, Selection.ofArchive_ok_iff]
  constructor
  · rintro ⟨selection, ⟨htype, elements, helements, hstored, hbounded⟩, rfl⟩
    exact ⟨htype, elements, selection, helements, hstored, hbounded, rfl⟩
  · rintro ⟨htype, elements, selection, helements, hstored, hbounded, rfl⟩
    exact ⟨selection, ⟨htype, elements, helements, hstored, hbounded⟩, rfl⟩

theorem Outlet.restore_ok {a : Archive} {o read : Outlet} :
    (restore a).apply o = (.ok (), read) ↔ a.get? "type" = some (.string o.type.name) ∧
      ∃ (v : Archive.Value) (size : Nat), a.get? "size" = some v ∧ v.Holds size ∧
        size ≤ storedSizeLimit ∧ read = .blank o.address o.type size := by
  simp only [apply_restore, settle_ok, valuesOfArchive_ok]
  constructor
  · rintro ⟨values, ⟨htype, ⟨v, hv, hholds⟩, hlimit, hvalues⟩, rfl⟩
    exact ⟨htype, v, values.length, hv, hholds, hlimit, congrArg (Outlet.mk _ _) hvalues⟩
  · rintro ⟨htype, v, size, hv, hholds, hlimit, rfl⟩
    refine ⟨List.replicate size o.type.default, ⟨htype, ⟨v, hv, ?_⟩, ?_, ?_⟩, rfl⟩
    · rwa [List.length_replicate]
    · rwa [List.length_replicate]
    · rw [List.length_replicate]

/-- Reading in place is all or nothing for selections, inlets and outlets, and each of them takes
over what its archive says. A selection is read from the archives that hold its spans if these are
bounded, and is exactly these then; so a stored one comes back as it was, or the reading stops at
the first of its spans that overflows and has changed nothing. -/
theorem Selection.restore_all_or_nothing (a : Archive) (e stored : Selection) (i : Inlet)
    (o : Outlet) :
    (restore a).AllOrNothing ∧ (Inlet.restore a).AllOrNothing ∧ (Outlet.restore a).AllOrNothing ∧
    (∀ read, (restore a).apply e = (.ok (), read) ↔ read.StoredAs a ∧ read.Bounded) ∧
    (∀ read, (Inlet.restore a).apply i = (.ok (), read) ↔
      a.get? "type" = some (.string i.type.name) ∧
      ∃ (elements : Archive) (selection : Selection), a.get? "elements" = some elements.toValue ∧
        selection.StoredAs elements ∧ selection.Bounded ∧ read = { i with selection }) ∧
    (∀ read, (Outlet.restore a).apply o = (.ok (), read) ↔
      a.get? "type" = some (.string o.type.name) ∧
      ∃ (v : Archive.Value) (size : Nat), a.get? "size" = some v ∧ v.Holds size ∧
        size ≤ storedSizeLimit ∧ read = .blank o.address o.type size) ∧
    (stored.Bounded → (restore stored.toArchive).apply e = (.ok (), stored)) ∧
    (¬ stored.Bounded → ∃ before s after err, stored.spans = before ++ s :: after ∧
      Bounded ⟨before⟩ ∧ s.Overflows before err ∧
      (restore stored.toArchive).apply e = (.error err, e) ∧
      ∃ target text, err.innermost = .outOfRange target text) := by
  refine ⟨Update.allOrNothing_of_settle (apply_restore a),
    Update.allOrNothing_of_settle (Inlet.apply_restore a),
    Update.allOrNothing_of_settle (Outlet.apply_restore a), fun read => restore_ok,
    fun read => Inlet.restore_ok, fun read => Outlet.restore_ok,
    fun h => restore_ok.mpr ⟨stored.storedAs_toArchive, h⟩, fun h => ?_⟩
  obtain ⟨before, s, after, err, hsplit, hbefore, hoverflow, hrun⟩ := ofArchive_toArchive_overflow h
  refine ⟨before, s, after, err, hsplit, hbefore, hoverflow, ?_, hoverflow.innermost⟩
  rw [apply_restore, hrun, settle]

namespace Selection

/-- Two runs that go on one from the other, with an empty one before them. -/
def pieces : Selection :=
  ⟨[⟨⟨⟨1⟩, "output"⟩, 7, 0⟩, ⟨⟨⟨1⟩, "output"⟩, 0, 2⟩, ⟨⟨⟨1⟩, "output"⟩, 2, 3⟩]⟩

/-- As many elements as a size can be, and one more. -/
def crowd : Selection := ⟨[⟨⟨⟨1⟩, "output"⟩, 0, 0xFFFFFFFFFFFFFFFF⟩, ⟨⟨⟨2⟩, "output"⟩, 4, 1⟩]⟩

theorem restore_all_or_nothing_pieces_crowd :
    (pieces.Bounded ∧ (restore pieces.toArchive).apply crowd = (.ok (), pieces)) ∧
    (¬ crowd.Bounded ∧ ∃ before s after err, crowd.spans = before ++ s :: after ∧
      Bounded ⟨before⟩ ∧ s.Overflows before err ∧
      (restore crowd.toArchive).apply pieces = (.error err, pieces) ∧
      ∃ target text, err.innermost = .outOfRange target text) := by
  have hpieces : pieces.Bounded := by
    refine ⟨?_, by decide⟩
    simp only [Fits, Span.Fits, pieces]
    decide
  have hcrowd : ¬ crowd.Bounded := fun h => absurd h.2 (by decide)
  let i : Inlet := ⟨⟨3⟩, "input", .bool, crowd⟩
  let o : Outlet := .blank ⟨⟨1⟩, "output"⟩ .bool 5
  obtain ⟨-, -, -, -, -, -, hback, -⟩ := restore_all_or_nothing pieces.toArchive crowd pieces i o
  obtain ⟨-, -, -, -, -, -, -, hover⟩ := restore_all_or_nothing crowd.toArchive pieces crowd i o
  exact ⟨⟨hpieces, hback hpieces⟩, hcrowd, hover hcrowd⟩

end Selection

end FlowGraph
