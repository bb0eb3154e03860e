import FlowGraph.Proofs.Carrying
import FlowGraph.Proofs.Storing

/-! The form in which a transformer leaves a selection: no span is empty, and none goes on where the
one before it stops. There is one such form for each sequence of elements. -/
namespace FlowGraph

/-- No span goes on where the one before it stops. -/
def Selection.Apart (e : Selection) : Prop := e.spans.IsChain fun s next => s.join? next = none

/-- The selection names its elements by as few spans as can be. -/
structure Selection.Canonical (e : Selection) : Prop where
  fits : e.Fits
  solid : e.Solid
  apart : e.Apart

namespace Span

/-- Joining makes a span longer, and leaves it where it starts. -/
theorem join?_longer {s next joined : Span} (h : s.join? next = some joined) :
    joined.source = s.source ∧ joined.start = s.start ∧ s.count.toNat ≤ joined.count.toNat := by
  unfold join? at h
  split at h
  case isFalse => cases h
  case isTrue hjoin =>
    obtain rfl := (Option.some.inj h).symm
    refine ⟨rfl, rfl, ?_⟩
    rw [toNat_add_of_le hjoin.2.2]
    omega

/-- What cannot be joined to a span cannot be joined to it when that is longer. -/
theorem join?_of_longer {s next longer : Span} (h : s.join? next = none)
    (hsource : longer.source = next.source) (hstart : longer.start = next.start)
    (hcount : next.count.toNat ≤ longer.count.toNat) : s.join? longer = none := by
  unfold join? at h ⊢
  split at h
  case isTrue => cases h
  case isFalse hapart =>
    refine if_neg fun hjoin => hapart ?_
    rw [hsource, hstart] at hjoin
    exact ⟨hjoin.1, hjoin.2.1, by omega⟩

/-- Spans of one outlet that cannot be joined leave a gap, as their counts fit together. -/
theorem join?_eq_none {s next : Span} (hs : s.Fits) (hnext : next.Fits) :
    s.join? next = none ↔
      (s.source = next.source → s.start.toNat + s.count.toNat ≠ next.start.toNat) := by
  simp only [Fits] at hs hnext
  rw [join?, stop_of_fits hs, ite_eq_right_iff]
  simp only [reduceCtorEq, imp_false, not_and]
  constructor
  · intro h hsource hstop
    exact h hsource hstop (by omega)
  · intro h hsource hstop
    exact (h hsource hstop).elim

end Span

namespace Selection

/-- Pushing leaves the first span where it starts. -/
theorem pushSpan_first (new s : Span) (rest : List Span) :
    ∃ first others, pushSpan new (s :: rest) = first :: others ∧ first.source = s.source ∧
      first.start = s.start ∧ s.count.toNat ≤ first.count.toNat := by
  cases rest with
  | nil =>
    cases hjoin : s.join? new with
    | none => exact ⟨s, [new], by simp only [pushSpan, hjoin], rfl, rfl, Nat.le_refl _⟩
    | some joined =>
      obtain ⟨hsource, hstart, hcount⟩ := Span.join?_longer hjoin
      exact ⟨joined, [], by simp only [pushSpan, hjoin], hsource, hstart, hcount⟩
  | cons next rest => exact ⟨s, pushSpan new (next :: rest), rfl, rfl, rfl, Nat.le_refl _⟩

/-- Pushing keeps spans apart: by induction on the spans, of which only the last one can change. -/
theorem pushSpan_apart (new : Span) (spans : List Span)
    (h : spans.IsChain fun s next => s.join? next = none) :
    (pushSpan new spans).IsChain fun s next => s.join? next = none := by
  induction spans with
  | nil => exact .singleton new
  | cons s rest ih =>
    cases rest with
    | nil =>
      rw [pushSpan]
      cases hjoin : s.join? new with
      | none => exact .cons_cons hjoin (.singleton new)
      | some joined => exact .singleton joined
    | cons next rest =>
      obtain ⟨hapart, hrest⟩ := List.isChain_cons_cons.mp h
      obtain ⟨first, others, hpush, hsource, hstart, hcount⟩ := pushSpan_first new next rest
      have hothers := ih hrest
      -- the next span may have become longer, and is no closer to `s` for that
      rw [hpush] at hothers
      show (s :: pushSpan new (next :: rest)).IsChain _
      rw [hpush]
      exact .cons_cons (Span.join?_of_longer hapart hsource hstart hcount) hothers

theorem foldl_push_apart (spans : List Span) {e : Selection} (h : e.Apart) :
    (spans.foldl push e).Apart := by
  induction spans generalizing e with
  | nil => exact h
  | cons s rest ih =>
    have hstep : (e.push s).Apart := pushSpan_apart s e.spans h
    exact ih hstep

/-- Appending keeps spans apart, whatever is appended. -/
theorem foldl_append_apart (parts : List Selection) {e : Selection} (h : e.Apart) :
    (parts.foldl append e).Apart := by
  induction parts generalizing e with
  | nil => exact h
  | cons part rest ih =>
    have hstep : (e.append part).Apart := foldl_push_apart part.spans h
    exact ih hstep

theorem Canonical.tail {s : Span} {rest : List Span} (h : Canonical ⟨s :: rest⟩) :
    Canonical ⟨rest⟩ where
  fits := fun k hk => h.fits k (List.mem_cons_of_mem _ hk)
  solid := fun k hk => h.solid k (List.mem_cons_of_mem _ hk)
  apart := List.IsChain.tail h.apart

/-- The elements of the first span come first. -/
theorem getElem?_elements {s : Span} {rest : List Span} {i : Nat} (hi : i < s.count.toNat) :
    ((s :: rest).flatMap Span.elements)[i]? = some (s.source, s.start.toNat + i) := by
  rw [List.flatMap_cons, List.getElem?_append_left (by rwa [Span.length_elements]), Span.elements,
    List.getElem?_map, List.getElem?_range' hi, Option.map_some, Nat.one_mul]

/-- The next span comes right after them. -/
theorem getElem?_elements_next {s next : Span} {rest : List Span} (hnext : next.count ≠ 0) :
    ((s :: next :: rest).flatMap Span.elements)[s.count.toNat]? =
      some (next.source, next.start.toNat) := by
  have hpos := Span.toNat_count_pos.mpr hnext
  rw [List.flatMap_cons, List.getElem?_append_right (by rw [Span.length_elements]),
    Span.length_elements, Nat.sub_self, getElem?_elements hpos, Nat.add_zero]

/-- A first span that is apart from the next one is as long as any that starts where it does. -/
theorem count_le_of_elements {s s' : Span} {rest rest' : List Span}
    (hfits : ∀ k ∈ s :: rest, k.Fits) (hsolid : ∀ k ∈ s :: rest, k.count ≠ 0)
    (hapart : (s :: rest).IsChain fun s next => s.join? next = none)
    (hsource : s'.source = s.source) (hstart : s'.start.toNat = s.start.toNat)
    (helements : (s :: rest).flatMap Span.elements = (s' :: rest').flatMap Span.elements) :
    s'.count.toNat ≤ s.count.toNat := by
  by_contra hlonger
  -- the element after those of `s` is the next one of `s'`, so `rest` goes on where `s` stops
  have hnext : ((s' :: rest').flatMap Span.elements)[s.count.toNat]? = some _ :=
    getElem?_elements (Nat.lt_of_not_le hlonger)
  rw [← helements, hsource, hstart] at hnext
  cases rest with
  | nil =>
    have hlength := (List.getElem?_eq_some_iff.mp hnext).1
    simp [Span.length_elements] at hlength
  | cons next rest =>
    rw [getElem?_elements_next (hsolid next (by simp)), Option.some.injEq, Prod.mk.injEq] at hnext
    have hgap := (Span.join?_eq_none (hfits s (by simp)) (hfits next (by simp))).mp
      (List.isChain_cons_cons.mp hapart).1
    exact hgap hnext.1.symm hnext.2.symm

/-- Canonical selections of the same elements are the same: by induction on the spans, each of which
is told by its first element and by where the next one starts. -/
theorem Canonical.eq_of_elements {e e' : Selection} (h : e.Canonical) (h' : e'.Canonical)
    (heq : e.elements = e'.elements) : e = e' := by
  rcases e with ⟨spans⟩
  rcases e' with ⟨spans'⟩
  have helements : spans.flatMap Span.elements = spans'.flatMap Span.elements := heq
  clear heq
  congr 1
  have hfirst : ∀ (s : Span) (rest : List Span), (∀ k ∈ s :: rest, k.count ≠ 0) →
      ((s :: rest).flatMap Span.elements)[0]? = some (s.source, s.start.toNat) := by
    intro s rest hsolid
    exact getElem?_elements (Span.toNat_count_pos.mpr (hsolid s List.mem_cons_self))
  induction spans generalizing spans' with
  | nil =>
    cases spans' with
    | nil => rfl
    | cons s' rest' =>
      have hnone := hfirst s' rest' h'.solid
      rw [← helements] at hnone
      cases hnone
  | cons s rest ih =>
    cases spans' with
    | nil =>
      have hnone := hfirst s rest h.solid
      rw [helements] at hnone
      cases hnone
    | cons s' rest' =>
      have hhead := hfirst s rest h.solid
      rw [helements, hfirst s' rest' h'.solid, Option.some.injEq, Prod.mk.injEq] at hhead
      obtain ⟨hsource, hstart⟩ := hhead
      have hcount : s.count.toNat = s'.count.toNat := Nat.le_antisymm
        (count_le_of_elements h'.fits h'.solid h'.apart hsource.symm hstart.symm helements.symm)
        (count_le_of_elements h.fits h.solid h.apart hsource hstart helements)
      obtain rfl : s = s' := by
        rcases s with ⟨source, start, count⟩
        rcases s' with ⟨source', start', count'⟩
        rw [Span.mk.injEq]
        exact ⟨hsource.symm, UInt64.toNat_inj.mp hstart.symm, UInt64.toNat_inj.mp hcount⟩
      rw [List.flatMap_cons, List.flatMap_cons, List.append_cancel_left_eq] at helements
      rw [ih h.tail rest' h'.tail helements]

/-- Different nodes stay different, so spans that were apart are. -/
theorem Canonical.relabel {place : NodeId → NodeId} {e : Selection} (h : e.Canonical)
    (hinj : Set.InjOn place {id | ∃ s ∈ e.spans, s.source.node = id}) :
    (e.relabel place).Canonical where
  fits := by
    intro s hs
    obtain ⟨k, hk, rfl⟩ := List.mem_map.mp hs
    exact h.fits k hk
  solid := by
    intro s hs
    obtain ⟨k, hk, rfl⟩ := List.mem_map.mp hs
    exact h.solid k hk
  apart := by
    rw [Apart, Selection.relabel, List.isChain_map]
    have hfits : ∀ s ∈ e.spans, (s.relabel place).Fits := h.fits
    refine h.apart.imp_of_mem_imp fun s next hs hnext hapart => ?_
    have hgap := (Span.join?_eq_none (h.fits s hs) (h.fits next hnext)).mp hapart
    refine (Span.join?_eq_none (hfits s hs) (hfits next hnext)).mpr fun hsource => hgap ?_
    obtain ⟨hnode, hname⟩ := OutletRef.mk.inj hsource
    have hsame : s.source.node = next.source.node := hinj ⟨s, hs, rfl⟩ ⟨next, hnext, rfl⟩ hnode
    show OutletRef.mk s.source.node s.source.name = ⟨next.source.node, next.source.name⟩
    rw [hsame, hname]

/-- Moving a canonical selection to other nodes renames the nodes and does nothing else. -/
theorem Canonical.eq_relabel {place : NodeId → NodeId} {e e' : Selection} (h : e.Canonical)
    (h' : e'.Canonical) (hwired : e.WiredBy place e')
    (hinj : Set.InjOn place {id | ∃ s ∈ e.spans, s.source.node = id}) :
    e' = e.relabel place :=
  h'.eq_of_elements (h.relabel hinj) (hwired.trans (elements_relabel place e).symm)

end Selection

/-- What a transformer relocates comes out with its spans apart. -/
theorem Transformer.relocate_apart {c : Transformer.Context} {e e' : Selection}
    (h : Transformer.relocate ⟨some c⟩ e = .ok e') : e'.Apart := by
  obtain ⟨parts, -, rfl⟩ := relocate_ok.mp h
  exact Selection.foldl_append_apart parts .nil

end FlowGraph
