import FlowGraph.Proofs.Canonical
import FlowGraph.Proofs.Sequences

/-! Spans that are put together one by one become the maximal runs of the elements that they name,
so that the result tells the elements and nothing of the spans they came in. A selection can be cut
and put together again without a trace. -/
namespace FlowGraph

/-- The span begins in the outlet of `s`, at the element where that stops. -/
def Span.Continues (next s : Span) : Prop := next.source = s.source ∧ next.start.toNat = s.stop

instance (next s : Span) : Decidable (next.Continues s) := inferInstanceAs (Decidable (_ ∧ _))

/-- The counts of spans that meet are sizes together, so joining fails for no other reason. -/
theorem Span.join?_eq_none_iff {s next : Span} (hs : s.Fits) (hnext : next.Fits) :
    s.join? next = none ↔ ¬ next.Continues s := by
  rw [join?_eq_none hs hnext, Continues, stop_of_fits hs, not_and]
  constructor
  · intro h hsource hstart
    exact h hsource.symm hstart.symm
  · intro h hsource hstop
    exact h hsource.symm hstop.symm

namespace Selection

/-- The spans are maximal runs: there is an element in each of them, and none continues the one
before it. -/
structure Merged (e : Selection) : Prop where
  solid : e.Solid
  maximal : e.spans.IsChain fun s next => ¬ next.Continues s

theorem apart_iff {e : Selection} (he : e.Fits) :
    e.Apart ↔ e.spans.IsChain fun s next => ¬ next.Continues s :=
  List.IsChain.iff_of_mem_imp fun s next hs hnext =>
    Span.join?_eq_none_iff (he s hs) (he next hnext)

theorem canonical_iff {e : Selection} : e.Canonical ↔ e.Fits ∧ e.Merged := by
  constructor
  · intro h
    exact ⟨h.fits, h.solid, (apart_iff h.fits).mp h.apart⟩
  · rintro ⟨hfits, hsolid, hmaximal⟩
    exact ⟨hfits, hsolid, (apart_iff hfits).mpr hmaximal⟩

theorem canonical_empty : empty.Canonical := ⟨fits_empty, solid_empty, .nil⟩

/-- Whatever non-empty spans are pushed, no two neighbours are left to be joined. -/
theorem Canonical.foldl_push {e : Selection} {spans : List Span} (he : e.Canonical)
    (h : ∀ s ∈ spans, s.Fits ∧ s.count ≠ 0) : (spans.foldl push e).Canonical where
  fits := (Selection.foldl_push spans he.fits fun s hs => (h s hs).1).2
  solid := foldl_push_solid spans he.solid fun s hs => (h s hs).2
  apart := foldl_push_apart spans he.apart

theorem canonical_ofSpans {spans : List Span} (h : ∀ s ∈ spans, s.Fits ∧ s.count ≠ 0) :
    (ofSpans spans).Canonical :=
  canonical_empty.foldl_push h

theorem Canonical.append {e other : Selection} (he : e.Canonical) (ho : other.Canonical) :
    (e.append other).Canonical :=
  he.foldl_push fun s hs => ⟨ho.fits s hs, ho.solid s hs⟩

theorem slice?_apart {e part : Selection} {start count : Nat}
    (h : e.slice? start count = some part) : part.Apart := by
  unfold slice? at h
  split at h
  case isTrue => cases h
  case isFalse =>
    obtain rfl := (Option.some.inj h).symm
    exact foldl_push_apart _ .nil

/-- The spans that are sliced may be empty or continue each other, those of the slice do not. -/
theorem slice?_canonical {e part : Selection} {start count : Nat} (he : e.Fits)
    (h : e.slice? start count = some part) : part.Canonical where
  fits := (slice?_elements he h).2
  solid := slice?_solid he h
  apart := slice?_apart h

/-- Spans build the same selection if and only if they name the same elements. -/
theorem ofSpans_eq_iff {spans spans' : List Span} (h : ∀ s ∈ spans, s.Fits ∧ s.count ≠ 0)
    (h' : ∀ s ∈ spans', s.Fits ∧ s.count ≠ 0) :
    ofSpans spans = ofSpans spans' ↔
      spans.flatMap Span.elements = spans'.flatMap Span.elements := by
  rw [← elements_ofSpans fun s hs => (h s hs).1, ← elements_ofSpans fun s hs => (h' s hs).1]
  constructor
  · intro heq
    rw [heq]
  · intro helements
    exact (canonical_ofSpans h).eq_of_elements (canonical_ofSpans h') helements

/-- Two slices of which the second begins where the first ends are one slice in two parts. -/
theorem append_slices {e front back whole : Selection} {start count count' : Nat} (he : e.Fits)
    (hfront : e.slice? start count = some front)
    (hback : e.slice? (start + count) count' = some back)
    (hwhole : e.slice? start (count + count') = some whole) : front.append back = whole := by
  have hcfront := slice?_canonical he hfront
  have hcback := slice?_canonical he hback
  -- the cut may go through a span, so the spans are not compared one by one, only the elements
  refine (hcfront.append hcback).eq_of_elements (slice?_canonical he hwhole) ?_
  calc (front.append back).elements
      = front.elements ++ back.elements := elements_append hcfront.fits hcback.fits
    _ = (e.elements.drop start).take count ++
          (e.elements.drop (start + count)).take count' := by
        rw [(slice?_elements he hfront).1, (slice?_elements he hback).1]
    _ = (e.elements.drop start).take (count + count') := by rw [List.take_add, List.drop_drop]
    _ = whole.elements := (slice?_elements he hwhole).1.symm

/-- The slice of all elements has the spans of the selection, if these are maximal runs and the size
is the number of the elements. -/
theorem Canonical.slice?_all {e : Selection} (he : e.Canonical)
    (hsize : e.elements.length ≤ sizeLimit) : e.slice? 0 e.size = some e := by
  obtain ⟨whole, hwhole⟩ : ∃ whole, e.slice? 0 e.size = some whole :=
    slice?_eq_some (Nat.zero_add e.size).le
  have helements : whole.elements = e.elements := by
    rw [(slice?_elements he.fits hwhole).1, e.size_eq, Nat.min_eq_left hsize, List.drop_zero,
      List.take_length]
  rw [hwhole, (slice?_canonical he.fits hwhole).eq_of_elements he helements]

/-- A selection comes out of its two parts as it was, wherever it is cut. -/
theorem Canonical.append_parts {e : Selection} (he : e.Canonical)
    (hsize : e.elements.length ≤ sizeLimit) {k : Nat} (hk : k ≤ e.size) :
    ∃ front back, e.slice? 0 k = some front ∧ e.slice? k (e.size - k) = some back ∧
      front.append back = e := by
  have hsum : k + (e.size - k) = e.size := Nat.add_sub_cancel' hk
  obtain ⟨front, hfront⟩ : ∃ front, e.slice? 0 k = some front :=
    slice?_eq_some (by rwa [Nat.zero_add])
  obtain ⟨back, hback⟩ : ∃ back, e.slice? k (e.size - k) = some back := slice?_eq_some hsum.le
  have hrest : e.slice? (0 + k) (e.size - k) = some back := by rwa [Nat.zero_add]
  have hall : e.slice? 0 (k + (e.size - k)) = some e := by
    rw [hsum]
    exact he.slice?_all hsize
  exact ⟨front, back, hfront, hback, append_slices he.fits hfront hrest hall⟩

/-- Merged selections have one form for each sequence of elements. Building from spans, slicing, and
appending slices all end in it, so that what was built is equal exactly if its elements are, and
what was cut in two is equal to its parts put together. -/
theorem merged_unique {spans spans' : List Span} {e f : Selection}
    (h : ∀ s ∈ spans, s.Fits ∧ s.count ≠ 0) (h' : ∀ s ∈ spans', s.Fits ∧ s.count ≠ 0)
    (he : e.Fits) (hf : f.Fits) :
    (ofSpans spans = ofSpans spans' ↔
      spans.flatMap Span.elements = spans'.flatMap Span.elements) ∧
    ((ofSpans spans).Fits ∧ (ofSpans spans).Merged) ∧
    (∀ start count part, e.slice? start count = some part → part.Fits ∧ part.Merged) ∧
    (∀ start count start' count' part part', e.slice? start count = some part →
      f.slice? start' count' = some part' →
        (part.append part').Fits ∧ (part.append part').Merged) ∧
    (e.Merged → e.elements.length ≤ sizeLimit → ∀ k ≤ e.size, ∃ front back,
      e.slice? 0 k = some front ∧ e.slice? k (e.size - k) = some back ∧
        front.append back = e) := by
  refine ⟨ofSpans_eq_iff h h', canonical_iff.mp (canonical_ofSpans h), ?_, ?_, ?_⟩
  · intro start count part hpart
    exact canonical_iff.mp (slice?_canonical he hpart)
  · intro start count start' count' part part' hpart hpart'
    have hcanonical := (slice?_canonical he hpart).append (slice?_canonical hf hpart')
    exact canonical_iff.mp hcanonical
  · intro hmerged hsize k hk
    exact (canonical_iff.mpr ⟨he, hmerged⟩).append_parts hsize hk

/-- An outlet from its third element on and then from its first, and the last element that another
could have. -/
def turned : Selection :=
  ⟨[⟨⟨⟨1⟩, "output"⟩, 2, 3⟩, ⟨⟨⟨1⟩, "output"⟩, 0, 2⟩,
    ⟨⟨⟨2⟩, "output"⟩, 0xFFFFFFFFFFFFFFFE, 1⟩]⟩

/-- The same elements, in shorter spans. -/
def turnedPieces : List Span :=
  [⟨⟨⟨1⟩, "output"⟩, 2, 1⟩, ⟨⟨⟨1⟩, "output"⟩, 3, 1⟩, ⟨⟨⟨1⟩, "output"⟩, 4, 1⟩,
    ⟨⟨⟨1⟩, "output"⟩, 0, 2⟩, ⟨⟨⟨2⟩, "output"⟩, 0xFFFFFFFFFFFFFFFE, 1⟩]

theorem merged_unique_turned :
    (∀ s ∈ turnedPieces, s.Fits ∧ s.count ≠ 0) ∧ (∀ s ∈ turned.spans, s.Fits ∧ s.count ≠ 0) ∧
    turned.Merged ∧ lastTwo.Fits ∧
    ofSpans turnedPieces = ofSpans turned.spans ∧
    (∃ part part', turned.slice? 4 2 = some part ∧ lastTwo.slice? 0 2 = some part' ∧
      part.Merged ∧ (part.append part').Merged) ∧
    ∃ front back, turned.slice? 0 4 = some front ∧ turned.slice? 4 2 = some back ∧
      front.append back = turned := by
  have hspans : ∀ s ∈ turned.spans, s.Fits ∧ s.count ≠ 0 := by
    simp only [Span.Fits, turned]
    decide
  have hpieces : ∀ s ∈ turnedPieces, s.Fits ∧ s.count ≠ 0 := by
    simp only [Span.Fits, turnedPieces]
    decide
  have hturned : turned.Fits := fun s hs => (hspans s hs).1
  have hmerged : turned.Merged := ⟨fun s hs => (hspans s hs).2, by decide⟩
  have hlastTwo : lastTwo.Fits := by
    simp only [Fits, Span.Fits, lastTwo]
    decide
  obtain ⟨hsame, -, hslice, happend, hparts⟩ :=
    merged_unique hpieces hspans hturned hlastTwo
  refine ⟨hpieces, hspans, hmerged, hlastTwo, hsame.mpr (by decide), ?_,
    hparts hmerged (by decide) 4 (by decide)⟩
  obtain ⟨part, hpart⟩ : ∃ part, turned.slice? 4 2 = some part := slice?_eq_some (by decide)
  obtain ⟨part', hpart'⟩ : ∃ part, lastTwo.slice? 0 2 = some part := slice?_eq_some (by decide)
  exact ⟨part, part', hpart, hpart', (hslice 4 2 part hpart).2,
    (happend 4 2 0 2 part part' hpart hpart').2⟩

/-- An empty span names no element, and keeps its neighbours apart nevertheless. -/
example : ofSpans [⟨⟨⟨1⟩, "output"⟩, 0, 1⟩, ⟨⟨⟨2⟩, "output"⟩, 0, 0⟩, ⟨⟨⟨1⟩, "output"⟩, 1, 1⟩] ≠
    ofSpans [⟨⟨⟨1⟩, "output"⟩, 0, 2⟩] := by decide

end Selection

end FlowGraph
