import FlowGraph.Graph.Checked
import FlowGraph.Proofs.Elements

/-! Selections whose spans end at a size are put together and sliced as the sequences of their
elements are, and no size on the way is cut short or wraps around. -/
namespace FlowGraph

theorem addSizes?_of_le {a b : UInt64} (h : a.toNat + b.toNat ≤ sizeLimit) :
    addSizes? a b = some (a + b) := if_pos h

theorem subSizes?_of_le {a b : UInt64} (h : b ≤ a) : subSizes? a b = some (a - b) := if_pos h

/-- One span goes on where another stops, so that both have their counts between the start of the
first and the end of the second. -/
theorem Span.joinChecked_eq {s next : Span} (hs : s.Fits) (hn : next.Fits) :
    s.joinChecked next = some (s.join? next) := by
  have hstop : (s.start + s.count).toNat = s.stop := by
    rw [toNat_add_of_le hs, stop_of_fits hs]
  rw [joinChecked, join?]
  by_cases hsource : s.source = next.source
  case neg => simp [hsource]
  by_cases hnext : s.start + s.count = next.start
  case neg =>
    have hne : s.stop ≠ next.start.toNat := by
      rwa [← hstop, Ne, UInt64.toNat_inj]
    simp [hsource, addSizes?_of_le hs, hnext, hne]
  have heq : s.stop = next.start.toNat := by rw [← hstop, hnext]
  have hcount : s.count.toNat + next.count.toNat ≤ sizeLimit := by
    rw [stop_of_fits hs] at heq
    simp only [Fits] at hn
    omega
  simp [hsource, addSizes?_of_le hs, addSizes?_of_le hcount, hnext, heq, hcount]

namespace Selection

theorem pushSpanChecked_eq (new : Span) (spans : List Span) (hnew : new.Fits)
    (h : ∀ s ∈ spans, s.Fits) : pushSpanChecked new spans = some (pushSpan new spans) := by
  induction spans with
  | nil => rfl
  | cons last rest ih =>
    cases rest with
    | nil =>
      rw [pushSpanChecked, pushSpan, Span.joinChecked_eq (h last List.mem_cons_self) hnew]
      cases last.join? new <;> rfl
    | cons s rest =>
      have hrest := ih fun s hs => h s (List.mem_cons_of_mem _ hs)
      simp only [pushSpanChecked, pushSpan, hrest]
      rfl

theorem pushChecked_eq {e : Selection} {s : Span} (he : e.Fits) (hs : s.Fits) :
    e.pushChecked s = some (e.push s) := by
  rw [pushChecked, pushSpanChecked_eq s e.spans hs he]
  rfl

theorem foldlM_pushChecked (spans : List Span) {e : Selection} (he : e.Fits)
    (h : ∀ s ∈ spans, s.Fits) : spans.foldlM pushChecked e = some (spans.foldl push e) := by
  induction spans generalizing e with
  | nil => rfl
  | cons s rest ih =>
    have hs := h s List.mem_cons_self
    rw [List.foldlM_cons, pushChecked_eq he hs]
    exact ih (fits_push he hs) fun s hs => h s (List.mem_cons_of_mem _ hs)

/-- By induction on the spans: a span is either skipped as a whole, or holds all that is still to be
skipped, so that every difference is one of a greater and a smaller size. -/
theorem sliceFrom_eq (spans : List Span) (skip remaining : UInt64) {part : Selection}
    (hpart : part.Fits) (h : ∀ s ∈ spans, s.Fits) :
    sliceFrom skip remaining part spans =
      some ((cut skip.toNat remaining.toNat spans).foldl push part) := by
  induction spans generalizing skip remaining part with
  | nil => rfl
  | cons s rest ih =>
    have hs := h s List.mem_cons_self
    have hrest : ∀ s ∈ rest, s.Fits := fun s hs => h s (List.mem_cons_of_mem _ hs)
    rw [sliceFrom, cut]
    by_cases hzero : remaining = 0
    case pos => simp [hzero]
    have hpositive : remaining.toNat ≠ 0 := by
      rwa [← UInt64.toNat_zero, Ne, UInt64.toNat_inj]
    rw [if_neg hzero, if_neg hpositive]
    by_cases hskip : s.count ≤ skip
    case pos =>
      rw [if_pos hskip, if_pos (UInt64.le_iff_toNat_le.mp hskip), subSizes?_of_le hskip,
        ← UInt64.toNat_sub_of_le _ _ hskip]
      exact ih _ _ hpart hrest
    have hwithin : skip.toNat < s.count.toNat := by
      rwa [UInt64.le_iff_toNat_le, Nat.not_le] at hskip
    have hle : skip ≤ s.count := UInt64.le_iff_toNat_le.mpr hwithin.le
    have htaken : (min (s.count - skip) remaining).toNat =
        min (s.count.toNat - skip.toNat) remaining.toNat := by
      rw [UInt64.toNat_min, UInt64.toNat_sub_of_le _ _ hle]
    rw [if_neg hskip, if_neg (Nat.not_le.mpr hwithin), subSizes?_of_le hle]
    simp only [Option.bind_eq_bind, Option.bind_some]
    generalize min (s.count - skip) remaining = taken at htaken ⊢
    have hleft : taken ≤ remaining := by
      rw [UInt64.le_iff_toNat_le, htaken]
      exact Nat.min_le_right _ _
    have hstart : s.start.toNat + skip.toNat ≤ sizeLimit := by
      simp only [Span.Fits] at hs
      omega
    -- the span that is pushed is the one that is cut out
    have hspan : (⟨s.source, s.start + skip, taken⟩ : Span) =
        ⟨s.source, s.start + UInt64.ofNat skip.toNat, UInt64.ofNat taken.toNat⟩ := by
      rw [UInt64.ofNat_toNat, UInt64.ofNat_toNat]
    have hfits : (⟨s.source, s.start + skip, taken⟩ : Span).Fits := by
      rw [hspan]
      exact (elements_part hs (by omega)).2
    simp only [addSizes?_of_le hstart, subSizes?_of_le hleft, Option.bind_some,
      pushChecked_eq hpart hfits]
    rw [← htaken, List.foldl_cons, ← hspan, ← UInt64.toNat_sub_of_le _ _ hleft]
    exact ih 0 (remaining - taken) (fits_push hpart hfits) hrest

theorem size_le (e : Selection) : e.size ≤ sizeLimit := by
  rw [size_eq]
  exact Nat.min_le_right _ _

theorem sliceChecked_eq {e : Selection} (he : e.Fits) (start count : UInt64) :
    e.sliceChecked start count = some (e.slice? start.toNat count.toNat) := by
  rw [sliceChecked, slice?]
  by_cases hstop : start.toNat + count.toNat ≤ sizeLimit
  case neg =>
    have hpast : e.size < start.toNat + count.toNat :=
      Nat.lt_of_le_of_lt e.size_le (Nat.lt_of_not_le hstop)
    rw [addSizes?, if_neg hstop, if_pos hpast]
  case pos =>
    rw [addSizes?_of_le hstop]
    simp only [toNat_add_of_le hstop]
    split
    · rfl
    · rw [sliceFrom_eq e.spans start count fits_empty he]
      rfl

theorem slice?_some_iff {e : Selection} {start count : Nat} :
    (∃ part, e.slice? start count = some part) ↔ start + count ≤ e.size := by
  refine ⟨fun h => ?_, slice?_eq_some⟩
  obtain ⟨part, hpart⟩ := h
  by_contra hpast
  rw [slice?, if_pos (Nat.lt_of_not_le hpast)] at hpart
  cases hpart

/-- The operations of selections are those of sequences of elements, as long as all spans end at a
size: appending a span, a selection or many spans appends their elements, the size is the number of
the elements as far as sizes go, and a slice is a part of the sequence. Their results have such
spans again, and are the same when every sum and every difference has to be a size. -/
theorem operations_on_elements {e f : Selection} {r : Span} {spans : List Span} (he : e.Fits)
    (hf : f.Fits) (hr : r.Fits) (hspans : ∀ s ∈ spans, s.Fits) :
    ((e.push r).elements = e.elements ++ (single r).elements ∧ (e.push r).Fits ∧
      e.pushChecked r = some (e.push r)) ∧
    ((e.append f).elements = e.elements ++ f.elements ∧ (e.append f).Fits ∧
      e.appendChecked f = some (e.append f)) ∧
    ((ofSpans spans).elements = spans.flatMap Span.elements ∧ (ofSpans spans).Fits ∧
      ofSpansChecked spans = some (ofSpans spans)) ∧
    e.size = min e.elements.length sizeLimit ∧
    (∀ start count, (∃ part, e.slice? start count = some part) ↔ start + count ≤ e.size) ∧
    (∀ start count part, e.slice? start count = some part →
      part.elements = (e.elements.drop start).take count ∧ part.Fits) ∧
    (∀ start count : UInt64,
      e.sliceChecked start count = some (e.slice? start.toNat count.toNat)) := by
  refine ⟨⟨?_, fits_push he hr, pushChecked_eq he hr⟩,
    ⟨elements_append he hf, fits_append he hf, foldlM_pushChecked f.spans he hf⟩,
    ⟨elements_ofSpans hspans, fits_ofSpans hspans, foldlM_pushChecked spans fits_empty hspans⟩,
    e.size_eq, fun start count => slice?_some_iff, fun start count part => slice?_elements he,
    sliceChecked_eq he⟩
  rw [elements_push he hr, elements_single]

/-- The last two elements that an outlet could have, in two spans, with an empty one between
them. -/
def lastTwo : Selection :=
  ⟨[⟨⟨⟨1⟩, "output"⟩, 0xFFFFFFFFFFFFFFFD, 1⟩, ⟨⟨⟨2⟩, "output"⟩, 0xFFFFFFFFFFFFFFFF, 0⟩,
    ⟨⟨⟨1⟩, "output"⟩, 0xFFFFFFFFFFFFFFFE, 1⟩]⟩

theorem operations_on_elements_lastTwo :
    lastTwo.Fits ∧
    (lastTwo.push ⟨⟨⟨1⟩, "output"⟩, 0xFFFFFFFFFFFFFFFF, 0⟩).elements =
      lastTwo.elements ++ (single ⟨⟨⟨1⟩, "output"⟩, 0xFFFFFFFFFFFFFFFF, 0⟩).elements ∧
    (lastTwo.append lastTwo).elements = lastTwo.elements ++ lastTwo.elements ∧
    (ofSpans lastTwo.spans).elements = lastTwo.elements ∧
    (∃ part, lastTwo.slice? 1 1 = some part) ∧
    lastTwo.sliceChecked 1 0xFFFFFFFFFFFFFFFF = some none := by
  have hfits : lastTwo.Fits := by
    simp only [Fits, Span.Fits, lastTwo]
    decide
  have hempty : (⟨⟨⟨1⟩, "output"⟩, 0xFFFFFFFFFFFFFFFF, 0⟩ : Span).Fits := by
    simp only [Span.Fits]
    decide
  obtain ⟨⟨hpush, -⟩, ⟨happend, -⟩, ⟨hspans, -⟩, -, hslice, -, hchecked⟩ :=
    operations_on_elements hfits hfits hempty hfits
  exact ⟨hfits, hpush, happend, hspans, (hslice 1 1).mpr (by decide), hchecked 1 _⟩

end Selection

end FlowGraph
