import Mathlib
import FlowGraph.Graph.Selection

/-! A selection as the sequence of elements that it names. Building, joining and slicing selections
is building, joining and slicing these sequences; which spans carry them makes no difference. -/
namespace FlowGraph

/-- The elements of a span, each an address with an index. -/
def Span.elements (s : Span) : List (OutletRef × Nat) :=
  (List.range' s.start.toNat s.count.toNat).map fun i => (s.source, i)

def Selection.elements (e : Selection) : List (OutletRef × Nat) := e.spans.flatMap Span.elements

/-- The end of the span is a size. -/
def Span.Fits (s : Span) : Prop := s.start.toNat + s.count.toNat ≤ sizeLimit

def Selection.Fits (e : Selection) : Prop := ∀ s ∈ e.spans, s.Fits

/-- No span of the selection is without elements. -/
def Selection.Solid (e : Selection) : Prop := ∀ s ∈ e.spans, s.count ≠ 0

theorem sizeLimit_eq : sizeLimit = 2 ^ 64 - 1 := rfl

/-- A size fits into a word. -/
theorem toNat_ofNat_of_le {k : Nat} (h : k ≤ sizeLimit) : (UInt64.ofNat k).toNat = k := by
  rw [sizeLimit_eq] at h
  rw [UInt64.toNat_ofNat']
  exact Nat.mod_eq_of_lt (by omega)

/-- Counts that are sizes together add up without a carry. -/
theorem toNat_add_of_le {a b : UInt64} (h : a.toNat + b.toNat ≤ sizeLimit) :
    (a + b).toNat = a.toNat + b.toNat := by
  rw [sizeLimit_eq] at h
  rw [UInt64.toNat_add]
  exact Nat.mod_eq_of_lt (by omega)

namespace Span

theorem stop_of_fits {s : Span} (h : s.Fits) : s.stop = s.start.toNat + s.count.toNat :=
  Nat.min_eq_left h

/-- A span that stops below the greatest size has not been cut short. -/
theorem fits_of_stop_lt {s : Span} (h : s.stop < sizeLimit) : s.Fits := by
  simp only [stop] at h
  simp only [Fits]
  omega

theorem length_elements (s : Span) : s.elements.length = s.count.toNat := by
  simp [elements]

theorem toNat_count_pos {s : Span} : 0 < s.count.toNat ↔ s.count ≠ 0 := by
  rw [Nat.pos_iff_ne_zero, ← UInt64.toNat_zero, Ne, Ne, UInt64.toNat_inj]

theorem join?_elements {s next joined : Span} (hs : s.Fits) (hn : next.Fits)
    (h : s.join? next = some joined) :
    joined.elements = s.elements ++ next.elements ∧ joined.Fits := by
  unfold join? at h
  split at h
  case isFalse => cases h
  case isTrue hjoin =>
    -- the counts fit together, so that their sum as words is their sum
    obtain ⟨hsource, hstop, hcount⟩ := hjoin
    obtain rfl := (Option.some.inj h).symm
    rw [stop_of_fits hs] at hstop
    have hsum := toNat_add_of_le hcount
    constructor
    · simp only [elements, hsum, ← hsource, ← List.map_append]
      rw [← hstop, List.range'_append_1]
    · simp only [Fits, hsum] at hn ⊢
      omega

end Span

namespace Selection

theorem fits_empty : empty.Fits := by
  intro s hs
  cases hs

theorem elements_single (s : Span) : (single s).elements = s.elements := by
  simp [elements, single]

theorem length_elements (e : Selection) :
    e.elements.length = (e.spans.map (·.count.toNat)).sum := by
  simp only [elements, List.length_flatMap, Span.length_elements]

/-- Adding up with a limit gives the sum or the limit. -/
theorem foldl_size (spans : List Span) (total : Nat) (h : total ≤ sizeLimit) :
    spans.foldl (fun total s => min (total + s.count.toNat) sizeLimit) total =
      min (total + (spans.map (·.count.toNat)).sum) sizeLimit := by
  induction spans generalizing total with
  | nil => simp [Nat.min_eq_left h]
  | cons s rest ih =>
    rw [List.foldl_cons, ih _ (Nat.min_le_right _ _), List.map_cons, List.sum_cons]
    omega

theorem size_eq (e : Selection) : e.size = min e.elements.length sizeLimit := by
  rw [size, foldl_size _ _ (Nat.zero_le _), length_elements, Nat.zero_add]

theorem size_of_lt {e : Selection} (h : e.size < sizeLimit) : e.size = e.elements.length := by
  rw [size_eq] at h ⊢
  omega

theorem pushSpan_elements (new : Span) (spans : List Span) (hnew : new.Fits)
    (h : ∀ s ∈ spans, s.Fits) :
    (pushSpan new spans).flatMap Span.elements = spans.flatMap Span.elements ++ new.elements ∧
      ∀ s ∈ pushSpan new spans, s.Fits := by
  induction spans with
  | nil => simpa [pushSpan] using hnew
  | cons last rest ih =>
    have hlast := h last List.mem_cons_self
    have hrest : ∀ s ∈ rest, s.Fits := fun s hs => h s (List.mem_cons_of_mem _ hs)
    cases rest with
    | nil =>
      simp only [pushSpan]
      cases hj : last.join? new with
      | none => simpa using ⟨hlast, hnew⟩
      | some joined =>
        obtain ⟨helements, hfits⟩ := Span.join?_elements hlast hnew hj
        simpa [helements] using hfits
    | cons s rest =>
      -- only the last span can take the new one in
      obtain ⟨helements, hfits⟩ := ih hrest
      simp only [pushSpan, List.flatMap_cons, List.append_assoc] at helements ⊢
      refine ⟨by rw [helements], ?_⟩
      simpa using ⟨hlast, hfits⟩

theorem elements_push {e : Selection} {s : Span} (he : e.Fits) (hs : s.Fits) :
    (e.push s).elements = e.elements ++ s.elements :=
  (pushSpan_elements s e.spans hs he).1

theorem fits_push {e : Selection} {s : Span} (he : e.Fits) (hs : s.Fits) : (e.push s).Fits :=
  (pushSpan_elements s e.spans hs he).2

theorem foldl_push (spans : List Span) {e : Selection} (he : e.Fits) (h : ∀ s ∈ spans, s.Fits) :
    (spans.foldl push e).elements = e.elements ++ spans.flatMap Span.elements ∧
      (spans.foldl push e).Fits := by
  induction spans generalizing e with
  | nil => simpa using he
  | cons s rest ih =>
    have hs := h s List.mem_cons_self
    have hrest : ∀ s ∈ rest, s.Fits := fun s hs => h s (List.mem_cons_of_mem _ hs)
    obtain ⟨helements, hfits⟩ := ih (fits_push he hs) hrest
    rw [List.foldl_cons, helements, elements_push he hs, List.flatMap_cons, List.append_assoc]
    exact ⟨rfl, hfits⟩

theorem elements_append {e other : Selection} (he : e.Fits) (ho : other.Fits) :
    (e.append other).elements = e.elements ++ other.elements :=
  (foldl_push other.spans he ho).1

theorem fits_append {e other : Selection} (he : e.Fits) (ho : other.Fits) :
    (e.append other).Fits :=
  (foldl_push other.spans he ho).2

theorem elements_ofSpans {spans : List Span} (h : ∀ s ∈ spans, s.Fits) :
    (ofSpans spans).elements = spans.flatMap Span.elements :=
  (foldl_push spans fits_empty h).1.trans (List.nil_append _)

theorem fits_ofSpans {spans : List Span} (h : ∀ s ∈ spans, s.Fits) : (ofSpans spans).Fits :=
  (foldl_push spans fits_empty h).2

/-- The part of a span that is left after `skip` of its elements, `taken` elements long. -/
theorem elements_part {s : Span} (hs : s.Fits) {skip taken : Nat}
    (h : skip + taken ≤ s.count.toNat) :
    let part : Span := ⟨s.source, s.start + UInt64.ofNat skip, UInt64.ofNat taken⟩
    part.elements = (s.elements.drop skip).take taken ∧ part.Fits := by
  simp only [Span.Fits] at hs ⊢
  have hskip : (UInt64.ofNat skip).toNat = skip := toNat_ofNat_of_le (by omega)
  have hcount : (UInt64.ofNat taken).toNat = taken := toNat_ofNat_of_le (by omega)
  have hstart : (s.start + UInt64.ofNat skip).toNat = s.start.toNat + skip := by
    rw [toNat_add_of_le (by omega), hskip]
  constructor
  · simp only [Span.elements, hstart, hcount, ← List.map_drop, ← List.map_take, List.drop_range',
      Nat.mul_one]
    rw [List.take_range'_of_length_ge (by omega)]
  · rw [hstart, hcount]
    omega

theorem cut_elements (spans : List Span) (skip remaining : Nat) (h : ∀ s ∈ spans, s.Fits) :
    (cut skip remaining spans).flatMap Span.elements =
        ((spans.flatMap Span.elements).drop skip).take remaining ∧
      ∀ s ∈ cut skip remaining spans, s.Fits := by
  induction spans generalizing skip remaining with
  | nil => simp [cut]
  | cons s rest ih =>
    have hs := h s List.mem_cons_self
    have hrest : ∀ s ∈ rest, s.Fits := fun s hs => h s (List.mem_cons_of_mem _ hs)
    have hlength := Span.length_elements s
    unfold cut
    split
    case isTrue hzero => simp [hzero]
    split
    case isTrue hskip =>
      -- the whole span lies before the part
      obtain ⟨helements, hfits⟩ := ih (skip - s.count.toNat) remaining hrest
      rw [helements, List.flatMap_cons, List.drop_append,
        List.drop_eq_nil_of_le (by omega : s.elements.length ≤ skip), List.nil_append, hlength]
      exact ⟨rfl, hfits⟩
    case isFalse hskip =>
      -- the part begins within the span, and goes on at the start of the next one
      obtain ⟨helements, hfits⟩ := ih 0 (remaining - min (s.count.toNat - skip) remaining) hrest
      obtain ⟨hpart, hpartFits⟩ := elements_part hs
        (by omega : skip + min (s.count.toNat - skip) remaining ≤ s.count.toNat)
      constructor
      · rw [List.flatMap_cons, hpart, helements, List.flatMap_cons, List.drop_zero,
          List.drop_append_of_le_length (by omega), List.take_append, List.length_drop, hlength]
        congr 1
        · rw [List.take_eq_take_iff, List.length_drop, hlength]
          omega
        · congr 1
          omega
      · simpa using ⟨hpartFits, hfits⟩

theorem slice?_elements {e part : Selection} {start count : Nat} (he : e.Fits)
    (h : e.slice? start count = some part) :
    part.elements = (e.elements.drop start).take count ∧ part.Fits := by
  unfold slice? at h
  split at h
  case isTrue => cases h
  case isFalse =>
    obtain ⟨helements, hfits⟩ := cut_elements e.spans start count he
    obtain rfl := (Option.some.inj h).symm
    rw [elements_ofSpans hfits, helements]
    exact ⟨rfl, fits_ofSpans hfits⟩

/-- A selection has the parts that do not reach past its end. -/
theorem slice?_eq_some {e : Selection} {start count : Nat} (h : start + count ≤ e.size) :
    ∃ part, e.slice? start count = some part :=
  ⟨_, if_neg (Nat.not_lt.mpr h)⟩

theorem solid_empty : empty.Solid := by
  intro s hs
  cases hs

theorem pushSpan_solid (new : Span) (spans : List Span) (hnew : new.count ≠ 0)
    (h : ∀ s ∈ spans, s.count ≠ 0) : ∀ s ∈ pushSpan new spans, s.count ≠ 0 := by
  induction spans with
  | nil => simpa [pushSpan] using hnew
  | cons last rest ih =>
    have hlast := h last List.mem_cons_self
    have hrest : ∀ s ∈ rest, s.count ≠ 0 := fun s hs => h s (List.mem_cons_of_mem _ hs)
    cases rest with
    | nil =>
      simp only [pushSpan]
      cases hj : last.join? new with
      | none => simpa using ⟨hlast, hnew⟩
      | some joined =>
        unfold Span.join? at hj
        split at hj
        case isFalse => cases hj
        case isTrue hjoin =>
          obtain rfl := (Option.some.inj hj).symm
          -- a joined span has the elements of the one before it
          have hpos := Span.toNat_count_pos.mpr hlast
          have hsum := toNat_add_of_le hjoin.2.2
          intro s hs
          rw [List.mem_singleton.mp hs, ← Span.toNat_count_pos, hsum]
          omega
    | cons s rest => simpa [pushSpan] using ⟨hlast, ih hrest⟩

theorem foldl_push_solid (spans : List Span) {e : Selection} (he : e.Solid)
    (h : ∀ s ∈ spans, s.count ≠ 0) : (spans.foldl push e).Solid := by
  induction spans generalizing e with
  | nil => exact he
  | cons s rest ih =>
    have hstep : (e.push s).Solid := pushSpan_solid s e.spans (h s List.mem_cons_self) he
    exact ih hstep fun s hs => h s (List.mem_cons_of_mem _ hs)

theorem solid_append {e other : Selection} (he : e.Solid) (ho : other.Solid) :
    (e.append other).Solid :=
  foldl_push_solid other.spans he ho

/-- What is cut out of a list of spans has an element in each of its spans. -/
theorem cut_solid (spans : List Span) (skip remaining : Nat) (h : ∀ s ∈ spans, s.Fits) :
    ∀ s ∈ cut skip remaining spans, s.count ≠ 0 := by
  induction spans generalizing skip remaining with
  | nil => simp [cut]
  | cons first rest ih =>
    have hrest : ∀ s ∈ rest, s.Fits := fun s hs => h s (List.mem_cons_of_mem _ hs)
    unfold cut
    split
    case isTrue => simp
    case isFalse hremaining =>
      split
      case isTrue => exact ih _ _ hrest
      case isFalse hskip =>
        refine List.forall_mem_cons.mpr ⟨?_, ih _ _ hrest⟩
        -- at least one element is taken: the skipped ones end within the span, and more remain
        have hbound := first.count.toNat_lt
        have hcount : (UInt64.ofNat (min (first.count.toNat - skip) remaining)).toNat = _ :=
          toNat_ofNat_of_le (by rw [sizeLimit_eq]; omega)
        rw [← Span.toNat_count_pos, hcount]
        omega

theorem slice?_solid {e part : Selection} {start count : Nat} (he : e.Fits)
    (h : e.slice? start count = some part) : part.Solid := by
  unfold slice? at h
  split at h
  case isTrue => cases h
  case isFalse =>
    obtain rfl := (Option.some.inj h).symm
    exact foldl_push_solid _ solid_empty (cut_solid e.spans start count he)

theorem foldl_append (parts : List Selection) {e : Selection} (he : e.Fits ∧ e.Solid)
    (h : ∀ part ∈ parts, part.Fits ∧ part.Solid) :
    (parts.foldl append e).elements = e.elements ++ parts.flatMap elements ∧
      (parts.foldl append e).Fits ∧ (parts.foldl append e).Solid := by
  induction parts generalizing e with
  | nil => simpa using he
  | cons part rest ih =>
    obtain ⟨hfits, hsolid⟩ := h part List.mem_cons_self
    have hrest : ∀ p ∈ rest, p.Fits ∧ p.Solid := fun p hp => h p (List.mem_cons_of_mem _ hp)
    have hstep : (e.append part).Fits ∧ (e.append part).Solid :=
      ⟨fits_append he.1 hfits, solid_append he.2 hsolid⟩
    obtain ⟨helements, hkept⟩ := ih hstep hrest
    rw [List.foldl_cons, helements, elements_append he.1 hfits, List.flatMap_cons,
      List.append_assoc]
    exact ⟨rfl, hkept⟩

end Selection

end FlowGraph
