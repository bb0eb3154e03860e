import Mathlib
import FlowGraph.Json.Reader
import FlowGraph.Proofs.Digits

/-! The text of a number is read back, if nothing follows it that could belong to a number. -/
namespace FlowGraph.Json

open Decimal (Numeral)

/-- The bytes of characters. -/
def bytesOf (text : List Char) : List UInt8 := text.flatMap String.utf8EncodeChar

theorem utf8_ofList (text : List Char) : Text.utf8 (String.ofList text) = bytesOf text := by
  rw [Text.utf8, String.toList_ofList, bytesOf]

@[simp]
theorem bytesOf_nil : bytesOf [] = [] := rfl

theorem bytesOf_cons (c : Char) (text : List Char) :
    bytesOf (c :: text) = String.utf8EncodeChar c ++ bytesOf text := rfl

theorem bytesOf_append (first rest : List Char) :
    bytesOf (first ++ rest) = bytesOf first ++ bytesOf rest :=
  List.flatMap_append

/-- A digit is the byte of its code. -/
theorem digit_cases {c : Char} (h : c.isDigit = true) :
    ∃ b : UInt8, String.utf8EncodeChar c = [b] ∧ isDigit b = true ∧ Char.ofUInt8 b = c ∧
      (b = 0x30 → c = '0') := by
  have hbounds : 48 ≤ c.val.toNat ∧ c.val.toNat ≤ 57 := by
    rw [Char.isDigit, Bool.and_eq_true, decide_eq_true_eq, decide_eq_true_eq] at h
    exact ⟨UInt32.le_iff_toNat_le.mp h.1, UInt32.le_iff_toNat_le.mp h.2⟩
  have hbyte : (UInt8.ofNat c.val.toNat).toNat = c.val.toNat := by
    rw [UInt8.toNat_ofNat']
    omega
  have hchar : Char.ofUInt8 (UInt8.ofNat c.val.toNat) = c := by
    refine Char.ext (UInt32.toNat_inj.mp ?_)
    exact (UInt8.toNat_toUInt32 _).trans hbyte
  refine ⟨UInt8.ofNat c.val.toNat, if_pos (by omega), ?_, hchar, fun hzero => ?_⟩
  · rw [isDigit, Bool.and_eq_true, decide_eq_true_eq, decide_eq_true_eq]
    exact ⟨UInt8.le_iff_toNat_le.mpr (hbyte.symm ▸ hbounds.1),
      UInt8.le_iff_toNat_le.mpr (hbyte.symm ▸ hbounds.2)⟩
  · rw [← hchar, hzero]
    rfl

/-- A text that goes on with a digit. -/
def BeginsWithDigit (text : List UInt8) : Prop := ∃ b ∈ text.head?, isDigit b = true

theorem takeDigits_append {digits : List Char} (h : ∀ c ∈ digits, c.isDigit = true)
    {rest : List UInt8} (hrest : ¬BeginsWithDigit rest) :
    takeDigits (bytesOf digits ++ rest) = (digits, rest) := by
  induction digits with
  | nil =>
    cases rest with
    | nil => rfl
    | cons b rest =>
      have hb : ¬isDigit b = true := fun hb => hrest ⟨b, rfl, hb⟩
      simp only [takeDigits, bytesOf_nil, List.nil_append, List.takeWhile_cons_of_neg hb,
        List.dropWhile_cons_of_neg hb, List.map_nil]
  | cons c digits ih =>
    obtain ⟨hc, hdigits⟩ := List.forall_mem_cons.mp h
    obtain ⟨b, hencode, hb, hchar, -⟩ := digit_cases hc
    have htail := ih hdigits
    simp only [takeDigits, Prod.mk.injEq] at htail ⊢
    rw [bytesOf_cons, hencode, List.singleton_append, List.cons_append,
      List.takeWhile_cons_of_pos hb, List.dropWhile_cons_of_pos hb, List.map_cons, hchar,
      htail.1, htail.2]
    exact ⟨rfl, rfl⟩

/-- A whole part is read up to what is no digit. -/
theorem readWhole?_append {n : Numeral} (h : n.WellFormed) {rest : List UInt8}
    (hrest : ¬BeginsWithDigit rest) :
    readWhole? (bytesOf n.whole ++ rest) = some (n.whole, rest) := by
  obtain ⟨whole, fraction, exponent⟩ := n
  obtain ⟨hne, hdigits, hleading, -⟩ := h
  dsimp only at *
  obtain ⟨c, others, rfl⟩ := List.exists_cons_of_ne_nil hne
  by_cases hc : c = '0'
  · subst hc
    rw [hleading rfl]
    rfl
  · obtain ⟨b, hencode, -, -, hzero⟩ := digit_cases (hdigits c List.mem_cons_self)
    have hbytes : bytesOf (c :: others) ++ rest = b :: (bytesOf others ++ rest) := by
      rw [bytesOf_cons, hencode]
      rfl
    have htake := takeDigits_append hdigits hrest
    rw [hbytes] at htake ⊢
    rw [readWhole?.eq_2 _ (fun rest heq => hc (hzero (List.cons.inj heq).1)), htake]
    rfl

theorem readFraction?_point {text rest : List UInt8} {digits : List Char}
    (h : takeDigits text = (digits, rest)) (hne : ¬digits.isEmpty = true) :
    readFraction? (0x2E :: text) = some (digits, rest) := by
  simp only [readFraction?, h, if_neg hne]

theorem readFraction?_append {fraction : List Char} (h : ∀ c ∈ fraction, c.isDigit = true)
    {rest : List UInt8} (hrest : ¬BeginsWithDigit rest) (hpoint : rest.head? ≠ some 0x2E) :
    readFraction? (bytesOf (if fraction.isEmpty then [] else '.' :: fraction) ++ rest) =
      some (fraction, rest) := by
  split
  case isTrue hempty =>
    rw [List.isEmpty_iff.mp hempty, bytesOf_nil, List.nil_append]
    refine readFraction?.eq_2 rest fun others heq => hpoint ?_
    rw [heq]
    rfl
  case isFalse hempty => exact readFraction?_point (takeDigits_append h hrest) hempty

theorem readExponent?_mark {text unsigned rest : List UInt8} {negative : Bool}
    {digits : List Char} (hsign : splitSign text = (negative, unsigned))
    (h : takeDigits unsigned = (digits, rest)) (hne : ¬digits.isEmpty = true) :
    readExponent? (0x65 :: text) =
      some (some (if negative then -(Decimal.ofDigits digits : Int) else Decimal.ofDigits digits),
        rest) := by
  have hmark : ((0x65 : UInt8) = 0x65 || (0x65 : UInt8) = 0x45) = true := rfl
  rw [readExponent?, if_pos hmark]
  simp only [hsign, h, if_neg hne]

theorem readExponent?_append (exponent : Option Int) {rest : List UInt8}
    (hrest : ¬BeginsWithDigit rest) (hmark : rest.head? ≠ some 0x65 ∧ rest.head? ≠ some 0x45) :
    readExponent? (bytesOf (Numeral.exponentText exponent) ++ rest) = some (exponent, rest) := by
  cases exponent with
  | none =>
    rw [Numeral.exponentText, bytesOf_nil, List.nil_append]
    cases rest with
    | nil => rfl
    | cons b rest =>
      have hb : ¬((b = 0x65 || b = 0x45) = true) := by
        simpa using hmark
      rw [readExponent?, if_neg hb]
  | some e =>
    have hdigits : ∀ c ∈ Nat.toDigits 10 e.natAbs, c.isDigit = true :=
      fun c hc => Decimal.isDigit_of_mem_toDigits hc
    have htake := takeDigits_append hdigits hrest
    have hne : ¬(Nat.toDigits 10 e.natAbs).isEmpty = true :=
      fun hempty => Nat.toDigits_ne_nil (List.isEmpty_iff.mp hempty)
    have hvalue := Decimal.ofDigits_toDigits e.natAbs
    rw [Numeral.exponentText]
    split
    case isTrue hneg =>
      have hsign : splitSign (0x2D :: (bytesOf (Nat.toDigits 10 e.natAbs) ++ rest)) =
        (true, bytesOf (Nat.toDigits 10 e.natAbs) ++ rest) := rfl
      have hread := readExponent?_mark hsign htake hne
      have he : -(e.natAbs : Int) = e := by omega
      rw [hvalue, if_pos rfl, he] at hread
      exact hread
    case isFalse hpos =>
      have hsign : splitSign (0x2B :: (bytesOf (Nat.toDigits 10 e.natAbs) ++ rest)) =
        (false, bytesOf (Nat.toDigits 10 e.natAbs) ++ rest) := rfl
      have hread := readExponent?_mark hsign htake hne
      have he : (e.natAbs : Int) = e := by omega
      rw [hvalue, if_neg Bool.false_ne_true, he] at hread
      exact hread

/-- Nothing that could belong to a number. -/
def EndsNumber (text : List UInt8) : Prop :=
  ¬BeginsWithDigit text ∧ text.head? ≠ some 0x2E ∧ text.head? ≠ some 0x65 ∧ text.head? ≠ some 0x45

theorem not_beginsWithDigit_cons {b : UInt8} (h : isDigit b = false) (rest : List UInt8) :
    ¬BeginsWithDigit (b :: rest) := by
  rintro ⟨b', hb', hdigit⟩
  cases hb'
  rw [h] at hdigit
  cases hdigit

/-- A number is read back from its text: its whole part, its fraction and its exponent. -/
theorem readNumeral?_text {n : Numeral} (h : n.WellFormed) {rest : List UInt8}
    (hrest : EndsNumber rest) : readNumeral? (bytesOf n.text ++ rest) = some (n, rest) := by
  obtain ⟨hdigit, hpoint, hmark⟩ := hrest
  -- a part begins with its mark, or the number goes on without it
  have hbehind : ¬BeginsWithDigit (bytesOf (Numeral.exponentText n.exponent) ++ rest) ∧
      (bytesOf (Numeral.exponentText n.exponent) ++ rest).head? ≠ some 0x2E := by
    cases n.exponent with
    | none => exact ⟨hdigit, hpoint⟩
    | some e => exact ⟨not_beginsWithDigit_cons rfl _, fun heq => nomatch heq⟩
  have hafter : ¬BeginsWithDigit (bytesOf (if n.fraction.isEmpty then [] else '.' :: n.fraction) ++
      (bytesOf (Numeral.exponentText n.exponent) ++ rest)) := by
    split
    case isTrue => exact hbehind.1
    case isFalse => exact not_beginsWithDigit_cons rfl _
  have hwhole := readWhole?_append h hafter
  have hfraction := readFraction?_append h.fraction hbehind.1 hbehind.2
  have hexponent := readExponent?_append n.exponent hdigit hmark
  rw [Numeral.text, bytesOf_append, bytesOf_append, List.append_assoc, List.append_assoc,
    readNumeral?]
  simp only [hwhole, hfraction, hexponent, Option.bind_eq_bind, Option.bind_some, Option.pure_def]

/-- A number begins with a digit. -/
theorem text_cons {n : Numeral} (h : n.WellFormed) :
    ∃ b rest, bytesOf n.text = b :: rest ∧ isDigit b = true := by
  obtain ⟨c, others, hwhole⟩ := List.exists_cons_of_ne_nil h.nonempty
  have hc : c.isDigit = true := h.whole c (hwhole ▸ List.mem_cons_self)
  obtain ⟨b, hencode, hb, -⟩ := digit_cases hc
  rw [Numeral.text, hwhole, List.cons_append, List.cons_append, bytesOf_cons, hencode]
  exact ⟨b, _, rfl, hb⟩

theorem ne_of_isDigit {b other : UInt8} (hb : isDigit b = true) (hother : isDigit other = false) :
    b ≠ other := by
  rintro rfl
  rw [hb] at hother
  cases hother

end FlowGraph.Json
