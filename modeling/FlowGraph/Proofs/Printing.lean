import FlowGraph.Element.Value
import FlowGraph.Proofs.Digits
import FlowGraph.Proofs.Widening

/-! Printed values are read as what they were: truth values, integers with their sign, and numbers
of either format down to the last bit. -/
namespace FlowGraph

namespace Text

/-- From the minus sign to the last letter: no blank, and no comma. -/
def IsPrinted (c : Char) : Prop := 0x2D ≤ c.toNat ∧ c.toNat ≤ 0x7A

instance (c : Char) : Decidable (IsPrinted c) := inferInstanceAs (Decidable (_ ∧ _))

theorem isPrinted_of_isDigit {c : Char} (h : c.isDigit = true) : IsPrinted c := by
  simp only [Char.isDigit, Bool.and_eq_true, decide_eq_true_eq] at h
  have hlow : 48 ≤ c.toNat := h.1
  have hhigh : c.toNat ≤ 57 := h.2
  exact ⟨by omega, by omega⟩

theorem IsPrinted.not_isBlank {c : Char} (h : IsPrinted c) : isBlank c = false := by
  obtain ⟨hlow, hhigh⟩ := h
  simp only [isBlank, Bool.or_eq_false_iff, Bool.and_eq_false_iff, decide_eq_false_iff_not]
  omega

theorem IsPrinted.ne_comma {c : Char} (h : IsPrinted c) : c ≠ ',' := by
  rintro rfl
  exact absurd h (by decide)

/-- A text in one piece, which is not empty. -/
structure IsWord (text : List Char) : Prop where
  ne_nil : text ≠ []
  printed : ∀ c ∈ text, IsPrinted c

variable {before text after : List Char}

theorem dropWhile_isBlank (hbefore : ∀ c ∈ before, isBlank c = true) (htext : IsWord text)
    (after : List Char) :
    (before ++ text ++ after).dropWhile isBlank = text ++ after := by
  obtain ⟨c, rest, rfl⟩ := List.exists_cons_of_ne_nil htext.ne_nil
  have hc : isBlank c = false := (htext.printed c List.mem_cons_self).not_isBlank
  rw [List.append_assoc, List.dropWhile_append_of_pos hbefore, List.cons_append,
    List.dropWhile_cons_of_neg (by simp [hc])]

theorem IsWord.reverse (h : IsWord text) : IsWord text.reverse :=
  ⟨by simpa using h.ne_nil, fun c hc => h.printed c (List.mem_reverse.mp hc)⟩

/-- Blanks around a word are taken off, and nothing else. -/
theorem trimChars_word (hbefore : ∀ c ∈ before, isBlank c = true)
    (hafter : ∀ c ∈ after, isBlank c = true) (htext : IsWord text) :
    trimChars (before ++ text ++ after) = text := by
  have hbehind : ∀ c ∈ after.reverse, isBlank c = true :=
    fun c hc => hafter c (List.mem_reverse.mp hc)
  have hdrop := dropWhile_isBlank hbehind htext.reverse []
  rw [List.append_nil, List.append_nil] at hdrop
  rw [trimChars, dropWhile_isBlank hbefore htext, List.reverse_append, hdrop, List.reverse_reverse]

theorem trim_word {word : String} (h : IsWord word.toList) : trim word = word := by
  have htrim := trimChars_word (List.forall_mem_nil _) (List.forall_mem_nil _) h
  rw [List.nil_append, List.append_nil] at htrim
  rw [trim, htrim, String.ofList_toList]

end Text

namespace Decimal

/-- The sign is taken off what begins with a digit. -/
theorem splitSign_append (negative : Bool) {c : Char} (h : c.isDigit = true) (rest : List Char) :
    splitSign ((if negative then ['-'] else []) ++ c :: rest) = (negative, c :: rest) := by
  cases negative with
  | true => rfl
  | false =>
    -- no digit is a sign
    simp only [Bool.false_eq_true, if_false, List.nil_append]
    unfold splitSign
    split
    case h_1 heq =>
      obtain ⟨rfl, -⟩ := List.cons.inj heq
      cases h
    case h_2 heq =>
      obtain ⟨rfl, -⟩ := List.cons.inj heq
      cases h
    case h_3 => rfl

theorem exists_toDigits_cons (n : Nat) :
    ∃ c rest, Nat.toDigits 10 n = c :: rest ∧ c.isDigit = true := by
  obtain ⟨c, rest, hcons⟩ := List.exists_cons_of_ne_nil (Nat.toDigits_ne_nil (n := n) (b := 10))
  exact ⟨c, rest, hcons, isDigit_of_mem_toDigits (hcons ▸ List.mem_cons_self)⟩

/-- Without an exponent, a number is read up to its end. -/
theorem Numeral.read?_text {n : Numeral} (h : n.WellFormed) (hexponent : n.exponent = none) :
    Numeral.read? n.text = some n := by
  rcases n with ⟨whole, fraction, exponent⟩
  obtain rfl : exponent = none := hexponent
  have hwhole : ∀ c ∈ whole, c.isDigit = true := h.whole
  have hfraction : ∀ c ∈ fraction, c.isDigit = true := h.fraction
  have hne : whole.isEmpty = false := List.isEmpty_eq_false_iff.mpr h.nonempty
  cases fraction with
  | nil =>
    simp only [text, List.isEmpty_nil, if_true, exponentText, List.append_nil, read?]
    rw [List.takeWhile_eq_self_iff.mpr hwhole, List.dropWhile_eq_nil_iff.mpr hwhole]
    simp [hne, readExponent?]
  | cons c fraction =>
    have hpoint : ('.').isDigit = false := rfl
    simp only [text, List.isEmpty_cons, Bool.false_eq_true, if_false, exponentText,
      List.append_nil, read?]
    rw [List.takeWhile_append_of_pos hwhole, List.dropWhile_append_of_pos hwhole,
      List.takeWhile_cons_of_neg (by simp), List.dropWhile_cons_of_neg (by simp), List.append_nil]
    simp only [List.takeWhile_eq_self_iff.mpr hfraction, List.dropWhile_eq_nil_iff.mpr hfraction]
    simp [hne, readExponent?]

theorem Layout.exponent_plain (d : Decimal) : (Layout.plain.arrange d).exponent = none := by
  unfold Layout.arrange
  obtain ⟨digits, point⟩ := d.significant
  simp only [plain, Bool.not_true, Bool.false_eq_true, if_false]
  split
  · rfl
  · split <;> rfl

end Decimal

theorem toList_toString (n : Int) :
    (toString n).toList = (if decide (n < 0) then ['-'] else []) ++ Nat.toDigits 10 n.natAbs := by
  cases n <;> simp [toString, Int.repr]

theorem readInteger?_toString (n : Int) : readInteger? (toString n).toList = some n := by
  obtain ⟨c, rest, hcons, hc⟩ := Decimal.exists_toDigits_cons n.natAbs
  have hsign : Decimal.splitSign (toString n).toList =
      (decide (n < 0), Nat.toDigits 10 n.natAbs) := by
    rw [toList_toString, hcons, Decimal.splitSign_append _ hc]
  have hdigits : (Nat.toDigits 10 n.natAbs).all Char.isDigit = true :=
    List.all_eq_true.mpr fun _ hc => Decimal.isDigit_of_mem_toDigits hc
  have hne : (Nat.toDigits 10 n.natAbs).isEmpty = false :=
    List.isEmpty_eq_false_iff.mpr Nat.toDigits_ne_nil
  simp only [readInteger?, hsign, hne, hdigits, Bool.not_true, Bool.or_self, Bool.false_eq_true,
    if_false, Decimal.ofDigits_toDigits, decide_eq_true_eq, Option.some.injEq]
  split <;> omega

theorem readInRange?_toString {α : Type} {least greatest n : Int}
    (h : least ≤ n ∧ n ≤ greatest) (ofInt : Int → α) :
    (do
      let k ← readInteger? (toString n).toList
      if least ≤ k ∧ k ≤ greatest then some (ofInt k) else none) = some (ofInt n) := by
  rw [readInteger?_toString, Option.bind_eq_bind, Option.bind_some, if_pos h]

/-- What is read where the number was printed: all NaNs are printed alike. -/
def Binary.reprinted {f : Binary.Format} (x : Binary f) : Binary f :=
  if x.isNaN then .nan false else x

namespace Decimal

theorem toLower_of_isDigit {c : Char} (h : c.isDigit = true) : c.toLower = c := by
  simp only [Char.isDigit, Bool.and_eq_true, decide_eq_true_eq] at h
  refine dif_neg fun hupper => ?_
  have hlow : 65 ≤ c.toNat := UInt32.le_iff_toNat_le.mp hupper.1
  have hhigh : c.toNat ≤ 57 := h.2
  omega

/-- No name begins with a digit. -/
theorem readBinary?_signed {f : Binary.Format} (negative : Bool) {c : Char}
    (h : c.isDigit = true) (rest : List Char) :
    (readBinary? ((if negative then ['-'] else []) ++ c :: rest) : Option (Binary f)) =
      (Numeral.read? (c :: rest)).map (·.decimal.toBinary negative) := by
  have hname : ∀ first others, first.isDigit = false →
      (c :: rest).map Char.toLower ≠ first :: others := by
    intro first others hfirst heq
    rw [List.map_cons, toLower_of_isDigit h] at heq
    rw [(List.cons.inj heq).1, hfirst] at h
    cases h
  have hinf : (c :: rest).map Char.toLower ≠ "inf".toList := hname 'i' _ rfl
  have hinfinity : (c :: rest).map Char.toLower ≠ "infinity".toList := hname 'i' _ rfl
  have hnan : (c :: rest).map Char.toLower ≠ "nan".toList := hname 'n' _ rfl
  simp only [readBinary?, splitSign_append negative h, hinf, hinfinity, hnan, decide_false,
    Bool.or_self, Bool.false_eq_true, if_false]

end Decimal

/-- The digits of a finite number, behind its sign. -/
theorem toList_write {f : Binary.Format} (x : Binary f) :
    (Decimal.Layout.plain.write x).toList =
      (if x.negative then ['-'] else []) ++ (Decimal.Layout.plain.numeral x).text := by
  rw [Decimal.Layout.write, String.toList_append, String.toList_ofList]
  cases x.negative <;> rfl

theorem wellFormed_plain {f : Binary.Format} (x : Binary f) :
    (Decimal.Layout.plain.numeral x).WellFormed :=
  Decimal.Layout.wellFormed_arrange (List.forall_mem_nil _) _

theorem exists_text_cons {n : Decimal.Numeral} (h : n.WellFormed) :
    ∃ c rest, n.text = c :: rest ∧ c.isDigit = true := by
  obtain ⟨c, others, hwhole⟩ := List.exists_cons_of_ne_nil h.nonempty
  have hc : c.isDigit = true := h.whole c (hwhole ▸ List.mem_cons_self)
  rw [Decimal.Numeral.text, hwhole]
  exact ⟨c, _, rfl, hc⟩

theorem readBinary?_displayBinary {f : Binary.Format} (x : Binary f) :
    Decimal.readBinary? (ElementType.displayBinary x).toList = some x.reprinted := by
  unfold ElementType.displayBinary Binary.reprinted
  cases hnan : x.isNaN with
  | true =>
    rw [if_pos rfl, if_pos rfl]
    rfl
  | false =>
    rw [if_neg Bool.false_ne_true, if_neg Bool.false_ne_true]
    cases hfinite : x.isFinite with
    | true =>
      have hwellFormed := wellFormed_plain x
      obtain ⟨c, rest, htext, hc⟩ := exists_text_cons hwellFormed
      have hread := Decimal.Numeral.read?_text hwellFormed (Decimal.Layout.exponent_plain _)
      rw [if_pos rfl, toList_write, htext, Decimal.readBinary?_signed _ hc, ← htext, hread,
        Option.map_some, Decimal.Layout.toBinary_numeral rfl hfinite]
    | false =>
      have hread : ∀ negative : Bool,
          Decimal.readBinary? (if negative then "-inf" else "inf").toList =
            some (Binary.infinity negative : Binary f) := by
        intro negative
        cases negative <;> rfl
      rw [if_neg Bool.false_ne_true, hread, ← Binary.eq_infinity hnan hfinite]

namespace Text

variable {text : List Char}

theorem IsWord.signed (h : IsWord text) (negative : Bool) :
    IsWord ((if negative then ['-'] else []) ++ text) := by
  cases negative with
  | false => exact h
  | true =>
    refine ⟨List.cons_ne_nil _ _, List.forall_mem_cons.mpr ⟨by decide, h.printed⟩⟩

theorem isWord_toDigits (n : Nat) : IsWord (Nat.toDigits 10 n) where
  ne_nil := Nat.toDigits_ne_nil
  printed _ hc := isPrinted_of_isDigit (Decimal.isDigit_of_mem_toDigits hc)

theorem isWord_toString (n : Int) : IsWord (toString n).toList := by
  rw [toList_toString]
  exact (isWord_toDigits n.natAbs).signed _

theorem isWord_numeral {n : Decimal.Numeral} (h : n.WellFormed) (hexponent : n.exponent = none) :
    IsWord n.text := by
  obtain ⟨c, rest, htext, -⟩ := exists_text_cons h
  refine ⟨htext ▸ List.cons_ne_nil _ _, fun d hd => ?_⟩
  rw [Decimal.Numeral.text, hexponent, Decimal.Numeral.exponentText, List.append_nil] at hd
  rcases List.mem_append.mp hd with hd | hd
  · exact isPrinted_of_isDigit (h.whole d hd)
  · split at hd
    · cases hd
    · rcases List.mem_cons.mp hd with rfl | hd
      · decide
      · exact isPrinted_of_isDigit (h.fraction d hd)

theorem isWord_displayBinary {f : Binary.Format} (x : Binary f) :
    IsWord (ElementType.displayBinary x).toList := by
  have hnan : IsWord "NaN".toList := ⟨by simp, by simp [IsPrinted]⟩
  have hinfinity : IsWord "inf".toList := ⟨by simp, by simp [IsPrinted]⟩
  have hnegative : IsWord "-inf".toList := ⟨by simp, by simp [IsPrinted]⟩
  unfold ElementType.displayBinary
  split
  · exact hnan
  split
  · rw [toList_write]
    exact (isWord_numeral (wellFormed_plain x) (Decimal.Layout.exponent_plain _)).signed _
  split
  · exact hnegative
  · exact hinfinity

end Text

namespace ElementType

/-- No value is printed as nothing, or with a blank or a comma in it. -/
theorem isWord_display (t : ElementType) (v : t.Value) : Text.IsWord (t.display v).toList := by
  cases t with
  | bool =>
    have htrue : Text.IsWord "true".toList := ⟨by simp, by simp [Text.IsPrinted]⟩
    have hfalse : Text.IsWord "false".toList := ⟨by simp, by simp [Text.IsPrinted]⟩
    cases (v : Bool) with
    | true => exact htrue
    | false => exact hfalse
  | int => exact Text.isWord_toString (v : Int32).toInt
  | int64 => exact Text.isWord_toString (v : Int64).toInt
  | float => exact Text.isWord_displayBinary (v : Binary .single)
  | double => exact Text.isWord_displayBinary (v : Binary .double)

/-- What is read where the value was printed: the value itself, or NaN for a NaN. -/
def reprinted : (t : ElementType) → t.Value → t.Value
  | .float, x => (x : Binary .single).reprinted
  | .double, x => (x : Binary .double).reprinted
  | .bool, b => b
  | .int, n => n
  | .int64, n => n

theorem readTrimmed?_display (t : ElementType) (v : t.Value) :
    t.readTrimmed? (t.display v) = some (t.reprinted v) := by
  cases t with
  | bool => cases (v : Bool) <;> rfl
  | int =>
    have hrange := And.intro (v : Int32).minValue_le_toInt (v : Int32).toInt_le
    exact (readInRange?_toString hrange Int32.ofInt).trans (congrArg some (Int32.ofInt_toInt v))
  | int64 =>
    have hrange := And.intro (v : Int64).minValue_le_toInt (v : Int64).toInt_le
    exact (readInRange?_toString hrange Int64.ofInt).trans (congrArg some (Int64.ofInt_toInt v))
  | float => exact readBinary?_displayBinary (v : Binary .single)
  | double => exact readBinary?_displayBinary (v : Binary .double)

theorem parse_display (t : ElementType) (v : t.Value) :
    t.parse (t.display v) = .ok (t.reprinted v) := by
  rw [parse, Text.trim_word (t.isWord_display v), t.readTrimmed?_display v]

end ElementType

end FlowGraph
