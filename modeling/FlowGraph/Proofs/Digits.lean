import Mathlib
import FlowGraph.Decimal.Layout
import FlowGraph.Proofs.Decimals

/-! A layout moves the point and adds zeros, but writes the same number. -/
namespace FlowGraph.Decimal

theorem ofDigits_eq (digits : List Char) : ofDigits digits = Nat.ofDigitChars 10 digits 0 :=
  Nat.ofDigitChars_eq_foldl.symm

theorem ofDigits_append (first rest : List Char) :
    ofDigits (first ++ rest) = ofDigits first * 10 ^ rest.length + ofDigits rest := by
  simp only [ofDigits_eq, Nat.ofDigitChars_append]
  rw [Nat.ofDigitChars_eq_ofDigitChars_zero, Nat.mul_comm]

theorem ofDigits_toDigits (n : Nat) : ofDigits (Nat.toDigits 10 n) = n := by
  rw [ofDigits_eq, Nat.ofDigitChars_ten_toDigits]

theorem isDigit_of_mem_toDigits {n : Nat} {c : Char} (h : c ∈ Nat.toDigits 10 n) :
    c.isDigit = true :=
  Nat.isDigit_of_mem_toDigits (by decide) (by decide) h

theorem ofDigits_zeros (count : Nat) : ofDigits (zeros count) = 0 := by
  rw [ofDigits_eq, zeros, Nat.ofDigitChars_replicate_zero, Nat.mul_zero]

theorem isDigit_of_mem_zeros {count : Nat} {c : Char} (h : c ∈ zeros count) : c.isDigit = true := by
  rw [List.eq_of_mem_replicate h]
  rfl

/-- Only zero begins with a zero. -/
theorem head?_toDigits {n : Nat} (h : 0 < n) : (Nat.toDigits 10 n).head? ≠ some '0' := by
  have hdigit : ∀ n < 10, 0 < n → Nat.digitChar n ≠ '0' := by decide
  induction n using Nat.strong_induction_on with
  | _ n ih =>
    by_cases hn : n < 10
    · rw [Nat.toDigits_of_lt_base hn, List.head?_cons, ne_eq, Option.some.injEq]
      exact hdigit n hn h
    · rw [Nat.toDigits_of_base_le (by decide) (by omega),
        List.head?_append_of_ne_nil _ Nat.toDigits_ne_nil]
      exact ih (n / 10) (by omega) (by omega)

/-- What is left without the zeros at the end, and the zeros. -/
theorem exists_zeros (digits : List Char) :
    ∃ count, digits = (digits.reverse.dropWhile (· = '0')).reverse ++ zeros count := by
  refine ⟨(digits.reverse.takeWhile (· = '0')).length, ?_⟩
  have hzeros : digits.reverse.takeWhile (· = '0') =
      zeros (digits.reverse.takeWhile (· = '0')).length := by
    refine List.eq_replicate_iff.mpr ⟨rfl, fun c hc => ?_⟩
    simpa using List.mem_takeWhile_imp hc
  calc digits = digits.reverse.reverse := (List.reverse_reverse digits).symm
    _ = (digits.reverse.takeWhile (· = '0') ++ digits.reverse.dropWhile (· = '0')).reverse := by
        rw [List.takeWhile_append_dropWhile]
    _ = _ := by
        rw [List.reverse_append, hzeros, zeros, List.reverse_replicate, zeros,
          List.length_replicate]

/-- Zeros at the end of the digits count for the place of the point only. -/
theorem significant_cases (d : Decimal) :
    (d.coefficient = 0 ∧ d.significant = (['0'], 1)) ∨
      ∃ kept count, 0 < d.coefficient ∧ kept ≠ [] ∧
        Nat.toDigits 10 d.coefficient = kept ++ zeros count ∧
        d.significant = (kept, (kept.length + count : Int) + d.exponent) := by
  rcases Nat.eq_zero_or_pos d.coefficient with hzero | hpos
  · refine .inl ⟨hzero, ?_⟩
    rw [significant, hzero]
    rfl
  · obtain ⟨count, hsplit⟩ := exists_zeros (Nat.toDigits 10 d.coefficient)
    unfold significant
    dsimp only
    generalize ((Nat.toDigits 10 d.coefficient).reverse.dropWhile (· = '0')).reverse = kept at *
    have hne : kept ≠ [] := by
      rintro rfl
      have hcoefficient := ofDigits_toDigits d.coefficient
      rw [hsplit, List.nil_append, ofDigits_zeros] at hcoefficient
      omega
    refine .inr ⟨kept, count, hpos, hne, hsplit, ?_⟩
    rw [if_neg (fun h => hne (List.isEmpty_iff.mp h)), hsplit, List.length_append, zeros,
      List.length_replicate, Nat.cast_add]

/-- Digits that stand for a decimal, with a point after so many of them. -/
structure Spells (digits : List Char) (point : Int) (d : Decimal) : Prop where
  nonempty : digits ≠ []
  isDigit : ∀ c ∈ digits, c.isDigit = true
  leading : digits.head? = some '0' → digits = ['0'] ∧ point = 1
  value : d.value = ofDigits digits * 10 ^ (point - digits.length)

theorem spells_significant (d : Decimal) : Spells d.significant.1 d.significant.2 d := by
  rcases significant_cases d with ⟨hzero, heq⟩ | ⟨kept, count, hpos, hne, hsplit, heq⟩
  · have hvalue : d.value = 0 := by rw [value, hzero, Nat.cast_zero, zero_mul]
    have hdigit : ofDigits ['0'] = 0 := rfl
    rw [heq]
    refine ⟨List.cons_ne_nil _ _, List.forall_mem_singleton.mpr rfl, fun _ => ⟨rfl, rfl⟩, ?_⟩
    rw [hvalue, hdigit, Nat.cast_zero, zero_mul]
  · have hcoefficient : d.coefficient = ofDigits kept * 10 ^ count := by
      have h := ofDigits_toDigits d.coefficient
      rw [hsplit, ofDigits_append, ofDigits_zeros, Nat.add_zero, zeros, List.length_replicate] at h
      exact h.symm
    rw [heq]
    refine ⟨hne, fun c hc => ?_, fun hzero => ?_, ?_⟩
    · have hmem : c ∈ Nat.toDigits 10 d.coefficient := by
        rw [hsplit]
        exact List.mem_append_left _ hc
      exact isDigit_of_mem_toDigits hmem
    · have hhead : (Nat.toDigits 10 d.coefficient).head? = some '0' := by
        rw [hsplit, List.head?_append_of_ne_nil _ hne, hzero]
      exact absurd hhead (head?_toDigits hpos)
    · have hten : (10 : ℚ) ≠ 0 := by norm_num
      have hpoint : (kept.length + count : Int) + d.exponent - kept.length =
          count + d.exponent := by omega
      rw [hpoint, zpow_add₀ hten, zpow_natCast, value, hcoefficient]
      push_cast
      ring

/-- A number as it may be written: no zero before other digits, and only digits where digits go. -/
structure Numeral.WellFormed (n : Numeral) : Prop where
  nonempty : n.whole ≠ []
  whole : ∀ c ∈ n.whole, c.isDigit = true
  leading : n.whole.head? = some '0' → n.whole = ['0']
  fraction : ∀ c ∈ n.fraction, c.isDigit = true

theorem Numeral.wellFormed_ofNat (n : Nat) : (Numeral.ofNat n).WellFormed where
  nonempty := Nat.toDigits_ne_nil
  whole := fun _ hc => isDigit_of_mem_toDigits hc
  leading := fun hzero => by
    rcases Nat.eq_zero_or_pos n with rfl | hpos
    · rfl
    · exact absurd hzero (head?_toDigits hpos)
  fraction := fun _ hc => absurd hc List.not_mem_nil

theorem Numeral.value_decimal (n : Numeral) :
    n.decimal.value = ofDigits (n.whole ++ n.fraction) *
      10 ^ (n.exponent.getD 0 - n.fraction.length) := rfl

section Layout

variable {l : Layout} {digits : List Char} {point : Int} {d : Decimal}

/-- Where the point goes, and with how many zeros. -/
theorem Layout.arrange_cases (l : Layout) (d : Decimal) :
    (l.arrange d = ⟨d.significant.1.take 1, d.significant.1.drop 1, some (d.significant.2 - 1)⟩) ∨
    (d.significant.2 ≤ 0 ∧
      l.arrange d = ⟨['0'], zeros (-d.significant.2).toNat ++ d.significant.1, none⟩) ∨
    (d.significant.1.length ≤ d.significant.2 ∧
      l.arrange d = ⟨d.significant.1 ++ zeros (d.significant.2.toNat - d.significant.1.length),
        l.wholeFraction, none⟩) ∨
    (0 < d.significant.2 ∧ d.significant.2 < d.significant.1.length ∧
      l.arrange d = ⟨d.significant.1.take d.significant.2.toNat,
        d.significant.1.drop d.significant.2.toNat, none⟩) := by
  unfold Layout.arrange
  obtain ⟨digits, point⟩ := d.significant
  dsimp only
  split
  case isTrue => exact .inl rfl
  case isFalse =>
    split
    case isTrue hpoint => exact .inr (.inl ⟨hpoint, rfl⟩)
    case isFalse hpoint =>
      split
      case isTrue hlength => exact .inr (.inr (.inl ⟨by omega, rfl⟩))
      case isFalse hlength => exact .inr (.inr (.inr ⟨by omega, by omega, rfl⟩))

theorem Layout.value_arrange (hzeros : ofDigits l.wholeFraction = 0) (d : Decimal) :
    (l.arrange d).decimal.value = d.value := by
  have hten : (10 : ℚ) ≠ 0 := by norm_num
  have hspells := spells_significant d
  have hcases := l.arrange_cases d
  generalize d.significant.1 = digits at *
  generalize d.significant.2 = point at *
  have hlength : 0 < digits.length := List.length_pos_of_ne_nil hspells.nonempty
  rw [hspells.value, Numeral.value_decimal]
  rcases hcases with heq | ⟨hpoint, heq⟩ | ⟨hpoint, heq⟩ | ⟨hpoint, hlt, heq⟩
  -- the point is after the first digit, before them all, behind them all, or among them
  · have hexponent : point - 1 - ((digits.drop 1).length : Int) = point - digits.length := by
      rw [List.length_drop]
      omega
    rw [heq]
    simp only [List.take_append_drop, Option.getD_some, hexponent]
  · have hexponent : (0 : Int) - ((zeros (-point).toNat ++ digits).length : Int) =
        point - digits.length := by
      rw [List.length_append, zeros, List.length_replicate]
      omega
    have hvalue : ofDigits (['0'] ++ (zeros (-point).toNat ++ digits)) = ofDigits digits := by
      have hzero : ofDigits ['0'] = 0 := rfl
      rw [ofDigits_append, ofDigits_append, ofDigits_zeros, hzero, Nat.zero_mul, Nat.zero_mul,
        Nat.zero_add, Nat.zero_add]
    rw [heq]
    simp only [Option.getD_none, hexponent, hvalue]
  · have hvalue : ofDigits (digits ++ zeros (point.toNat - digits.length) ++ l.wholeFraction) =
        ofDigits digits * 10 ^ (point.toNat - digits.length) * 10 ^ l.wholeFraction.length := by
      rw [ofDigits_append, ofDigits_append, ofDigits_zeros, hzeros, zeros, List.length_replicate,
        Nat.add_zero, Nat.add_zero]
    have hexponent : (point - digits.length : Int) = (point.toNat - digits.length : ℕ) := by omega
    rw [heq]
    simp only [Option.getD_none, hvalue, hexponent, zero_sub, zpow_neg, zpow_natCast]
    push_cast
    field_simp
  · have hexponent : (0 : Int) - ((digits.drop point.toNat).length : Int) =
        point - digits.length := by
      rw [List.length_drop]
      omega
    rw [heq]
    simp only [List.take_append_drop, Option.getD_none, hexponent]

theorem Layout.wellFormed_arrange (hdigits : ∀ c ∈ l.wholeFraction, c.isDigit = true)
    (d : Decimal) : (l.arrange d).WellFormed := by
  have hspells := spells_significant d
  have hcases := l.arrange_cases d
  generalize d.significant.1 = digits at *
  generalize d.significant.2 = point at *
  have hlength : 0 < digits.length := List.length_pos_of_ne_nil hspells.nonempty
  have htake : ∀ n, ∀ c ∈ digits.take n, c.isDigit = true :=
    fun n c hc => hspells.isDigit c (List.mem_of_mem_take hc)
  have hdrop : ∀ n, ∀ c ∈ digits.drop n, c.isDigit = true :=
    fun n c hc => hspells.isDigit c (List.mem_of_mem_drop hc)
  -- the part before the point begins as the digits do
  have hwhole : ∀ n, 0 < n → digits.take n ≠ [] ∧
      ((digits.take n).head? = some '0' → digits.take n = ['0']) := by
    intro n hn
    refine ⟨List.ne_nil_of_length_pos (by rw [List.length_take]; omega), fun hzero => ?_⟩
    rw [List.head?_take, if_neg hn.ne'] at hzero
    rw [(hspells.leading hzero).1]
    exact List.take_of_length_le hn
  rcases hcases with heq | ⟨hpoint, heq⟩ | ⟨hpoint, heq⟩ | ⟨hpoint, hlt, heq⟩ <;> rw [heq]
  · obtain ⟨hne, hleading⟩ := hwhole 1 Nat.one_pos
    exact ⟨hne, htake 1, hleading, hdrop 1⟩
  · refine ⟨List.cons_ne_nil _ _, List.forall_mem_singleton.mpr rfl, fun _ => rfl, ?_⟩
    exact List.forall_mem_append.mpr ⟨fun c hc => isDigit_of_mem_zeros hc, hspells.isDigit⟩
  · refine ⟨List.append_ne_nil_of_left_ne_nil hspells.nonempty _, ?_, fun hzero => ?_, hdigits⟩
    · exact List.forall_mem_append.mpr ⟨hspells.isDigit, fun c hc => isDigit_of_mem_zeros hc⟩
    · rw [List.head?_append_of_ne_nil _ hspells.nonempty] at hzero
      obtain ⟨hdigits, hpoint⟩ := hspells.leading hzero
      rw [hdigits, hpoint]
      rfl
  · obtain ⟨hne, hleading⟩ := hwhole point.toNat (by omega)
    exact ⟨hne, htake _, hleading, hdrop _⟩

/-- What is written for a finite number is read as it. -/
theorem Layout.toBinary_numeral (hzeros : ofDigits l.wholeFraction = 0) {f : Binary.Format}
    {x : Binary f} (hfinite : x.isFinite = true) :
    (l.numeral x).decimal.toBinary x.negative = x := by
  have hlt : x.magnitude < f.infinity := of_decide_eq_true hfinite
  have hnearest : (l.numeral x).decimal.nearest f = x.magnitude := by
    rw [Layout.numeral, nearest_of_value_eq (l.value_arrange hzeros _)]
    exact nearest_shortest hlt
  rw [toBinary, hnearest]
  exact Binary.ext_magnitude (Binary.negative_ofMagnitude x.magnitude_lt)
    (Binary.magnitude_ofMagnitude x.magnitude_lt)

end Layout

end FlowGraph.Decimal
