import Mathlib
import FlowGraph.Decimal.Layout
import FlowGraph.Proofs.Widening

/-! Rounding a decimal depends on its value alone, and the shortest decimal is read as the number it
is written for. -/
namespace FlowGraph

namespace Binary.Format

variable {f : Format} {num den : Nat}

theorem halfEven_mul {k : Nat} (h : 0 < k) (num den : Nat) :
    halfEven (num * k) (den * k) = halfEven num den := by
  simp only [halfEven, Nat.mul_div_mul_right _ _ h, Nat.mul_mod_mul_right, ← Nat.mul_assoc,
    Nat.mul_lt_mul_right h]

/-- A fraction need not be in lowest terms. -/
theorem nearest_mul {k : Nat} (h : 0 < k) (num den : Nat) :
    f.nearest (num * k) (den * k) = f.nearest num den := by
  have hscaled : num * k * 2 ^ f.depth = num * 2 ^ f.depth * k := Nat.mul_right_comm _ _ _
  simp only [nearest, Nat.shiftLeft_eq, hscaled, Nat.mul_div_mul_right _ _ h,
    Nat.mul_right_comm den k, halfEven_mul h]

theorem nearest_congr {num' den' : Nat} (hden : 0 < den) (hden' : 0 < den')
    (h : num * den' = num' * den) : f.nearest num den = f.nearest num' den' := by
  calc f.nearest num den = f.nearest (num * den') (den * den') := (nearest_mul hden' _ _).symm
    _ = f.nearest (num' * den) (den' * den) := by rw [h, Nat.mul_comm den]
    _ = f.nearest num' den' := nearest_mul hden _ _

/-- Beyond the greatest exponent there is only infinity. -/
theorem nearest_of_overflow
    (h : 2 ^ (2 ^ f.exponentBits - 1 + f.fractionBits) ≤ num * 2 ^ f.depth) :
    f.nearest num 1 = f.infinity := by
  have hne : num * 2 ^ f.depth ≠ 0 := (Nat.lt_of_lt_of_le (Nat.two_pow_pos _) h).ne'
  have hlog := (Nat.le_log2 hne).mpr h
  have hexponent : 2 ^ f.exponentBits - 1 ≤ (num * 2 ^ f.depth).log2 - f.fractionBits := by omega
  simp only [nearest, Nat.shiftLeft_eq, Nat.div_one]
  refine Nat.min_eq_right (Nat.le_add_right_of_le ?_)
  rw [infinity_eq]
  exact Nat.mul_le_mul_right _ hexponent

/-- Less than half a step is nothing. -/
theorem nearest_of_underflow (h : 2 * (num * 2 ^ f.depth) < den) : f.nearest num den = 0 := by
  have hquotient : num * 2 ^ f.depth / den = 0 := Nat.div_eq_of_lt (by omega)
  have hrest : num * 2 ^ f.depth % den = num * 2 ^ f.depth := Nat.mod_eq_of_lt (by omega)
  have hround : halfEven (num * 2 ^ f.depth) den = 0 := by
    rw [halfEven, hrest, if_pos h, hquotient]
  simp [nearest, Nat.shiftLeft_eq, hquotient, hround]

/-- Every power of ten beyond the depth overflows. -/
theorem overflow_of_depth_lt {e : Nat} (hnum : 0 < num) (h : f.depth < e) :
    2 ^ (2 ^ f.exponentBits - 1 + f.fractionBits) ≤ num * 10 ^ e * 2 ^ f.depth := by
  have hexponents : 2 ^ f.exponentBits - 1 + f.fractionBits ≤ 3 * e + f.depth := by
    have hdepth : f.depth = 2 ^ (f.exponentBits - 1) - 3 + f.precision := by
      rw [depth, Nat.one_shiftLeft]
    have hfraction : f.fractionBits = f.precision - 1 := rfl
    rcases hbits : f.exponentBits with - | - | - | bits <;> rw [hbits] at hdepth
    · simp only [Nat.pow_zero]
      omega
    · simp only [Nat.zero_add, Nat.pow_one] at hdepth ⊢
      omega
    · simp only [Nat.zero_add, Nat.reduceAdd, Nat.reducePow] at hdepth ⊢
      omega
    · -- from here on the truncated difference is a true one
      have hpower : 2 ^ (bits + 1 + 1 + 1 - 1) = 4 * 2 ^ bits := by
        rw [Nat.add_sub_cancel]
        ring
      have hpower' : 2 ^ (bits + 1 + 1 + 1) = 8 * 2 ^ bits := by ring
      have hpos := Nat.two_pow_pos bits
      omega
  calc 2 ^ (2 ^ f.exponentBits - 1 + f.fractionBits) ≤ 2 ^ (3 * e + f.depth) :=
        Nat.pow_le_pow_right (by decide) hexponents
    _ = 8 ^ e * 2 ^ f.depth := by rw [Nat.pow_add, Nat.pow_mul]
    _ ≤ 10 ^ e * 2 ^ f.depth := Nat.mul_le_mul_right _ (Nat.pow_le_pow_left (by decide) e)
    _ ≤ num * 10 ^ e * 2 ^ f.depth :=
        Nat.mul_le_mul_right _ (Nat.le_mul_of_pos_left _ hnum)

theorem underflow_of_depth_lt {e : Nat} (h : f.depth + num.log2 < e) :
    2 * (num * 2 ^ f.depth) < 10 ^ (e + 1) := by
  have hnum : num < 2 ^ (num.log2 + 1) := Nat.lt_log2_self
  calc 2 * (num * 2 ^ f.depth) < 2 * (2 ^ (num.log2 + 1) * 2 ^ f.depth) :=
        Nat.mul_lt_mul_of_pos_left (Nat.mul_lt_mul_of_pos_right hnum (Nat.two_pow_pos _))
          (by decide)
    _ = 2 ^ (f.depth + num.log2 + 2) := by ring
    _ ≤ 2 ^ (e + 1) := Nat.pow_le_pow_right (by decide) (by omega)
    _ ≤ 10 ^ (e + 1) := Nat.pow_le_pow_left (by decide) _

end Binary.Format

namespace Decimal

open Binary (Format)

variable {f : Format} {d : Decimal}

/-- The number that a decimal stands for. -/
def value (d : Decimal) : ℚ := d.coefficient * 10 ^ d.exponent

theorem value_eq (d : Decimal) :
    d.value = (d.coefficient * 10 ^ d.exponent.toNat : ℕ) / (10 ^ (-d.exponent).toNat : ℕ) := by
  obtain ⟨coefficient, e | e⟩ := d
  · have hneg : (-(e : Int)).toNat = 0 := Int.toNat_of_nonpos (by omega)
    simp [value, hneg]
  · simp [value, zpow_negSucc, div_eq_mul_inv]

/-- The powers that are not computed would not change the answer. -/
theorem nearest_eq_fraction (d : Decimal) :
    d.nearest f = f.nearest (d.coefficient * 10 ^ d.exponent.toNat) (10 ^ (-d.exponent).toNat) := by
  obtain ⟨coefficient, exponent⟩ := d
  unfold nearest
  split
  case isTrue hzero =>
    have hnum : coefficient * 10 ^ exponent.toNat = 0 := Nat.mul_eq_zero.mpr (.inl hzero)
    rw [hnum, Format.nearest_of_underflow (by simp)]
  case isFalse hne =>
    cases exponent with
    | ofNat e =>
      have hden : (-(Int.ofNat e)).toNat = 0 := Int.toNat_of_nonpos (by simp)
      rw [hden, Nat.pow_zero]
      dsimp only
      split
      case isTrue he =>
        -- a power this great is beyond every number of the format
        have hoverflow := Format.overflow_of_depth_lt (Nat.pos_of_ne_zero hne) he
        exact (Format.nearest_of_overflow hoverflow).symm
      case isFalse => rfl
    | negSucc e =>
      dsimp only
      split
      case isTrue he =>
        -- and one this small is less than half a step
        have hunderflow := Format.underflow_of_depth_lt he
        refine (Format.nearest_of_underflow ?_).symm
        simpa using hunderflow
      case isFalse => simp

/-- A decimal is rounded as any fraction that is as great. -/
theorem nearest_eq {num den : Nat} (hden : 0 < den) (h : d.value = num / den) :
    d.nearest f = f.nearest num den := by
  have hpow : 0 < 10 ^ (-d.exponent).toNat := Nat.pow_pos (by decide)
  rw [nearest_eq_fraction]
  refine Format.nearest_congr hpow hden ?_
  rw [value_eq, div_eq_div_iff (Nat.cast_ne_zero.mpr hpow.ne') (Nat.cast_ne_zero.mpr hden.ne')] at h
  exact_mod_cast h

/-- Decimals of one value are read as the same number. -/
theorem nearest_of_value_eq {d' : Decimal} (h : d.value = d'.value) :
    d.nearest f = d'.nearest f := by
  have hpow : 0 < 10 ^ (-d'.exponent).toNat := Nat.pow_pos (by decide)
  rw [nearest_eq hpow (h.trans d'.value_eq), nearest_eq hpow d'.value_eq]

section Shortest

variable {tie : Tie} {magnitude : Nat}

theorem of_first_that {P : Decimal → Prop} [DecidablePred P] {a b c : Decimal}
    (h : (if P a then some a else if P b then some b else if P c then some c else none) =
      some d) : P d := by
  split at h
  case isTrue ha => exact Option.some.inj h ▸ ha
  case isFalse =>
    split at h
    case isTrue hb => exact Option.some.inj h ▸ hb
    case isFalse =>
      split at h
      case isTrue hc => exact Option.some.inj h ▸ hc
      case isFalse => cases h

/-- A neighbour on a grid is only taken if it is read as the number. -/
theorem nearest_onGrid? {num den : Nat} {exponent : Int}
    (h : onGrid? f tie magnitude num den exponent = some d) : d.nearest f = magnitude :=
  of_first_that (P := fun d => d.nearest f = magnitude) h

/-- The exact expansion of a number of steps. -/
theorem nearest_expansion (hfinite : magnitude < f.infinity) :
    nearest f ⟨f.steps magnitude * Nat.pow 5 f.depth, -f.depth⟩ = magnitude := by
  have hvalue : value ⟨f.steps magnitude * Nat.pow 5 f.depth, -f.depth⟩ =
      (f.steps magnitude : ℕ) / (2 ^ f.depth : ℕ) := by
    have hten : (10 : ℚ) ^ f.depth = 5 ^ f.depth * 2 ^ f.depth := by
      rw [← mul_pow]
      norm_num
    simp only [value, Nat.pow_eq, zpow_neg, zpow_natCast, hten]
    push_cast
    field_simp
  rw [nearest_eq (Nat.two_pow_pos _) hvalue]
  exact Format.nearest_steps hfinite (Nat.two_pow_pos _) rfl

theorem nearest_searchFrom (hfinite : magnitude < f.infinity) (top : Int) (digits fuel : Nat) :
    (searchFrom f tie magnitude top digits fuel).nearest f = magnitude := by
  induction fuel generalizing digits with
  | zero => exact nearest_expansion hfinite
  | succ fuel ih =>
    rw [searchFrom]
    split
    next hgrid => exact nearest_onGrid? hgrid
    next => exact ih _

/-- The shortest decimal of a finite number is read as that number. -/
theorem nearest_shortest (hfinite : magnitude < f.infinity) :
    (shortest f tie magnitude).nearest f = magnitude := by
  unfold shortest
  split
  case isTrue hzero => exact hzero.symm
  case isFalse => exact nearest_searchFrom hfinite _ _ _

end Shortest

end Decimal

end FlowGraph
