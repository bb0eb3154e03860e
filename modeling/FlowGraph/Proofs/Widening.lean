import Mathlib
import FlowGraph.Archive.Conversion
import FlowGraph.Graph.Stored

/-! Numbers that a format holds exactly come through rounding as they are. So a number of 32 bits
survives being widened and narrowed again. -/
namespace FlowGraph.Binary

namespace Format

variable {f : Format}

/-- A magnitude by its exponent and its fraction. -/
theorem magnitude_eq (f : Format) (magnitude : Nat) :
    magnitude = magnitude / 2 ^ f.fractionBits * 2 ^ f.fractionBits +
      magnitude % 2 ^ f.fractionBits := by
  rw [Nat.mul_comm]
  exact (Nat.div_add_mod _ _).symm

theorem steps_of_exponent_eq_zero {magnitude : Nat} (h : magnitude < 2 ^ f.fractionBits) :
    f.steps magnitude = magnitude := by
  simp only [steps, Nat.shiftRight_eq_div_pow, Nat.one_shiftLeft, Nat.div_eq_of_lt h, if_true]
  exact Nat.mod_eq_of_lt h

/-- Above the least exponent the hidden bit counts. -/
theorem steps_of_exponent {exponent fraction : Nat} (h : fraction < 2 ^ f.fractionBits) :
    f.steps ((exponent + 1) * 2 ^ f.fractionBits + fraction) =
      (fraction + 2 ^ f.fractionBits) * 2 ^ exponent := by
  have hpos : 0 < 2 ^ f.fractionBits := Nat.two_pow_pos _
  have hdiv : ((exponent + 1) * 2 ^ f.fractionBits + fraction) / 2 ^ f.fractionBits =
      exponent + 1 := by
    rw [Nat.mul_comm, Nat.mul_add_div hpos, Nat.div_eq_of_lt h, Nat.add_zero]
  have hmod : ((exponent + 1) * 2 ^ f.fractionBits + fraction) % 2 ^ f.fractionBits = fraction := by
    rw [Nat.mul_comm, Nat.mul_add_mod, Nat.mod_eq_of_lt h]
  simp only [steps, Nat.shiftRight_eq_div_pow, Nat.shiftLeft_eq, Nat.one_mul, hdiv, hmod]
  rfl

/-- Magnitudes are in the order of the numbers they stand for. -/
theorem steps_lt {a b : Nat} (h : a < b) : f.steps a < f.steps b := by
  have hb := magnitude_eq f b
  have ha := magnitude_eq f a
  have hfa : a % 2 ^ f.fractionBits < 2 ^ f.fractionBits := Nat.mod_lt _ (Nat.two_pow_pos _)
  have hfb : b % 2 ^ f.fractionBits < 2 ^ f.fractionBits := Nat.mod_lt _ (Nat.two_pow_pos _)
  have hexponents : a / 2 ^ f.fractionBits ≤ b / 2 ^ f.fractionBits := Nat.div_le_div_right h.le
  -- by the exponents, the lower one of which may be zero
  cases heb : b / 2 ^ f.fractionBits with
  | zero =>
    rw [heb] at hexponents hb
    rw [Nat.le_zero.mp hexponents] at ha
    rw [steps_of_exponent_eq_zero (by omega), steps_of_exponent_eq_zero (by omega)]
    exact h
  | succ j =>
    have hstepsb : f.steps b = (b % 2 ^ f.fractionBits + 2 ^ f.fractionBits) * 2 ^ j := by
      rw [heb] at hb
      conv_lhs => rw [hb]
      exact steps_of_exponent hfb
    cases hea : a / 2 ^ f.fractionBits with
    | zero =>
      rw [hea] at ha
      rw [steps_of_exponent_eq_zero (by omega), hstepsb]
      calc a < 2 ^ f.fractionBits := by omega
        _ ≤ b % 2 ^ f.fractionBits + 2 ^ f.fractionBits := Nat.le_add_left _ _
        _ ≤ _ := Nat.le_mul_of_pos_right _ (Nat.two_pow_pos _)
    | succ i =>
      have hstepsa : f.steps a = (a % 2 ^ f.fractionBits + 2 ^ f.fractionBits) * 2 ^ i := by
        rw [hea] at ha
        conv_lhs => rw [ha]
        exact steps_of_exponent hfa
      rw [hstepsa, hstepsb]
      rw [hea, heb] at hexponents
      rcases Nat.lt_or_eq_of_le (Nat.le_of_succ_le_succ hexponents) with hlt | rfl
      · -- a greater exponent doubles the steps, which is more than any fraction can
        have hdouble : 2 * 2 ^ i ≤ 2 ^ j := by
          rw [Nat.mul_comm, ← Nat.pow_succ]
          exact Nat.pow_le_pow_right (by decide) hlt
        calc (a % 2 ^ f.fractionBits + 2 ^ f.fractionBits) * 2 ^ i
            < (2 * 2 ^ f.fractionBits) * 2 ^ i :=
              Nat.mul_lt_mul_of_pos_right (by omega) (Nat.two_pow_pos _)
          _ = 2 ^ f.fractionBits * (2 * 2 ^ i) := by ring
          _ ≤ 2 ^ f.fractionBits * 2 ^ j := Nat.mul_le_mul_left _ hdouble
          _ ≤ (b % 2 ^ f.fractionBits + 2 ^ f.fractionBits) * 2 ^ j :=
              Nat.mul_le_mul_right _ (Nat.le_add_left _ _)
      · rw [hea] at ha
        rw [heb] at hb
        exact Nat.mul_lt_mul_of_pos_right (by omega) (Nat.two_pow_pos _)

/-- An exact quotient is not rounded. -/
theorem halfEven_exact {quotient den : Nat} (h : 0 < den) :
    halfEven (quotient * den) den = quotient := by
  simp only [halfEven, Nat.mul_mod_left, Nat.mul_zero, h, if_true]
  exact Nat.mul_div_cancel _ h

/-- The magnitude of a number of steps that has enough zero bits at its end. -/
theorem nearest_eq {num den total : Nat} (hden : 0 < den) (h : num * 2 ^ f.depth = total * den)
    (hdvd : 2 ^ (total.log2 - f.fractionBits) ∣ total) :
    f.nearest num den = min ((total.log2 - f.fractionBits) * 2 ^ f.fractionBits +
      total / 2 ^ (total.log2 - f.fractionBits)) f.infinity := by
  obtain ⟨significand, hsignificand⟩ := hdvd
  simp only [nearest, Nat.shiftLeft_eq, h, Nat.mul_div_cancel _ hden]
  -- the zero bits at the end are those that the division by a power takes away
  generalize total.log2 - f.fractionBits = k at *
  have hpos : 0 < 2 ^ k := Nat.two_pow_pos _
  have hquotient : total / 2 ^ k = significand := by
    rw [hsignificand, Nat.mul_div_cancel_left _ hpos]
  rw [hquotient, show total * den = significand * (den * 2 ^ k) by rw [hsignificand]; ring,
    halfEven_exact (Nat.mul_pos hden hpos)]

theorem infinity_eq (f : Format) : f.infinity = (2 ^ f.exponentBits - 1) * 2 ^ f.fractionBits := by
  simp only [infinity, Nat.shiftLeft_eq, Nat.one_mul]

/-- A number that the format holds is its own nearest one. -/
theorem nearest_steps {magnitude num den : Nat} (hfinite : magnitude < f.infinity) (hden : 0 < den)
    (h : num * 2 ^ f.depth = f.steps magnitude * den) : f.nearest num den = magnitude := by
  have hsplit := magnitude_eq f magnitude
  have hfraction : magnitude % 2 ^ f.fractionBits < 2 ^ f.fractionBits :=
    Nat.mod_lt _ (Nat.two_pow_pos _)
  cases he : magnitude / 2 ^ f.fractionBits with
  | zero =>
    rw [he] at hsplit
    have hsteps : f.steps magnitude = magnitude := steps_of_exponent_eq_zero (by omega)
    have hk : (f.steps magnitude).log2 - f.fractionBits = 0 := by
      rw [hsteps]
      by_cases hzero : magnitude = 0
      · simp [hzero]
      · have hlog := (Nat.log2_lt hzero).mpr (by omega : magnitude < 2 ^ f.fractionBits)
        omega
    rw [nearest_eq hden h (by simp [hk]), hk, hsteps]
    simp only [Nat.zero_mul, Nat.zero_add, Nat.pow_zero, Nat.div_one]
    exact Nat.min_eq_left hfinite.le
  | succ j =>
    -- the leading bit of the steps gives back the exponent
    rw [he] at hsplit
    have hsteps : f.steps magnitude =
        (magnitude % 2 ^ f.fractionBits + 2 ^ f.fractionBits) * 2 ^ j := by
      conv_lhs => rw [hsplit]
      exact steps_of_exponent hfraction
    have hpos : 0 < 2 ^ j := Nat.two_pow_pos j
    have hne : (magnitude % 2 ^ f.fractionBits + 2 ^ f.fractionBits) * 2 ^ j ≠ 0 :=
      (Nat.mul_pos (by omega) hpos).ne'
    have hlog : (f.steps magnitude).log2 = f.fractionBits + j := by
      rw [hsteps, Nat.log2_eq_iff hne, Nat.pow_succ, Nat.pow_add]
      constructor
      · exact Nat.mul_le_mul_right _ (Nat.le_add_left _ _)
      · calc (magnitude % 2 ^ f.fractionBits + 2 ^ f.fractionBits) * 2 ^ j
            < (2 ^ f.fractionBits * 2) * 2 ^ j := Nat.mul_lt_mul_of_pos_right (by omega) hpos
          _ = 2 ^ f.fractionBits * 2 ^ j * 2 := by ring
    have hk : (f.steps magnitude).log2 - f.fractionBits = j := by rw [hlog, Nat.add_sub_cancel_left]
    rw [nearest_eq hden h (by rw [hk, hsteps]; exact Nat.dvd_mul_left _ _), hk, hsteps,
      Nat.mul_div_cancel _ hpos]
    have hsum : j * 2 ^ f.fractionBits + (magnitude % 2 ^ f.fractionBits + 2 ^ f.fractionBits) =
        magnitude := by
      conv_rhs => rw [hsplit]
      ring
    rw [hsum]
    exact Nat.min_eq_left hfinite.le

/-- The nearest magnitude stands for the number itself, if that ends in zero bits and is not too
great. -/
theorem steps_nearest {num den total : Nat} (hden : 0 < den)
    (h : num * 2 ^ f.depth = total * den) (hdvd : 2 ^ (total.log2 - f.fractionBits) ∣ total)
    (hbound : total.log2 - f.fractionBits + 2 < 2 ^ f.exponentBits) :
    f.nearest num den < f.infinity ∧ f.steps (f.nearest num den) = total := by
  -- read back, the shift is the exponent and the significand the fraction with its leading bit
  have hnearest := nearest_eq hden h hdvd
  obtain ⟨significand, hsignificand⟩ := hdvd
  have hlow : total < 2 ^ (total.log2 + 1) := Nat.lt_log2_self
  have hhigh : f.fractionBits ≤ total.log2 ∨ total.log2 - f.fractionBits = 0 := by omega
  generalize hk : total.log2 - f.fractionBits = k at *
  have hpos : 0 < 2 ^ k := Nat.two_pow_pos k
  have hquotient : total / 2 ^ k = significand := by
    rw [hsignificand, Nat.mul_div_cancel_left _ hpos]
  have hsmall : significand < 2 ^ f.fractionBits * 2 := by
    rw [← Nat.pow_succ]
    refine Nat.lt_of_mul_lt_mul_left (a := 2 ^ k) ?_
    rw [← hsignificand, ← Nat.pow_add]
    exact Nat.lt_of_lt_of_le hlow (Nat.pow_le_pow_right (by decide) (by omega))
  have hfinite : k * 2 ^ f.fractionBits + significand < f.infinity := by
    rw [infinity_eq]
    calc k * 2 ^ f.fractionBits + significand
        < k * 2 ^ f.fractionBits + 2 ^ f.fractionBits * 2 := by omega
      _ = (k + 2) * 2 ^ f.fractionBits := by ring
      _ ≤ _ := Nat.mul_le_mul_right _ (by omega)
  rw [hquotient, Nat.min_eq_left hfinite.le] at hnearest
  rw [hnearest]
  refine ⟨hfinite, ?_⟩
  by_cases hbit : significand < 2 ^ f.fractionBits
  · -- without its leading bit the number lies below the normal range
    have hzero : k = 0 := by
      by_contra hne
      have hleast : 2 ^ total.log2 ≤ total := by
        refine Nat.log2_self_le fun htotal => hne ?_
        rw [htotal] at hk
        simpa using hk.symm
      have hlog : total.log2 = k + f.fractionBits := by omega
      rw [hlog, Nat.pow_add, hsignificand] at hleast
      exact hbit.not_ge (Nat.le_of_mul_le_mul_left hleast hpos)
    subst hzero
    rw [Nat.zero_mul, Nat.zero_add, steps_of_exponent_eq_zero hbit, hsignificand]
    simp
  · -- the leading bit is the hidden one, and counts for one more exponent
    have hnormal : k * 2 ^ f.fractionBits + significand =
        (k + 1) * 2 ^ f.fractionBits + (significand - 2 ^ f.fractionBits) := by
      rw [Nat.add_mul, Nat.one_mul]
      omega
    rw [hnormal, steps_of_exponent (by omega), Nat.sub_add_cancel (by omega), hsignificand,
      Nat.mul_comm]

end Format

variable {f g : Format}

theorem infinity_lt (f : Format) : f.infinity < 2 ^ f.magnitudeBits := by
  rw [Format.infinity_eq, Format.magnitudeBits, Nat.pow_add]
  have hpos : 0 < 2 ^ f.exponentBits := Nat.two_pow_pos _
  exact Nat.mul_lt_mul_of_pos_right (by omega) (Nat.two_pow_pos _)

theorem magnitude_lt (x : Binary f) : x.magnitude < 2 ^ f.magnitudeBits := by
  rw [magnitude, Nat.one_shiftLeft]
  exact Nat.mod_lt _ (Nat.two_pow_pos _)

theorem toNat_bits (x : Binary f) :
    x.bits.toNat = x.magnitude + if x.negative then 2 ^ f.magnitudeBits else 0 := by
  have hlt : x.bits.toNat < 2 ^ f.magnitudeBits * 2 := by
    rw [← Nat.pow_succ]
    exact x.bits.isLt
  have hsign : x.negative = decide (2 ^ f.magnitudeBits ≤ x.bits.toNat) := by
    rw [negative, BitVec.msb_eq_decide]
    rfl
  rw [magnitude, Nat.one_shiftLeft, hsign]
  by_cases h : 2 ^ f.magnitudeBits ≤ x.bits.toNat
  · simp only [h, decide_true, if_true]
    rw [Nat.mod_eq_sub_mod h, Nat.mod_eq_of_lt (by omega)]
    omega
  · simp only [h, decide_false, Bool.false_eq_true, if_false]
    rw [Nat.mod_eq_of_lt (by omega)]
    rfl

/-- A number is its sign and its magnitude. -/
theorem ext_magnitude {x y : Binary f} (hsign : x.negative = y.negative)
    (hmagnitude : x.magnitude = y.magnitude) : x = y := by
  have hbits : x.bits = y.bits := by
    apply BitVec.eq_of_toNat_eq
    rw [toNat_bits, toNat_bits, hsign, hmagnitude]
  cases x
  cases y
  exact congrArg Binary.mk hbits

theorem toNat_ofMagnitude {negative : Bool} {magnitude : Nat}
    (h : magnitude < 2 ^ f.magnitudeBits) :
    (ofMagnitude negative magnitude : Binary f).bits.toNat =
      magnitude + if negative then 2 ^ f.magnitudeBits else 0 := by
  rw [ofMagnitude, BitVec.toNat_ofNat, Nat.one_shiftLeft]
  refine Nat.mod_eq_of_lt ?_
  show _ < 2 ^ (f.magnitudeBits + 1)
  rw [Nat.pow_succ]
  split <;> omega

theorem magnitude_ofMagnitude {negative : Bool} {magnitude : Nat}
    (h : magnitude < 2 ^ f.magnitudeBits) :
    (ofMagnitude negative magnitude : Binary f).magnitude = magnitude := by
  rw [Binary.magnitude, toNat_ofMagnitude h, Nat.one_shiftLeft]
  split
  · rw [Nat.add_mod_right, Nat.mod_eq_of_lt h]
  · exact Nat.mod_eq_of_lt h

theorem negative_ofMagnitude {negative : Bool} {magnitude : Nat}
    (h : magnitude < 2 ^ f.magnitudeBits) :
    (ofMagnitude negative magnitude : Binary f).negative = negative := by
  rw [Binary.negative, BitVec.msb_eq_decide, toNat_ofMagnitude h]
  show decide (2 ^ f.magnitudeBits ≤ _) = negative
  cases negative with
  | true => simp
  | false => simpa using h

theorem convert_of_isFinite {x : Binary f} (h : x.isFinite = true) :
    (x.convert : Binary g) = ofRatio x.negative x.steps (1 <<< f.depth) := by
  have hlt : x.magnitude < f.infinity := by simpa [isFinite] using h
  have hnan : x.isNaN = false := by simpa [isNaN] using hlt.le
  rw [convert, hnan, h]
  rfl

/-- A finite number that the other format holds exactly is converted to itself. -/
theorem convert_exact {x : Binary f} (h : x.isFinite = true) {y : Binary g}
    (hfinite : y.isFinite = true) (hsign : y.negative = x.negative)
    (hsteps : x.steps * 2 ^ g.depth = y.steps * 2 ^ f.depth) : (x.convert : Binary g) = y := by
  have hlt : y.magnitude < g.infinity := by simpa [isFinite] using hfinite
  have hnearest : g.nearest x.steps (1 <<< f.depth) = y.magnitude := by
    rw [Nat.one_shiftLeft]
    exact Format.nearest_steps hlt (Nat.two_pow_pos _) hsteps
  have hbound := Nat.lt_trans hlt (infinity_lt g)
  rw [convert_of_isFinite h, ofRatio, hnearest]
  apply ext_magnitude
  · rw [negative_ofMagnitude hbound, hsign]
  · rw [magnitude_ofMagnitude hbound]

/-- The steps of a finite number are a significand that has been shifted. -/
theorem exists_significand {x : Binary f} (h : x.isFinite = true)
    (hrange : 2 < 2 ^ f.exponentBits) :
    ∃ significand shift, x.steps = significand * 2 ^ shift ∧
      significand < 2 ^ (f.fractionBits + 1) ∧ shift + 2 < 2 ^ f.exponentBits := by
  have hlt : x.magnitude < f.infinity := by simpa [isFinite] using h
  rw [Format.infinity_eq, Nat.mul_comm] at hlt
  have hsplit := Format.magnitude_eq f x.magnitude
  have hfraction : x.magnitude % 2 ^ f.fractionBits < 2 ^ f.fractionBits :=
    Nat.mod_lt _ (Nat.two_pow_pos _)
  have hexponent := Nat.div_lt_of_lt_mul hlt
  rw [Nat.pow_succ]
  cases he : x.magnitude / 2 ^ f.fractionBits with
  | zero =>
    rw [he, Nat.zero_mul, Nat.zero_add] at hsplit
    refine ⟨x.magnitude, 0, ?_, by omega, hrange⟩
    rw [steps, Format.steps_of_exponent_eq_zero (by omega), Nat.pow_zero, Nat.mul_one]
  | succ j =>
    rw [he] at hsplit hexponent
    refine ⟨x.magnitude % 2 ^ f.fractionBits + 2 ^ f.fractionBits, j, ?_, by omega, by omega⟩
    rw [steps]
    conv_lhs => rw [hsplit]
    exact Format.steps_of_exponent hfraction

/-- Every finite number of `f` is one of `g`, whose steps are `2 ^ extra` times as fine. -/
structure Format.Widens (f g : Format) (extra : Nat) : Prop where
  fraction : f.fractionBits ≤ g.fractionBits
  depth : g.depth = extra + f.depth
  exponent : f.exponentBits ≤ g.exponentBits
  range : f.fractionBits + 2 ^ f.exponentBits + extra ≤ g.fractionBits + 2 ^ g.exponentBits

/-- Widening is exact. -/
theorem steps_widen {extra : Nat} (hw : f.Widens g extra) {x : Binary f} (h : x.isFinite = true)
    (hrange : 2 < 2 ^ f.exponentBits) :
    (x.convert : Binary g).isFinite = true ∧ (x.convert : Binary g).negative = x.negative ∧
      (x.convert : Binary g).steps = x.steps * 2 ^ extra := by
  obtain ⟨significand, shift, hsteps, hsignificand, hshift⟩ := exists_significand h hrange
  have hexponent : 2 ^ f.exponentBits ≤ 2 ^ g.exponentBits :=
    Nat.pow_le_pow_right (by decide) hw.exponent
  have hfraction := hw.fraction
  have hhigh := hw.range
  have htotal : x.steps * 2 ^ extra = significand * 2 ^ (shift + extra) := by
    rw [hsteps, Nat.mul_assoc, ← Nat.pow_add]
  have hlog : (x.steps * 2 ^ extra).log2 ≤ f.fractionBits + (shift + extra) := by
    by_cases hzero : x.steps * 2 ^ extra = 0
    · rw [hzero]
      exact Nat.zero_le _
    · refine Nat.le_of_lt_succ ((Nat.log2_lt hzero).mpr ?_)
      calc x.steps * 2 ^ extra = significand * 2 ^ (shift + extra) := htotal
        _ < 2 ^ (f.fractionBits + 1) * 2 ^ (shift + extra) :=
            Nat.mul_lt_mul_of_pos_right hsignificand (Nat.two_pow_pos _)
        _ = 2 ^ (f.fractionBits + (shift + extra) + 1) := by
            rw [← Nat.pow_add]
            congr 1
            omega
  have hdvd : 2 ^ ((x.steps * 2 ^ extra).log2 - g.fractionBits) ∣ x.steps * 2 ^ extra := by
    refine Nat.dvd_trans (Nat.pow_dvd_pow 2 (?_ : _ ≤ shift + extra)) ?_
    · omega
    · rw [htotal]
      exact Nat.dvd_mul_left _ _
  have hscaled : x.steps * 2 ^ g.depth = (x.steps * 2 ^ extra) * 2 ^ f.depth := by
    rw [hw.depth, Nat.pow_add, Nat.mul_assoc]
  obtain ⟨hfinite, hnearest⟩ :=
    Format.steps_nearest (Nat.two_pow_pos _) hscaled hdvd (by omega)
  have hmagnitude := Nat.lt_trans hfinite (infinity_lt g)
  rw [convert_of_isFinite h, ofRatio, Nat.one_shiftLeft]
  refine ⟨?_, negative_ofMagnitude hmagnitude, ?_⟩
  · rw [isFinite, magnitude_ofMagnitude hmagnitude]
    simpa using hfinite
  · rw [steps, magnitude_ofMagnitude hmagnitude, hnearest]

/-- Narrowing undoes widening. -/
theorem narrow_widen_of_isFinite {extra : Nat} (hw : f.Widens g extra) {x : Binary f}
    (h : x.isFinite = true) (hrange : 2 < 2 ^ f.exponentBits) :
    ((x.convert : Binary g).convert : Binary f) = x := by
  obtain ⟨hfinite, hsign, hsteps⟩ := steps_widen hw h hrange
  refine convert_exact hfinite h hsign.symm ?_
  rw [hsteps, hw.depth, Nat.pow_add, Nat.mul_assoc]

/-- What a NaN keeps of its fraction when it is widened and narrowed again. -/
theorem narrowed_fraction (hwider : f.fractionBits ≤ g.fractionBits) (hbits : 0 < f.fractionBits)
    (fraction : Nat) :
    (((fraction <<< g.fractionBits) >>> f.fractionBits ||| quietBit g) <<< f.fractionBits) >>>
      g.fractionBits = fraction ||| quietBit f := by
  -- bit by bit: moved up by the difference in width and down by it again
  apply Nat.eq_of_testBit_eq
  intro i
  have hshift : g.fractionBits + i ≥ f.fractionBits := by omega
  have hback : f.fractionBits + (g.fractionBits + i - f.fractionBits) - g.fractionBits = i := by
    omega
  have hquiet : (g.fractionBits - 1 = g.fractionBits + i - f.fractionBits) ↔
      f.fractionBits - 1 = i := by omega
  have hhigh : f.fractionBits + (g.fractionBits + i - f.fractionBits) ≥ g.fractionBits := by omega
  simp only [quietBit, Nat.one_shiftLeft, Nat.testBit_shiftRight, Nat.testBit_shiftLeft,
    Nat.testBit_or, Nat.testBit_two_pow, hshift, hback, hquiet, hhigh, decide_true, Bool.true_and]

/-- The bits of a magnitude that is not finite. -/
theorem infinity_or {fraction : Nat} (h : fraction < 2 ^ f.fractionBits) :
    f.infinity ||| fraction = f.infinity + fraction := by
  rw [Format.infinity]
  exact (Nat.shiftLeft_add_eq_or_of_lt h _).symm

theorem magnitude_of_isNaN {x : Binary f} (h : x.isNaN = true) :
    x.magnitude = f.infinity ||| x.magnitude % 2 ^ f.fractionBits := by
  have hlt : f.infinity < x.magnitude := by simpa [isNaN] using h
  have hbound := magnitude_lt x
  rw [Format.infinity_eq, Nat.sub_mul] at hlt
  rw [Format.magnitudeBits, Nat.pow_add] at hbound
  have hpos : 0 < 2 ^ f.exponentBits := Nat.two_pow_pos _
  -- nothing above infinity has another exponent
  have hexponent : x.magnitude / 2 ^ f.fractionBits = 2 ^ f.exponentBits - 1 := by
    apply Nat.div_eq_of_lt_le
    · rw [Nat.sub_mul]
      exact hlt.le
    · rwa [Nat.sub_add_cancel hpos]
  rw [infinity_or (Nat.mod_lt _ (Nat.two_pow_pos _)), Format.infinity_eq, ← hexponent]
  exact Format.magnitude_eq f x.magnitude

theorem quietBit_lt (hbits : 0 < f.fractionBits) : quietBit f < 2 ^ f.fractionBits := by
  rw [quietBit, Nat.one_shiftLeft]
  exact Nat.pow_lt_pow_right (by decide) (by omega)

theorem quietBit_pos (f : Format) : 0 < quietBit f := by
  rw [quietBit, Nat.one_shiftLeft]
  exact Nat.two_pow_pos _

/-- A quiet magnitude is that of a NaN. -/
theorem quiet_magnitude (hbits : 0 < f.fractionBits) {fraction : Nat}
    (h : fraction < 2 ^ f.fractionBits) :
    f.infinity < (f.infinity ||| (fraction ||| quietBit f)) ∧
      (f.infinity ||| (fraction ||| quietBit f)) < 2 ^ f.magnitudeBits ∧
        (f.infinity ||| (fraction ||| quietBit f)) % 2 ^ f.fractionBits =
          fraction ||| quietBit f := by
  have hfraction : fraction ||| quietBit f < 2 ^ f.fractionBits :=
    Nat.or_lt_two_pow h (quietBit_lt hbits)
  have hpos : 0 < fraction ||| quietBit f := Nat.lt_of_lt_of_le (quietBit_pos f) Nat.right_le_or
  rw [infinity_or hfraction, Format.infinity_eq]
  refine ⟨by omega, ?_, ?_⟩
  · have hexponent : 0 < 2 ^ f.exponentBits := Nat.two_pow_pos _
    rw [Format.magnitudeBits, Nat.pow_add]
    calc (2 ^ f.exponentBits - 1) * 2 ^ f.fractionBits + (fraction ||| quietBit f)
        < (2 ^ f.exponentBits - 1) * 2 ^ f.fractionBits + 2 ^ f.fractionBits := by omega
      _ = (2 ^ f.exponentBits - 1 + 1) * 2 ^ f.fractionBits := by ring
      _ = _ := by rw [Nat.sub_add_cancel hexponent]
  · rw [Nat.mul_comm, Nat.mul_add_mod, Nat.mod_eq_of_lt hfraction]

theorem convert_of_isNaN {x : Binary f} (h : x.isNaN = true) :
    (x.convert : Binary g) = ofMagnitude x.negative (g.infinity |||
      (((x.magnitude % 2 ^ f.fractionBits) <<< g.fractionBits) >>> f.fractionBits |||
        quietBit g)) := by
  simp only [convert, h, if_true, Nat.one_shiftLeft, Nat.or_assoc]

theorem moved_lt {fraction : Nat} (h : fraction < 2 ^ f.fractionBits) (g : Format) :
    (fraction <<< g.fractionBits) >>> f.fractionBits < 2 ^ g.fractionBits := by
  rw [Nat.shiftLeft_eq, Nat.shiftRight_eq_div_pow]
  apply Nat.div_lt_of_lt_mul
  exact Nat.mul_lt_mul_of_pos_right h (Nat.two_pow_pos _)

/-- A NaN is widened to a quiet one, and narrowed to the quiet one of its own bits. -/
theorem narrow_widen_of_isNaN (hwider : f.fractionBits ≤ g.fractionBits)
    (hbits : 0 < f.fractionBits) {x : Binary f} (h : x.isNaN = true) :
    (x.convert : Binary g).isNaN = true ∧
      ((x.convert : Binary g).convert : Binary f) = x.quieten := by
  have hfraction : x.magnitude % 2 ^ f.fractionBits < 2 ^ f.fractionBits :=
    Nat.mod_lt _ (Nat.two_pow_pos _)
  obtain ⟨hnan, hbound, hrest⟩ :=
    quiet_magnitude (f := g) (by omega : 0 < g.fractionBits) (moved_lt hfraction g)
  have hwide : (x.convert : Binary g).isNaN = true := by
    rw [isNaN, convert_of_isNaN h, magnitude_ofMagnitude hbound]
    simpa using hnan
  refine ⟨hwide, ?_⟩
  rw [convert_of_isNaN hwide, convert_of_isNaN h, negative_ofMagnitude hbound,
    magnitude_ofMagnitude hbound, hrest, narrowed_fraction hwider hbits, Nat.or_assoc, Nat.or_self,
    ← Nat.or_assoc, ← magnitude_of_isNaN h]
  rfl

theorem moved_quietBit (hwider : f.fractionBits ≤ g.fractionBits) (hbits : 0 < f.fractionBits) :
    (quietBit f <<< g.fractionBits) >>> f.fractionBits = quietBit g := by
  rw [quietBit, quietBit, Nat.one_shiftLeft, Nat.one_shiftLeft, Nat.shiftLeft_eq,
    Nat.shiftRight_eq_div_pow, ← Nat.pow_add, Nat.pow_div (by omega) (by decide)]
  congr 1
  omega

/-- Setting the quiet bit of a NaN makes no difference to what it is widened to. -/
theorem widen_quieten (hwider : f.fractionBits ≤ g.fractionBits) (hbits : 0 < f.fractionBits)
    {x : Binary f} (h : x.isNaN = true) :
    x.quieten.isNaN = true ∧ (x.quieten.convert : Binary g) = x.convert := by
  have hfraction : x.magnitude % 2 ^ f.fractionBits < 2 ^ f.fractionBits :=
    Nat.mod_lt _ (Nat.two_pow_pos _)
  obtain ⟨hnan, hbound, hrest⟩ := quiet_magnitude hbits hfraction
  have hmagnitude : x.magnitude ||| quietBit f =
      f.infinity ||| (x.magnitude % 2 ^ f.fractionBits ||| quietBit f) := by
    conv_lhs => rw [magnitude_of_isNaN h]
    rw [Nat.or_assoc]
  have hquiet : x.quieten.isNaN = true := by
    rw [isNaN, quieten, hmagnitude, magnitude_ofMagnitude hbound]
    simpa using hnan
  refine ⟨hquiet, ?_⟩
  rw [convert_of_isNaN hquiet, convert_of_isNaN h, quieten, hmagnitude, negative_ofMagnitude hbound,
    magnitude_ofMagnitude hbound, hrest, Nat.shiftLeft_or_distrib, Nat.shiftRight_or_distrib,
    moved_quietBit hwider hbits, Nat.or_assoc, Nat.or_self]

/-- Infinities are converted to each other. -/
theorem convert_infinity (negative : Bool) :
    (infinity negative : Binary f).convert = (infinity negative : Binary g) := by
  have hbound := infinity_lt f
  have hmagnitude : (infinity negative : Binary f).magnitude = f.infinity :=
    magnitude_ofMagnitude hbound
  have hsign : (infinity negative : Binary f).negative = negative := negative_ofMagnitude hbound
  simp only [convert, isNaN, isFinite, hmagnitude, hsign, Nat.lt_irrefl, decide_false,
    Bool.false_eq_true, if_false]

theorem eq_infinity {x : Binary f} (hnan : x.isNaN = false) (hfinite : x.isFinite = false) :
    x = infinity x.negative := by
  have hmagnitude : x.magnitude = f.infinity := by
    simp only [isNaN, isFinite, decide_eq_false_iff_not] at hnan hfinite
    omega
  apply ext_magnitude
  · exact (negative_ofMagnitude (infinity_lt f)).symm
  · rw [infinity, magnitude_ofMagnitude (infinity_lt f), hmagnitude]

theorem single_widens : Format.single.Widens .double 925 := ⟨by decide, rfl, by decide, by decide⟩

/-- A number of 32 bits comes back as it was, a NaN as the quiet one of its bits. -/
theorem narrow_widen (x : Binary .single) :
    ((x.convert : Binary .double).convert : Binary .single) =
      if x.isNaN then x.quieten else x := by
  cases hnan : x.isNaN with
  | true => exact (narrow_widen_of_isNaN single_widens.fraction (by decide) hnan).2
  | false =>
    cases hfinite : x.isFinite with
    | true => exact narrow_widen_of_isFinite single_widens hfinite (by decide)
    | false =>
      rw [eq_infinity hnan hfinite, convert_infinity, convert_infinity]
      rfl

end FlowGraph.Binary

namespace FlowGraph

open Binary

/-- No number of 32 bits is out of the range of its format once it has been widened. -/
theorem Archive.Value.asSingle_ofSingle (x : Binary .single) :
    (Archive.Value.ofSingle x).asSingle = .ok (if x.isNaN then x.quieten else x) := by
  have hrange : ((x.convert : Binary .double).isFinite &&
      decide (greatestSingle.magnitude < (x.convert : Binary .double).magnitude)) = false := by
    rw [Bool.and_eq_false_iff]
    cases hfinite : x.isFinite with
    | true =>
      right
      rw [decide_eq_false_iff_not]
      intro hlt
      have hmost : Format.single.infinity - 1 < 2 ^ Format.single.magnitudeBits := by decide
      have hgreatest : (ofMagnitude false (Format.single.infinity - 1) : Binary .single).isFinite =
          true := by decide
      -- in steps the comparison is one of 32 bits, where the greatest is the greatest
      have hsteps := Format.steps_lt (f := .double) hlt
      have hwide := (steps_widen single_widens hfinite (by decide)).2.2
      have hmostWide := (steps_widen single_widens hgreatest (by decide)).2.2
      rw [steps, steps] at hwide hmostWide
      rw [greatestSingle, hwide, hmostWide] at hsteps
      have hless := Nat.lt_of_mul_lt_mul_right hsteps
      rw [magnitude_ofMagnitude hmost] at hless
      have hmagnitude : x.magnitude < Format.single.infinity := by simpa [isFinite] using hfinite
      rcases Nat.lt_or_eq_of_le (Nat.le_sub_one_of_lt hmagnitude) with hbelow | heq
      · exact (Format.steps_lt hbelow).asymm hless
      · rw [heq] at hless
        exact Nat.lt_irrefl _ hless
    | false =>
      left
      cases hnan : x.isNaN with
      | true =>
        have hwide := (narrow_widen_of_isNaN single_widens.fraction (by decide) hnan).1
        simp only [isNaN, isFinite, decide_eq_true_eq, decide_eq_false_iff_not] at hwide ⊢
        omega
      | false =>
        rw [eq_infinity hnan hfinite, convert_infinity]
        cases x.negative <;> decide
  rw [← narrow_widen x]
  refine if_neg ?_
  rw [hrange]
  exact Bool.false_ne_true

end FlowGraph
