import FlowGraph.Proofs.Storing

/-! Values that storing leaves as they are: all but the NaNs of 32 bits that are not quiet. Nothing
that is read from an archive or computed is one of these. -/
namespace FlowGraph

namespace Binary

variable {f g : Format}

/-- The number is no NaN or a quiet one. -/
def Quiet (x : Binary f) : Prop := x.isNaN = true → x.quieten = x

theorem quiet_ofMagnitude_of_le (negative : Bool) {magnitude : Nat} (h : magnitude ≤ f.infinity) :
    (ofMagnitude negative magnitude : Binary f).Quiet := by
  intro hnan
  have hbound : magnitude < 2 ^ f.magnitudeBits := h.trans_lt (infinity_lt f)
  rw [isNaN, magnitude_ofMagnitude hbound, decide_eq_true_eq] at hnan
  exact absurd h hnan.not_ge

theorem quiet_ofMagnitude_of_quietBit (hbits : 0 < f.fractionBits) (negative : Bool)
    {fraction : Nat} (h : fraction < 2 ^ f.fractionBits) :
    (ofMagnitude negative (f.infinity ||| (fraction ||| quietBit f)) : Binary f).Quiet := by
  intro _
  obtain ⟨-, hbound, -⟩ := quiet_magnitude hbits h
  rw [quieten, magnitude_ofMagnitude hbound, negative_ofMagnitude hbound, Nat.or_assoc,
    Nat.or_assoc, Nat.or_self]

theorem quiet_quieten (hbits : 0 < f.fractionBits) {x : Binary f} (h : x.isNaN = true) :
    x.quieten.Quiet := by
  have hfraction : x.magnitude % 2 ^ f.fractionBits < 2 ^ f.fractionBits :=
    Nat.mod_lt _ (Nat.two_pow_pos _)
  have hquiet := quiet_ofMagnitude_of_quietBit hbits x.negative hfraction
  rw [← Nat.or_assoc, ← magnitude_of_isNaN h] at hquiet
  exact hquiet

theorem quiet_infinity (negative : Bool) : (infinity negative : Binary f).Quiet :=
  quiet_ofMagnitude_of_le negative le_rfl

theorem quiet_ofRatio (negative : Bool) (num den : Nat) :
    (ofRatio negative num den : Binary f).Quiet :=
  quiet_ofMagnitude_of_le negative (Nat.min_le_right _ _)

theorem quiet_undefined (hbits : 0 < f.fractionBits) : (undefined : Binary f).Quiet := by
  have hquiet := quiet_ofMagnitude_of_quietBit hbits true (Nat.two_pow_pos f.fractionBits)
  rwa [Nat.zero_or] at hquiet

theorem quiet_convert (hbits : 0 < g.fractionBits) (x : Binary f) :
    (x.convert : Binary g).Quiet := by
  cases hnan : x.isNaN with
  | true =>
    have hfraction : x.magnitude % 2 ^ f.fractionBits < 2 ^ f.fractionBits :=
      Nat.mod_lt _ (Nat.two_pow_pos _)
    rw [convert_of_isNaN hnan]
    exact quiet_ofMagnitude_of_quietBit hbits _ (moved_lt hfraction g)
  | false =>
    rw [convert, hnan, if_neg Bool.false_ne_true]
    split
    · exact quiet_ofRatio _ _ _
    · exact quiet_infinity _

theorem quiet_orNaN (hbits : 0 < f.fractionBits) {x y result : Binary f}
    (h : x.isNaN = false → y.isNaN = false → result.Quiet) : (orNaN x y result).Quiet := by
  unfold orNaN
  split
  case isTrue hx => exact quiet_quieten hbits hx
  case isFalse hx =>
    split
    case isTrue hy => exact quiet_quieten hbits hy
    case isFalse hy => exact h (eq_false_of_ne_true hx) (eq_false_of_ne_true hy)

theorem quiet_sum (hbits : 0 < f.fractionBits) {x y : Binary f} (hx : x.Quiet) (hy : y.Quiet) :
    (sum x y).Quiet := by
  unfold sum
  split
  case isTrue => exact quiet_ofRatio _ _ _
  case isFalse =>
    split
    case isTrue => exact hy
    case isFalse =>
      split
      case isTrue => exact hx
      case isFalse => exact quiet_undefined hbits

theorem quiet_negate {x : Binary f} (h : x.isNaN = false) : x.negate.Quiet := by
  rw [isNaN, decide_eq_false_iff_not, Nat.not_lt] at h
  exact quiet_ofMagnitude_of_le _ h

theorem quiet_of_isNaN_eq_false {x : Binary f} (h : x.isNaN = false) : x.Quiet := by
  intro hnan
  rw [h] at hnan
  cases hnan

theorem quiet_mul (hbits : 0 < f.fractionBits) (x y : Binary f) : (x.mul y).Quiet := by
  refine quiet_orNaN hbits fun _ _ => ?_
  split
  case isTrue => exact quiet_ofRatio _ _ _
  case isFalse =>
    split
    case isTrue => exact quiet_undefined hbits
    case isFalse => exact quiet_infinity _

theorem quiet_div (hbits : 0 < f.fractionBits) (x y : Binary f) : (x.div y).Quiet := by
  refine quiet_orNaN hbits fun _ _ => ?_
  split
  case isTrue =>
    -- by an infinity
    split
    case isTrue => exact quiet_ofMagnitude_of_le _ (Nat.zero_le _)
    case isFalse => exact quiet_undefined hbits
  case isFalse =>
    split
    case isTrue => exact quiet_infinity _
    case isFalse =>
      split
      case isTrue =>
        -- by zero
        split
        case isTrue => exact quiet_undefined hbits
        case isFalse => exact quiet_infinity _
      case isFalse => exact quiet_ofRatio _ _ _

end Binary

open Binary

/-- The result of an operation is quiet whatever its operands are. -/
theorem Operation.quiet_applyBinary {f : Format} (hbits : 0 < f.fractionBits) (op : Operation)
    (x y : Binary f) : (op.applyBinary x y).Quiet := by
  cases op with
  | add =>
    refine quiet_orNaN hbits fun hx hy => ?_
    exact quiet_sum hbits (quiet_of_isNaN_eq_false hx) (quiet_of_isNaN_eq_false hy)
  | subtract =>
    refine quiet_orNaN hbits fun hx hy => ?_
    exact quiet_sum hbits (quiet_of_isNaN_eq_false hx) (quiet_negate hy)
  | multiply => exact quiet_mul hbits x y
  | divide => exact quiet_div hbits x y

namespace ElementType

theorem persisted_of_quiet {x : Binary .single} (h : x.Quiet) :
    ElementType.float.persisted x = x := by
  show (if x.isNaN then x.quieten else x) = x
  split
  case isTrue hnan => exact h hnan
  case isFalse => rfl

/-- What is read from an archive is stored and read again as it is. -/
theorem persisted_of_ofStored {t : ElementType} {v : t.Value} {w : Archive.Value}
    (h : t.ofStored w = .ok v) : t.persisted v = v := by
  cases t with
  | float =>
    obtain ⟨x, -, hx⟩ := bind_ok.mp h
    split at hx
    case isTrue => cases hx
    case isFalse =>
      obtain rfl := Except.ok.inj hx
      exact persisted_of_quiet (quiet_convert (by decide) x)
  | _ => rfl

/-- So is what an operation comes to. -/
theorem persisted_of_apply {t : ElementType} {op : Operation} {x y v : t.Value}
    (h : op.apply t x y = some v) : t.persisted v = v := by
  cases t with
  | float =>
    obtain rfl := Option.some.inj h
    exact persisted_of_quiet (op.quiet_applyBinary (by decide) x y)
  | _ => rfl

end ElementType

end FlowGraph
