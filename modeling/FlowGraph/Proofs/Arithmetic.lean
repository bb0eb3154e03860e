import Mathlib
import FlowGraph.Element.Operation

/-! The results of operations said on numbers: words stand for integers, and every result of a float
operation is defined. -/
namespace FlowGraph.Operation

/-- Arithmetic on words that stand for integers, `least` being the least of them. What leaves the
range is brought back by `wrap`; a quotient drops its fraction, and one that does not fit is
undefined, as is any by zero. -/
def onWords? {α : Type} (least : Int) (wrap : Int → α) (op : Operation) (x y : Int) : Option α :=
  match op with
  | add => some (wrap (x + y))
  | subtract => some (wrap (x - y))
  | multiply => some (wrap (x * y))
  | divide => if y = 0 ∨ (x = least ∧ y = -1) then none else some (wrap (x.tdiv y))

/-- The result of an operation on two elements, if it has one. -/
def meaning? (op : Operation) : (t : ElementType) → t.Value → t.Value → Option t.Value
  | .bool, _, _ => none
  | .int, x, y => op.onWords? (-2 ^ 31) Int32.ofInt (x : Int32).toInt (y : Int32).toInt
  | .int64, x, y => op.onWords? (-2 ^ 63) Int64.ofInt (x : Int64).toInt (y : Int64).toInt
  | .float, x, y => some (op.applyBinary (f := .single) x y)
  | .double, x, y => some (op.applyBinary (f := .double) x y)

theorem applyInt32_eq (op : Operation) (x y : Int32) :
    op.applyInt32 x y = op.onWords? (-2 ^ 31) Int32.ofInt x.toInt y.toInt := by
  cases op with
  | add => simp [applyInt32, onWords?]
  | subtract => simp [applyInt32, onWords?]
  | multiply => simp [applyInt32, onWords?]
  | divide =>
    have hzero : y = 0 ↔ y.toInt = 0 := by rw [← Int32.toInt_inj]; rfl
    have hone : y = -1 ↔ y.toInt = -1 := by rw [← Int32.toInt_inj]; rfl
    have hleast : x = Int32.minValue ↔ x.toInt = -2 ^ 31 := by rw [← Int32.toInt_inj]; rfl
    have hquotient : Int32.ofInt (x.toInt.tdiv y.toInt) = x / y :=
      (Int32.ofInt_eq_iff_bmod_eq_toInt _ _).mpr (Int32.toInt_div x y).symm
    simp only [applyInt32, onWords?, hzero, hone, hleast, hquotient]

theorem applyInt64_eq (op : Operation) (x y : Int64) :
    op.applyInt64 x y = op.onWords? (-2 ^ 63) Int64.ofInt x.toInt y.toInt := by
  cases op with
  | add => simp [applyInt64, onWords?]
  | subtract => simp [applyInt64, onWords?]
  | multiply => simp [applyInt64, onWords?]
  | divide =>
    have hzero : y = 0 ↔ y.toInt = 0 := by rw [← Int64.toInt_inj]; rfl
    have hone : y = -1 ↔ y.toInt = -1 := by rw [← Int64.toInt_inj]; rfl
    have hleast : x = Int64.minValue ↔ x.toInt = -2 ^ 63 := by rw [← Int64.toInt_inj]; rfl
    have hquotient : Int64.ofInt (x.toInt.tdiv y.toInt) = x / y :=
      (Int64.ofInt_eq_iff_bmod_eq_toInt _ _).mpr (Int64.toInt_div x y).symm
    simp only [applyInt64, onWords?, hzero, hone, hleast, hquotient]

theorem apply_eq_meaning (op : Operation) (t : ElementType) (x y : t.Value) :
    op.apply t x y = op.meaning? t x y := by
  cases t with
  | bool => rfl
  | int => exact applyInt32_eq op x y
  | int64 => exact applyInt64_eq op x y
  | float => rfl
  | double => rfl

end FlowGraph.Operation
