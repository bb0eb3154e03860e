import FlowGraph.Archive.Shape
import FlowGraph.Proofs.Storing

/-! Values of every type come back from an archive as they were written. Of integers and lists it is
also said what can be read as one, and how all else is refused. -/
namespace FlowGraph.Archive

/-- The number that an integer of either sign holds. -/
def Value.integer? : Value → Option Int
  | .int n => some n.toInt
  | .uint n => some n.toNat
  | _ => none

/-- What a value is after it has been written and read: the same, but that a NaN of 32 bits is
quiet. -/
def Shape.persisted : (s : Shape) → s.Carrier → s.Carrier
  | .single, x => ElementType.float.persisted x
  | .list item, items => items.map item.persisted
  | .bool, b => b
  | .int32, n => n
  | .int64, n => n
  | .uint32, n => n
  | .uint64, n => n
  | .size, n => n
  | .double, x => x
  | .string, s => s
  | .archive, a => a

/-- The reader takes the integers from `least` to `greatest`, and each as the number that it is.
Other integers are out of its range, and what is no integer is of the wrong type. -/
structure ReadsIntegers {α : Type} (read : Value → Except Error α) (number : α → Int)
    (least greatest : Int) : Prop where
  range : ∀ n, (∃ x, number x = n) ↔ least ≤ n ∧ n ≤ greatest
  ok : ∀ v x, read v = .ok x ↔ v.integer? = some (number x)
  outOfRange : ∀ v text, (∃ target, read v = .error (.outOfRange target text)) ↔
    ∃ n, v.integer? = some n ∧ ¬(least ≤ n ∧ n ≤ greatest) ∧ text = toString n
  wrongType : ∀ v, (∃ expected, read v = .error (.wrongType expected v.kind)) ↔ v.integer? = none

namespace ReadsIntegers

variable {α β : Type} {read : Value → Except Error α} {number : α → Int} {least greatest : Int}

/-- The three ways to read a value leave each other out, so it is enough to find one for each
value. -/
theorem of_cases (hrange : ∀ n, (∃ x, number x = n) ↔ least ≤ n ∧ n ≤ greatest)
    (hinj : Function.Injective number)
    (hinteger : ∀ v n, v.integer? = some n → (∃ x, read v = .ok x ∧ number x = n) ∨
      (¬(least ≤ n ∧ n ≤ greatest) ∧ ∃ target, read v = .error (.outOfRange target (toString n))))
    (hother : ∀ v, v.integer? = none → ∃ expected, read v = .error (.wrongType expected v.kind)) :
    ReadsIntegers read number least greatest := by
  have hcases : ∀ v, (∃ x, read v = .ok x ∧ v.integer? = some (number x)) ∨
      (∃ n target, read v = .error (.outOfRange target (toString n)) ∧ v.integer? = some n ∧
        ¬(least ≤ n ∧ n ≤ greatest)) ∨
      (∃ expected, read v = .error (.wrongType expected v.kind) ∧ v.integer? = none) := by
    intro v
    cases hv : v.integer? with
    | none =>
      obtain ⟨expected, hread⟩ := hother v hv
      exact .inr (.inr ⟨expected, hread, rfl⟩)
    | some n =>
      rcases hinteger v n hv with ⟨x, hread, rfl⟩ | ⟨hout, target, hread⟩
      · exact .inl ⟨x, hread, rfl⟩
      · exact .inr (.inl ⟨n, target, hread, rfl, hout⟩)
  refine ⟨hrange, fun v x => ?_, fun v text => ?_, fun v => ?_⟩ <;>
    rcases hcases v with ⟨y, hread, hv⟩ | ⟨n, target, hread, hv, hout⟩ | ⟨expected, hread, hv⟩ <;>
    simp only [hread, hv, Except.ok.injEq, Except.error.injEq, Error.outOfRange.injEq,
      Error.wrongType.injEq, Option.some.injEq, reduceCtorEq, exists_eq_left', and_true,
      exists_eq', false_and, exists_false, iff_self]
  case refine_1.inl => exact hinj.eq_iff.symm
  case refine_1.inr.inl =>
    -- no number that is out of range is one of the type
    exact iff_of_false not_false fun h => hout ((hrange n).mp ⟨x, h.symm⟩)
  case refine_2.inl => exact iff_of_false not_false fun h => h.1 ((hrange _).mp ⟨y, rfl⟩)
  case refine_2.inr.inl => exact ⟨fun h => ⟨hout, h.symm⟩, fun h => h.2.symm⟩

/-- Reading a smaller range through a larger one. -/
theorem narrow (h : ReadsIntegers read number least greatest) {narrowed : Value → Except Error β}
    {number' : β → Int} {least' greatest' : Int} (hleast : least ≤ least')
    (hgreatest : greatest' ≤ greatest)
    (hrange : ∀ n, (∃ x, number' x = n) ↔ least' ≤ n ∧ n ≤ greatest')
    (hinj : Function.Injective number')
    (hok : ∀ v x, read v = .ok x → (∃ y, narrowed v = .ok y ∧ number' y = number x) ∨
      (¬(least' ≤ number x ∧ number x ≤ greatest') ∧
        ∃ target, narrowed v = .error (.outOfRange target (toString (number x)))))
    (herror : ∀ v e, read v = .error e → narrowed v = .error e) :
    ReadsIntegers narrowed number' least' greatest' := by
  refine of_cases hrange hinj (fun v n hv => ?_) fun v hv => ?_
  · by_cases hn : least ≤ n ∧ n ≤ greatest
    · obtain ⟨x, rfl⟩ := (h.range n).mpr hn
      exact hok v x ((h.ok v x).mpr hv)
    · obtain ⟨target, hread⟩ := (h.outOfRange v (toString n)).mpr ⟨n, hv, hn, rfl⟩
      exact .inr ⟨by omega, target, herror v _ hread⟩
  · obtain ⟨expected, hread⟩ := (h.wrongType v).mpr hv
    exact ⟨expected, herror v _ hread⟩

end ReadsIntegers

namespace Value

theorem asInt64_reads : ReadsIntegers asInt64 Int64.toInt (-2 ^ 63) (2 ^ 63 - 1) := by
  refine .of_cases (fun n => ⟨?_, fun hn => ?_⟩) (fun x y h => Int64.toInt_inj.mp h)
    (fun v n hv => ?_) fun v hv => ?_
  · rintro ⟨x, rfl⟩
    exact ⟨x.le_toInt, Int.le_sub_one_of_lt x.toInt_lt⟩
  · exact ⟨Int64.ofInt n, Int64.toInt_ofInt_of_le hn.1 (by omega)⟩
  · cases v <;> simp only [integer?, reduceCtorEq, Option.some.injEq] at hv
    case int k => exact .inl ⟨k, rfl, hv⟩
    case uint k =>
      subst hv
      by_cases hk : (k.toNat : Int) ≤ Int64.maxValue.toInt
      · have hmax : Int64.maxValue.toInt = 2 ^ 63 - 1 := rfl
        exact .inl ⟨Int64.ofInt k.toNat, if_pos hk, Int64.toInt_ofInt_of_le (by omega) (by omega)⟩
      · exact .inr ⟨fun hn => hk hn.2, "i64", if_neg hk⟩
  · cases v <;> simp only [integer?, reduceCtorEq] at hv <;> exact ⟨.int, rfl⟩

theorem asUInt64_reads :
    ReadsIntegers asUInt64 (fun x : UInt64 => (x.toNat : Int)) 0 (2 ^ 64 - 1) := by
  have hword : ∀ n : Int, 0 ≤ n → n ≤ 2 ^ 64 - 1 → ((UInt64.ofNat n.toNat).toNat : Int) = n := by
    intro n hlow hhigh
    rw [UInt64.toNat_ofNat', Nat.mod_eq_of_lt (by omega)]
    omega
  refine .of_cases (fun n => ⟨?_, fun hn => ⟨_, hword n hn.1 hn.2⟩⟩)
    (fun x y h => UInt64.toNat_inj.mp (Int.ofNat.inj h)) (fun v n hv => ?_) fun v hv => ?_
  · rintro ⟨x, rfl⟩
    have hlt := x.toNat_lt
    omega
  · cases v <;> simp only [integer?, reduceCtorEq, Option.some.injEq] at hv
    case uint k => exact .inl ⟨k, rfl, hv⟩
    case int k =>
      subst hv
      by_cases hk : 0 ≤ k.toInt
      · have hlt := k.toInt_lt
        exact .inl ⟨UInt64.ofNat k.toInt.toNat, if_pos hk, hword _ hk (by omega)⟩
      · exact .inr ⟨fun hn => hk hn.1, "u64", if_neg hk⟩
  · cases v <;> simp only [integer?, reduceCtorEq] at hv <;> exact ⟨.uint, rfl⟩

theorem asInt32_reads : ReadsIntegers asInt32 Int32.toInt (-2 ^ 31) (2 ^ 31 - 1) := by
  have hleast : Int32.minValue.toInt = -2 ^ 31 := rfl
  have hgreatest : Int32.maxValue.toInt = 2 ^ 31 - 1 := rfl
  have hword : ∀ n : Int, -2 ^ 31 ≤ n ∧ n ≤ 2 ^ 31 - 1 → (Int32.ofInt n).toInt = n :=
    fun n hn => Int32.toInt_ofInt_of_le hn.1 (by omega)
  refine asInt64_reads.narrow (by decide) (by decide) (fun n => ⟨?_, fun hn => ⟨_, hword n hn⟩⟩)
    (fun x y h => Int32.toInt_inj.mp h) (fun v x hread => ?_) fun v e hread => ?_
  · rintro ⟨x, rfl⟩
    exact ⟨x.le_toInt, Int.le_sub_one_of_lt x.toInt_lt⟩
  · rw [asInt32, hread, hleast, hgreatest]
    by_cases hx : -2 ^ 31 ≤ x.toInt ∧ x.toInt ≤ 2 ^ 31 - 1
    · exact .inl ⟨_, if_pos hx, hword _ hx⟩
    · exact .inr ⟨hx, "i32", if_neg hx⟩
  · rw [asInt32, hread]
    rfl

theorem asUInt32_reads :
    ReadsIntegers asUInt32 (fun x : UInt32 => (x.toNat : Int)) 0 (2 ^ 32 - 1) := by
  have hword : ∀ n : Nat, n < UInt32.size → ((UInt32.ofNat n).toNat : Int) = n := by
    intro n hn
    rw [UInt32.toNat_ofNat', Nat.mod_eq_of_lt hn]
  have hsize : UInt32.size = 2 ^ 32 := rfl
  refine asUInt64_reads.narrow (by decide) (by decide) (fun n => ⟨?_, fun hn => ?_⟩)
    (fun x y h => UInt32.toNat_inj.mp (Int.ofNat.inj h)) (fun v x hread => ?_) fun v e hread => ?_
  · rintro ⟨x, rfl⟩
    have hlt := x.toNat_lt
    omega
  · refine ⟨UInt32.ofNat n.toNat, (hword _ (by omega)).trans ?_⟩
    omega
  · rw [asUInt32, hread]
    by_cases hx : x.toNat < UInt32.size
    · exact .inl ⟨_, if_pos hx, hword _ hx⟩
    · exact .inr ⟨by omega, "u32", if_neg hx⟩
  · rw [asUInt32, hread]
    rfl

theorem asUInt32_ofUInt32 (n : UInt32) : (ofUInt32 n).asUInt32 = .ok n := by
  have hlt : n.toNat < 2 ^ 32 := n.toNat_lt
  rw [asUInt32_reads.ok, ofUInt32, integer?, UInt64.toNat_ofNat', Nat.mod_eq_of_lt (by omega)]

variable {α : Type} {read : Value → Except Error α}

theorem asList_ok {v : Value} {xs : List α} : asList read v = .ok xs ↔
    ∃ items, v = .array items ∧ List.Forall₂ (fun i x => read i = .ok x) items xs := by
  cases v with
  | array items => simp only [asList, mapM_ok, array.injEq, exists_eq_left']
  | _ => simp [asList, wrongType]

/-- The first item that cannot be read decides. -/
theorem asList_error {v : Value} {e : Error} : asList read v = .error e ↔
    (v.kind ≠ .array ∧ e = .wrongType .array v.kind) ∨
      ∃ before i after, v = .array (before ++ i :: after) ∧
        (∀ j ∈ before, ∃ x, read j = .ok x) ∧ read i = .error e := by
  cases v with
  | array items =>
    simp only [asList, mapM_error, kind, ne_eq, not_true, false_and, false_or, array.injEq]
  | _ => simp only [asList, wrongType, kind, Except.error.injEq, eq_comm, ne_eq, reduceCtorEq,
      not_false_eq_true, true_and, false_and, exists_false, or_false]

end Value

/-- Each value is read from what was written for it. -/
theorem Shape.read_write (s : Shape) (v : s.Carrier) :
    s.read (s.write v) = .ok (s.persisted v) := by
  induction s with
  | int32 => exact Value.asInt32_ofInt32 v
  | uint32 => exact Value.asUInt32_ofUInt32 v
  | single => exact Value.asSingle_ofSingle v
  | list item ih => exact Value.asList_ofList ih v
  | _ => rfl

/-- Typed conversion is exact. Whatever the type, a value that is written is read as it was, NaNs of
32 bits as the quiet ones of their bits. An integer type takes the integers of either sign that are
in its range, and none of them wraps around. A list takes the arrays of what its items take, and
reports the first item that it cannot take. -/
theorem Shape.conversion_exact :
    (∀ (s : Shape) (v : s.Carrier), s.read (s.write v) = .ok (s.persisted v)) ∧
    ReadsIntegers int32.read (fun x : Int32 => x.toInt) (-2 ^ 31) (2 ^ 31 - 1) ∧
    ReadsIntegers int64.read (fun x : Int64 => x.toInt) (-2 ^ 63) (2 ^ 63 - 1) ∧
    ReadsIntegers uint32.read (fun x : UInt32 => (x.toNat : Int)) 0 (2 ^ 32 - 1) ∧
    ReadsIntegers uint64.read (fun x : UInt64 => (x.toNat : Int)) 0 (2 ^ 64 - 1) ∧
    ReadsIntegers size.read (fun x : UInt64 => (x.toNat : Int)) 0 (2 ^ 64 - 1) ∧
    ∀ (item : Shape) (v : Value),
      (∀ xs : List item.Carrier, (list item).read v = .ok xs ↔
        ∃ items, v = .array items ∧ List.Forall₂ (fun i x => item.read i = .ok x) items xs) ∧
      ∀ e, (list item).read v = .error e ↔
        (v.kind ≠ .array ∧ e = .wrongType .array v.kind) ∨
          ∃ before i after, v = .array (before ++ i :: after) ∧
            (∀ j ∈ before, ∃ x, item.read j = .ok x) ∧ item.read i = .error e :=
  ⟨read_write, Value.asInt32_reads, Value.asInt64_reads, Value.asUInt32_reads,
    Value.asUInt64_reads, Value.asUInt64_reads,
    fun _ _ => ⟨fun _ => Value.asList_ok, fun _ => Value.asList_error⟩⟩

/-- A smaller type is read through a larger one, and the one that refuses is named. -/
example : Shape.uint32.read (.int (-1)) = .error (.outOfRange "u64" "-1") := rfl

end FlowGraph.Archive
