import Mathlib
import FlowGraph.Archive.Value

/-! What is inside an archive, and how deep lists and objects nest in its stored form. -/
namespace FlowGraph.Archive

mutual

/-- The value and everything inside it. -/
def Value.parts : Value → List Value
  | .array items => .array items :: partsOfItems items
  | .object properties => .object properties :: partsOfProperties properties
  | v => [v]

def partsOfItems : List Value → List Value
  | [] => []
  | item :: rest => item.parts ++ partsOfItems rest

def partsOfProperties : List (String × Value) → List Value
  | [] => []
  | (_, v) :: rest => v.parts ++ partsOfProperties rest

end

mutual

/-- How many lists and objects nest where a value is stored: the object of its kind and its content,
and those in the content. -/
def Value.nesting : Value → Nat
  | .array items => nestingOfItems items + 2
  | .object properties => nestingOfProperties properties + 2
  | _ => 1

def nestingOfItems : List Value → Nat
  | [] => 0
  | item :: rest => max item.nesting (nestingOfItems rest)

def nestingOfProperties : List (String × Value) → Nat
  | [] => 0
  | (_, v) :: rest => max v.nesting (nestingOfProperties rest)

end

/-- How many lists and objects nest where an archive is stored, its own included. -/
def nesting (a : Archive) : Nat := nestingOfProperties a.properties + 1

/-- The archive as a value, and everything inside it. -/
def parts (a : Archive) : List Value := a.toValue.parts

/-- The names of an object are in their order, and none comes twice. -/
def Value.NamesAscend : Value → Prop
  | .object properties => properties.Pairwise fun p q => p.1 < q.1
  | _ => True

def Value.FloatIsFinite : Value → Prop
  | .float x => x.isFinite = true
  | _ => True

instance : DecidablePred Value.NamesAscend
  | .object properties =>
    inferInstanceAs (Decidable (properties.Pairwise fun p q => p.1 < q.1))
  | .bool _ | .int _ | .uint _ | .float _ | .string _ | .array _ => .isTrue trivial

instance : DecidablePred Value.FloatIsFinite
  | .float x => inferInstanceAs (Decidable (x.isFinite = true))
  | .bool _ | .int _ | .uint _ | .string _ | .array _ | .object _ => .isTrue trivial

/-- The properties of every object are in the order of their names, as inserting leaves them. -/
def Value.Ordered (v : Value) : Prop := ∀ w ∈ v.parts, w.NamesAscend

def Ordered (a : Archive) : Prop := a.toValue.Ordered

/-- Every number is finite. -/
def Value.Finite (v : Value) : Prop := ∀ w ∈ v.parts, w.FloatIsFinite

def Finite (a : Archive) : Prop := a.toValue.Finite

instance (a : Archive) : Decidable a.Ordered :=
  inferInstanceAs (Decidable (∀ w ∈ a.toValue.parts, w.NamesAscend))

instance (a : Archive) : Decidable a.Finite :=
  inferInstanceAs (Decidable (∀ w ∈ a.toValue.parts, w.FloatIsFinite))

/-- Induction on a value and on all that is inside it. -/
@[elab_as_elim]
theorem Value.induct {motive : Value → Prop} (bool : ∀ b, motive (.bool b))
    (int : ∀ n, motive (.int n)) (uint : ∀ n, motive (.uint n)) (float : ∀ x, motive (.float x))
    (string : ∀ s, motive (.string s))
    (array : ∀ items, (∀ item ∈ items, motive item) → motive (.array items))
    (object : ∀ properties, (∀ p ∈ properties, motive p.2) → motive (.object properties))
    (v : Value) : motive v := by
  refine Value.rec (motive_1 := motive) (motive_2 := fun items => ∀ item ∈ items, motive item)
    (motive_3 := fun properties => ∀ p ∈ properties, motive p.2) (motive_4 := fun p => motive p.2)
    bool int uint float string array object ?_ ?_ ?_ ?_ ?_ v
  · exact fun _ h => absurd h List.not_mem_nil
  · exact fun item rest hitem hrest => List.forall_mem_cons.mpr ⟨hitem, hrest⟩
  · exact fun _ h => absurd h List.not_mem_nil
  · exact fun p rest hp hrest => List.forall_mem_cons.mpr ⟨hp, hrest⟩
  · exact fun _ _ h => h

variable {items : List Value} {properties : List (String × Value)}

theorem mem_partsOfItems {w : Value} : w ∈ partsOfItems items ↔ ∃ item ∈ items, w ∈ item.parts := by
  induction items with
  | nil => simp [partsOfItems]
  | cons item rest ih => simp [partsOfItems, ih]

theorem mem_partsOfProperties {w : Value} :
    w ∈ partsOfProperties properties ↔ ∃ p ∈ properties, w ∈ p.2.parts := by
  induction properties with
  | nil => simp [partsOfProperties]
  | cons p rest ih => simp [partsOfProperties, ih]

/-- What holds of a list and of all that is inside its items holds of all that is inside it. -/
theorem forall_parts_array {q : Value → Prop} :
    (∀ w ∈ (Value.array items).parts, q w) ↔
      q (.array items) ∧ ∀ item ∈ items, ∀ w ∈ item.parts, q w := by
  rw [Value.parts, List.forall_mem_cons]
  refine and_congr_right fun _ => ⟨fun h item hitem w hw => ?_, fun h w hw => ?_⟩
  · exact h w (mem_partsOfItems.mpr ⟨item, hitem, hw⟩)
  · obtain ⟨item, hitem, hw⟩ := mem_partsOfItems.mp hw
    exact h item hitem w hw

theorem forall_parts_object {q : Value → Prop} :
    (∀ w ∈ (Value.object properties).parts, q w) ↔
      q (.object properties) ∧ ∀ p ∈ properties, ∀ w ∈ p.2.parts, q w := by
  rw [Value.parts, List.forall_mem_cons]
  refine and_congr_right fun _ => ⟨fun h p hp w hw => ?_, fun h w hw => ?_⟩
  · exact h w (mem_partsOfProperties.mpr ⟨p, hp, hw⟩)
  · obtain ⟨p, hp, hw⟩ := mem_partsOfProperties.mp hw
    exact h p hp w hw

theorem ordered_array : (Value.array items).Ordered ↔ ∀ item ∈ items, item.Ordered := by
  rw [Value.Ordered, forall_parts_array]
  exact and_iff_right trivial

theorem ordered_object : (Value.object properties).Ordered ↔
    (properties.Pairwise fun p q => p.1 < q.1) ∧ ∀ p ∈ properties, p.2.Ordered :=
  forall_parts_object

theorem finite_array : (Value.array items).Finite ↔ ∀ item ∈ items, item.Finite := by
  rw [Value.Finite, forall_parts_array]
  exact and_iff_right trivial

theorem finite_object : (Value.object properties).Finite ↔ ∀ p ∈ properties, p.2.Finite := by
  rw [Value.Finite, forall_parts_object]
  exact and_iff_right trivial

theorem finite_float {x : Binary .double} : (Value.float x).Finite ↔ x.isFinite = true := by
  rw [Value.Finite, Value.parts, List.forall_mem_singleton]
  · rfl
  · exact fun _ h => nomatch h
  · exact fun _ h => nomatch h

theorem nestingOfItems_le {depth : Nat} :
    nestingOfItems items ≤ depth ↔ ∀ item ∈ items, item.nesting ≤ depth := by
  induction items with
  | nil => simp [nestingOfItems]
  | cons item rest ih => simp [nestingOfItems, ih]

theorem nestingOfProperties_le {depth : Nat} :
    nestingOfProperties properties ≤ depth ↔ ∀ p ∈ properties, p.2.nesting ≤ depth := by
  induction properties with
  | nil => simp [nestingOfProperties]
  | cons p rest ih => simp [nestingOfProperties, ih]

/-- All that is inside a value is of a kind, and no more than so many levels nest. -/
def Value.Meets (q : Value → Prop) (depth : Nat) (v : Value) : Prop :=
  (∀ w ∈ v.parts, q w) ∧ v.nesting ≤ depth

section Meets

variable {q : Value → Prop} {depth : Nat}

/-- A value with nothing inside it takes one level. -/
theorem meets_scalar (v : Value) (hparts : v.parts = [v]) (hnesting : v.nesting = 1) (h : q v) :
    v.Meets q (depth + 1) := by
  refine ⟨?_, hnesting.trans_le (Nat.le_add_left 1 depth)⟩
  rw [hparts]
  exact List.forall_mem_singleton.mpr h

/-- A list takes a level for its kind and one for itself. -/
theorem meets_array (h : q (.array items)) (hitems : ∀ item ∈ items, item.Meets q depth) :
    (Value.array items).Meets q (depth + 2) := by
  refine ⟨forall_parts_array.mpr ⟨h, fun item hitem => (hitems item hitem).1⟩, ?_⟩
  exact Nat.add_le_add_right (nestingOfItems_le.mpr fun item hitem => (hitems item hitem).2) 2

theorem meets_object (h : q (.object properties))
    (hproperties : ∀ p ∈ properties, p.2.Meets q depth) :
    (Value.object properties).Meets q (depth + 2) := by
  refine ⟨forall_parts_object.mpr ⟨h, fun p hp => (hproperties p hp).1⟩, ?_⟩
  exact Nat.add_le_add_right (nestingOfProperties_le.mpr fun p hp => (hproperties p hp).2) 2

theorem Value.Meets.mono {v : Value} (h : v.Meets q depth) {depth' : Nat} (hle : depth ≤ depth') :
    v.Meets q depth' :=
  ⟨h.1, h.2.trans hle⟩

end Meets

end FlowGraph.Archive
