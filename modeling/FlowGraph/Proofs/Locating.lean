import FlowGraph.Archive.Reading
import FlowGraph.Proofs.Digits
import FlowGraph.Proofs.Reading

/-! The way that an error of a reading names. It leads through the archive to the very value that
the error is about, whatever was read and wherever the reading stopped. -/
namespace FlowGraph

/-- If there is no result, `P` holds of the error. -/
def FailsWith {ε α : Type} (P : ε → Prop) (result : Except ε α) : Prop :=
  ∀ e, result = .error e → P e

namespace FailsWith

variable {ε α β : Type} {P Q : ε → Prop}

theorem ok (x : α) : FailsWith P (.ok x) := fun _ h => nomatch h

theorem error {e : ε} (h : P e) : FailsWith P (.error e : Except ε α) := by
  intro e' he
  obtain rfl := Except.error.inj he
  exact h

theorem imp {result : Except ε α} (h : FailsWith P result) (hPQ : ∀ e, P e → Q e) :
    FailsWith Q result :=
  fun e he => hPQ e (h e he)

theorem bind {result : Except ε α} {next : α → Except ε β} (h : FailsWith P result)
    (hnext : ∀ x, result = .ok x → FailsWith P (next x)) : FailsWith P (result >>= next) := by
  cases result with
  | error e => exact error (h e rfl)
  | ok x => exact hnext x rfl

end FailsWith

namespace Archive

/-- A step from an object to something in it. -/
inductive Step
  | property (name : String)
  /-- An item of a property that is an array. -/
  | item (name : String) (index : Nat)

/-- What a name in an error stands for: `x[i]` is an item of `x`, and all else is a property. -/
def Step.ofName (name : String) : Step :=
  match name.toList.dropWhile (· ≠ '[') with
  | [] => .property name
  | _ :: index =>
    .item (String.ofList (name.toList.takeWhile (· ≠ '['))) (Decimal.ofDigits index.dropLast)

namespace Value

def step? (v : Value) : Step → Option Value
  | .property name => v.at? [name]
  | .item name index =>
    match v.at? [name] with
    | some (array items) => items[index]?
    | _ => none

/-- What is found by going from name to name. -/
def follow? (v : Value) : List String → Option Value
  | [] => some v
  | name :: rest => (v.step? (.ofName name)).bind fun inner => inner.follow? rest

end Value

namespace Error

/-- The names of the properties that the error is in, from the outside in. -/
def path : Error → List String
  | property name cause => name :: cause.path
  | _ => []

/-- What is said to be missing is missing in `v`, or what is said to have been found is its kind. -/
def Describes (v : Value) : Error → Prop
  | missingProperty name => ∃ a : Archive, v = a.toValue ∧ a.get? name = none
  | wrongType _ found => v.kind = found
  | _ => True

/-- The path of the error leads from `v` to the value that its innermost part describes. -/
def Blames (e : Error) (v : Value) : Prop :=
  ∃ w, v.follow? e.path = some w ∧ e.innermost.Describes w

end Error

/-- Why a value is refused, whatever is in it: its kind is wrong, or its number. -/
inductive Value.Refused (v : Value) : Error → Prop
  | kind (expected : Kind) : Refused v (.wrongType expected v.kind)
  | range (target text : String) : Refused v (.outOfRange target text)

namespace Step

variable {name : String}

theorem ofName_property (h : '[' ∉ name.toList) : ofName name = .property name := by
  have hall : ∀ c ∈ name.toList, decide (c ≠ '[') = true :=
    fun c hc => decide_eq_true fun heq => h (heq ▸ hc)
  rw [ofName, List.dropWhile_eq_nil_iff.mpr hall]

theorem ofName_itemName (h : '[' ∉ name.toList) (index : Nat) :
    ofName (itemName name index) = .item name index := by
  have hall : ∀ c ∈ name.toList, decide (c ≠ '[') = true :=
    fun c hc => decide_eq_true fun heq => h (heq ▸ hc)
  have hchars : (itemName name index).toList =
      name.toList ++ '[' :: (Nat.toDigits 10 index ++ [']']) := by
    simp [itemName]
  rw [ofName, hchars, List.dropWhile_append_of_pos hall, List.takeWhile_append_of_pos hall]
  simp [Decimal.ofDigits_toDigits]

end Step

section Steps

variable {a : Archive} {name : String} {v : Value}

theorem step?_property (hname : '[' ∉ name.toList) (h : a.get? name = some v) :
    a.toValue.step? (.ofName name) = some v := by
  rw [Step.ofName_property hname]
  exact at?_single h

theorem step?_item (hname : '[' ∉ name.toList) {items : List Value}
    (h : a.get? name = some (.array items)) {index : Nat} (hv : items[index]? = some v) :
    a.toValue.step? (.ofName (itemName name index)) = some v := by
  rw [Step.ofName_itemName hname, Value.step?, at?_single h]
  exact hv

end Steps

namespace Error

variable {v w : Value}

/-- One more step on the way. -/
theorem Blames.property {name : String} {cause : Error} (hstep : v.step? (.ofName name) = some w)
    (h : cause.Blames w) : (Error.property name cause).Blames v := by
  obtain ⟨found, hfollow, hdescribes⟩ := h
  refine ⟨found, ?_, hdescribes⟩
  rw [path, Value.follow?, hstep]
  exact hfollow

theorem blames_invalidValue (detail : String) : (invalidValue detail).Blames v := ⟨v, rfl, trivial⟩

end Error

theorem Value.Refused.blames {v : Value} {e : Error} (h : v.Refused e) : e.Blames v := by
  cases h with
  | kind expected => exact ⟨v, rfl, rfl⟩
  | range target text => exact ⟨v, rfl, trivial⟩

section Within

variable {α : Type} {name : String} {result : Except Error α}

theorem failsWith_within {P : Error → Prop} (h : FailsWith (fun e => P (.property name e)) result) :
    FailsWith P (within name result) := by
  cases result with
  | ok x => exact .ok x
  | error e => exact .error (h e rfl)

theorem blames_within {v w : Value} (hstep : v.step? (.ofName name) = some w)
    (h : FailsWith (·.Blames w) result) : FailsWith (·.Blames v) (within name result) :=
  failsWith_within (h.imp fun _ he => he.property hstep)

end Within

namespace Value

variable (v : Value)

theorem refused_asBool : FailsWith v.Refused v.asBool := by
  cases v with
  | bool b => exact .ok b
  | _ => exact .error (.kind _)

theorem refused_asString : FailsWith v.Refused v.asString := by
  cases v with
  | string s => exact .ok s
  | _ => exact .error (.kind _)

theorem refused_asArchive : FailsWith v.Refused v.asArchive := by
  cases v with
  | object properties => exact .ok _
  | _ => exact .error (.kind _)

theorem refused_asDouble : FailsWith v.Refused v.asDouble := by
  cases v with
  | float x => exact .ok x
  | _ => exact .error (.kind _)

theorem refused_asUInt64 : FailsWith v.Refused v.asUInt64 := by
  cases v with
  | uint n => exact .ok n
  | int n =>
    simp only [asUInt64]
    split
    · exact .ok _
    · exact .error (.range _ _)
  | _ => exact .error (.kind _)

theorem refused_asInt64 : FailsWith v.Refused v.asInt64 := by
  cases v with
  | int n => exact .ok n
  | uint n =>
    simp only [asInt64]
    split
    · exact .ok _
    · exact .error (.range _ _)
  | _ => exact .error (.kind _)

theorem refused_asInt32 : FailsWith v.Refused v.asInt32 := by
  refine v.refused_asInt64.bind fun n _ => ?_
  split
  · exact .ok _
  · exact .error (.range _ _)

theorem refused_asSingle : FailsWith v.Refused v.asSingle := by
  refine v.refused_asDouble.bind fun x _ => ?_
  split
  · exact .error (.range _ _)
  · exact .ok _

end Value

section Properties

variable {α : Type} (a : Archive) {name : String}

theorem blames_value : FailsWith (·.Blames a.toValue) (a.value name) := by
  unfold value
  cases hv : a.get? name with
  | some v => exact .ok v
  | none => exact .error ⟨a.toValue, rfl, a, rfl, hv⟩

theorem blames_read (hname : '[' ∉ name.toList) {as : Value → Except Error α}
    (has : ∀ v, FailsWith v.Refused (as v)) : FailsWith (·.Blames a.toValue) (a.read as name) :=
  a.blames_value.bind fun v hv =>
    blames_within (step?_property hname (value_ok.mp hv)) ((has v).imp fun _ h => h.blames)

/-- What is no object is blamed from outside, and what is wrong in one from inside. -/
theorem failsWith_readObject (hname : '[' ∉ name.toList) {readInner : Archive → Except Error α}
    {P : Error → Prop} (houter : ∀ e, e.Blames a.toValue → P e)
    (hinner : ∀ inner : Archive, a.get? name = some inner.toValue →
      FailsWith (fun e => P (.property name e)) (readInner inner)) :
    FailsWith P (a.readObject name readInner) := by
  have hobject := a.blames_read hname Value.refused_asArchive
  refine FailsWith.bind (hobject.imp houter) fun inner hread => ?_
  obtain ⟨v, hv, harchive⟩ := read_ok.mp hread
  rw [Value.asArchive_ok.mp harchive] at hv
  exact failsWith_within (hinner inner hv)

theorem blames_readObject (hname : '[' ∉ name.toList) {readInner : Archive → Except Error α}
    (hinner : ∀ inner : Archive, FailsWith (·.Blames inner.toValue) (readInner inner)) :
    FailsWith (·.Blames a.toValue) (a.readObject name readInner) :=
  a.failsWith_readObject hname (fun _ => id) fun inner h =>
    (hinner inner).imp fun _ he => he.property (step?_property hname h)

variable {a}

theorem blames_objectsFrom (hname : '[' ∉ name.toList) {before items : List Value}
    (h : a.get? name = some (.array (before ++ items))) :
    FailsWith (·.Blames a.toValue) (objectsFrom name before.length items) := by
  induction items generalizing before with
  | nil => exact .ok _
  | cons item rest ih =>
    have hitem : (before ++ item :: rest)[before.length]? = some item := by simp
    have hfirst := blames_within (step?_item hname h hitem)
      (item.refused_asArchive.imp fun _ h => h.blames)
    refine hfirst.bind fun first _ => ?_
    have hnext : a.get? name = some (.array ((before ++ [item]) ++ rest)) := by simpa using h
    have hrest := ih hnext
    rw [List.length_append] at hrest
    exact hrest.bind fun others _ => .ok _

theorem blames_objects (hname : '[' ∉ name.toList) :
    FailsWith (·.Blames a.toValue) (a.objects name) := by
  refine a.blames_value.bind fun v hv => ?_
  rw [value_ok] at hv
  cases v with
  | array items =>
    have hitems : a.get? name = some (.array ([] ++ items)) := hv
    exact blames_objectsFrom hname hitems
  | _ => exact blames_within (step?_property hname hv) (.error (Value.Refused.kind _).blames)

end Properties

end Archive

end FlowGraph
