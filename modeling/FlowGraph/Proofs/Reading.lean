import FlowGraph.Graph.Outlet
import FlowGraph.Proofs.Elements
import FlowGraph.Proofs.Outcome

/-! What an archive holds where a reading of it succeeds: every reader of a value, of a property
and of a selection, said on the tree it reads. -/
namespace FlowGraph

namespace Archive.Value

/-- An integer of either sign, as the natural it stands for. -/
def Holds (v : Value) (k : Nat) : Prop :=
  match v with
  | .uint n => n.toNat = k
  | .int n => n.toInt = k
  | _ => False

/-- What is found by going from property to property. -/
def at? (v : Value) : List String → Option Value
  | [] => some v
  | name :: rest =>
    match v with
    | .object properties => (properties.lookup name).bind fun inner => inner.at? rest
    | _ => none

theorem asString_ok {v : Value} {s : String} : v.asString = .ok s ↔ v = .string s := by
  cases v <;> simp [asString, wrongType]

theorem asArchive_ok {v : Value} {a : Archive} : v.asArchive = .ok a ↔ v = a.toValue := by
  cases v <;> simp [asArchive, wrongType, toValue]
  constructor
  · rintro rfl
    rfl
  · rintro rfl
    rfl

theorem asUInt64_ok {v : Value} {n : UInt64} : v.asUInt64 = .ok n ↔ v.Holds n.toNat := by
  cases v with
  | uint k => simp [asUInt64, Holds, UInt64.toNat_inj]
  | int k =>
    have hmax := Int64.toInt_le k
    simp only [asUInt64, Holds]
    split
    case isTrue hpos =>
      have hk : (UInt64.ofNat k.toInt.toNat).toNat = k.toInt.toNat := by
        rw [UInt64.toNat_ofNat']
        apply Nat.mod_eq_of_lt
        have hbound : Int64.maxValue.toInt = 2 ^ 63 - 1 := rfl
        omega
      rw [Except.ok.injEq, ← UInt64.toNat_inj, hk]
      omega
    case isFalse hneg =>
      simp only [reduceCtorEq, false_iff]
      omega
  | bool b => simp [asUInt64, Holds, wrongType]
  | float x => simp [asUInt64, Holds, wrongType]
  | string s => simp [asUInt64, Holds, wrongType]
  | array items => simp [asUInt64, Holds, wrongType]
  | object properties => simp [asUInt64, Holds, wrongType]

theorem asSize_ok {v : Value} {n : UInt64} : v.asSize = .ok n ↔ v.Holds n.toNat := asUInt64_ok

end Archive.Value

namespace Archive

variable {α : Type}

theorem at?_nil (v : Value) : v.at? [] = some v := by
  cases v <;> rfl

theorem at?_cons {a : Archive} {name : String} {rest : List String} {v : Value}
    (h : a.get? name = some v) : a.toValue.at? (name :: rest) = v.at? rest := by
  change (a.get? name).bind _ = _
  rw [h, Option.bind_some]

theorem at?_single {a : Archive} {name : String} {v : Value} (h : a.get? name = some v) :
    a.toValue.at? [name] = some v := by
  rw [at?_cons h, at?_nil]

theorem within_ok {name : String} {result : Except Error α} {x : α} :
    within name result = .ok x ↔ result = .ok x :=
  mapError_ok

theorem value_ok {a : Archive} {name : String} {v : Value} :
    a.value name = .ok v ↔ a.get? name = some v := by
  unfold value
  cases a.get? name <;> simp

theorem read_ok {a : Archive} {as : Value → Except Error α} {name : String} {x : α} :
    a.read as name = .ok x ↔ ∃ v, a.get? name = some v ∧ as v = .ok x := by
  simp only [read, bind_ok, value_ok, within_ok]

theorem readObject_ok {a : Archive} {name : String} {readInner : Archive → Except Error α} {x : α} :
    a.readObject name readInner = .ok x ↔
      ∃ inner : Archive, a.get? name = some inner.toValue ∧ readInner inner = .ok x := by
  simp only [readObject, object, bind_ok, value_ok, within_ok, Value.asArchive_ok]
  constructor
  · intro h
    obtain ⟨inner, ⟨v, hv, rfl⟩, hx⟩ := h
    exact ⟨inner, hv, hx⟩
  · intro h
    obtain ⟨inner, hv, hx⟩ := h
    exact ⟨inner, ⟨inner.toValue, hv, rfl⟩, hx⟩

theorem objectsFrom_ok {name : String} {index : Nat} {items : List Value} {as : List Archive} :
    objectsFrom name index items = .ok as ↔ items = as.map toValue := by
  induction items generalizing index as with
  | nil => simp [objectsFrom, eq_comm]
  | cons item rest ih =>
    simp only [objectsFrom, bind_ok, within_ok, Value.asArchive_ok, pure_ok, ih]
    constructor
    · intro h
      obtain ⟨first, rfl, others, rfl, rfl⟩ := h
      rfl
    · intro h
      cases as with
      | nil => simp at h
      | cons first others =>
        obtain ⟨hfirst, hothers⟩ := List.cons.inj h
        exact ⟨first, hfirst, others, hothers, rfl⟩

theorem objects_ok {a : Archive} {name : String} {as : List Archive} :
    a.objects name = .ok as ↔ a.get? name = some (.array (as.map toValue)) := by
  simp only [objects, bind_ok, value_ok]
  constructor
  · intro h
    obtain ⟨v, hv, h⟩ := h
    cases v with
    | array items => rw [hv, objectsFrom_ok.mp h]
    | _ => simp [within, Value.wrongType, Except.mapError] at h
  · intro hv
    exact ⟨_, hv, objectsFrom_ok.mpr rfl⟩

end Archive

/-- What is stored is not as large as sizes go. -/
theorem storedSizeLimit_lt : storedSizeLimit < sizeLimit := by decide

/-- The archived form of a span, its integers of either sign. -/
structure Span.StoredAs (s : Span) (a : Archive) : Prop where
  node : ∃ v, a.get? "node" = some v ∧ v.Holds s.source.node.value.toNat
  port : a.get? "port" = some (.string s.source.name)
  start : ∃ v, a.get? "start" = some v ∧ v.Holds s.start.toNat
  count : ∃ v, a.get? "count" = some v ∧ v.Holds s.count.toNat

/-- The end of a span is looked at when all of the span has been read. -/
theorem Span.StoredAs.ofArchive_eq {s : Span} {a : Archive} (h : s.StoredAs a) :
    Span.ofArchive a =
      if sizeLimit < s.start.toNat + s.count.toNat then
        .error (.outOfRange "element range"
          (toString s.start.toNat ++ " + " ++ toString s.count.toNat))
      else .ok s := by
  have hnode : a.read Archive.Value.asUInt64 "node" = .ok s.source.node.value := by
    simpa only [Archive.read_ok, Archive.Value.asUInt64_ok] using h.node
  have hname : a.read Archive.Value.asString "port" = .ok s.source.name := by
    simpa only [Archive.read_ok, Archive.Value.asString_ok, exists_eq_right] using h.port
  have hstart : a.read Archive.Value.asSize "start" = .ok s.start := by
    simpa only [Archive.read_ok, Archive.Value.asSize_ok] using h.start
  have hcount : a.read Archive.Value.asSize "count" = .ok s.count := by
    simpa only [Archive.read_ok, Archive.Value.asSize_ok] using h.count
  rw [Span.ofArchive, hnode, hname, hstart, hcount]
  rfl

theorem Span.ofArchive_ok {a : Archive} {s : Span} :
    Span.ofArchive a = .ok s ↔
      s.StoredAs a ∧ s.start.toNat + s.count.toNat ≤ sizeLimit := by
  constructor
  · intro h
    simp only [Span.ofArchive, bind_ok, Archive.read_ok, Archive.Value.asUInt64_ok,
      Archive.Value.asString_ok, Archive.Value.asSize_ok] at h
    obtain ⟨node, hnode, name, ⟨v, hv, rfl⟩, start, hstart, count, hcount, hcheck⟩ := h
    split at hcheck
    case isTrue => exact (throw_ok.mp hcheck).elim
    case isFalse hfits =>
      obtain rfl := pure_ok.mp hcheck
      exact ⟨⟨hnode, hv, hstart, hcount⟩, Nat.le_of_not_lt hfits⟩
  · intro h
    obtain ⟨hstored, hfits⟩ := h
    rw [hstored.ofArchive_eq, if_neg (Nat.not_lt.mpr hfits)]

namespace Selection

theorem spansOfArchive_ok {index total : Nat} {items : List Archive} {spans : List Span} :
    spansOfArchive index total items = .ok spans ↔
      List.Forall₂ (fun a s => Span.ofArchive a = .ok s) items spans ∧
        (spans = [] ∨ total + (spans.map (·.count.toNat)).sum ≤ sizeLimit) := by
  induction items generalizing index total spans with
  | nil =>
    simp only [spansOfArchive, Except.ok.injEq, List.forall₂_nil_left_iff]
    constructor
    · rintro rfl
      exact ⟨rfl, .inl rfl⟩
    · intro h
      obtain ⟨rfl, -⟩ := h
      rfl
  | cons item rest ih =>
    simp only [spansOfArchive, bind_ok, Archive.within_ok, List.forall₂_cons_left_iff]
    constructor
    · intro h
      obtain ⟨s, hs, hcheck⟩ := h
      split at hcheck
      case isTrue => exact (throw_ok.mp hcheck).elim
      case isFalse hfits =>
        obtain ⟨others, hothers, hpure⟩ := bind_ok.mp hcheck
        obtain rfl := pure_ok.mp hpure
        obtain ⟨hforall, hsum⟩ := ih.mp hothers
        refine ⟨⟨s, others, hs, hforall, rfl⟩, .inr ?_⟩
        rw [List.map_cons, List.sum_cons]
        rcases hsum with rfl | hsum
        · simp only [List.map_nil, List.sum_nil]
          omega
        · omega
    · intro h
      obtain ⟨⟨s, others, hs, hforall, rfl⟩, hsum⟩ := h
      rw [List.map_cons, List.sum_cons] at hsum
      have hsum := hsum.resolve_left (List.cons_ne_nil _ _)
      refine ⟨s, hs, ?_⟩
      rw [if_neg (by omega : ¬ sizeLimit < total + s.count.toNat)]
      exact bind_ok.mpr ⟨others, ih.mpr ⟨hforall, .inr (by omega)⟩, rfl⟩

/-- The archived form of a selection: its spans as they are, of not too many elements. -/
theorem ofArchive_ok {a : Archive} {e : Selection} :
    Selection.ofArchive a = .ok e ↔
      ∃ items : List Archive, a.get? "ranges" = some (.array (items.map Archive.toValue)) ∧
        List.Forall₂ (fun item s => Span.ofArchive item = .ok s) items e.spans ∧
          (e.spans.map (·.count.toNat)).sum ≤ sizeLimit := by
  simp only [ofArchive, bind_ok, Archive.objects_ok, spansOfArchive_ok, pure_ok]
  constructor
  · intro h
    obtain ⟨items, hitems, spans, ⟨hforall, hsum⟩, rfl⟩ := h
    refine ⟨items, hitems, hforall, ?_⟩
    rcases hsum with rfl | hsum
    · exact Nat.zero_le _
    · simpa using hsum
  · intro h
    obtain ⟨items, hitems, hforall, hsum⟩ := h
    exact ⟨items, hitems, e.spans, ⟨hforall, .inr (by simpa using hsum)⟩, rfl⟩

end Selection

theorem checkStoredType_ok {t : ElementType} {a : Archive} :
    checkStoredType t a = .ok () ↔ a.get? "type" = some (.string t.name) := by
  simp only [checkStoredType, bind_ok, Archive.read_ok, Archive.Value.asString_ok]
  constructor
  · intro h
    obtain ⟨found, ⟨v, hv, rfl⟩, hcheck⟩ := h
    split at hcheck
    case isTrue => exact (throw_ok.mp hcheck).elim
    case isFalse hname => rw [hv, Decidable.not_not.mp hname]
  · intro hv
    exact ⟨t.name, ⟨_, hv, rfl⟩, by simp [pure, Except.pure]⟩

theorem Inlet.selectionOfArchive_ok {t : ElementType} {a : Archive} {e : Selection} :
    Inlet.selectionOfArchive t a = .ok e ↔
      a.get? "type" = some (.string t.name) ∧
        ∃ inner : Archive, a.get? "elements" = some inner.toValue ∧
          Selection.ofArchive inner = .ok e := by
  simp only [Inlet.selectionOfArchive, bind_ok, Archive.readObject_ok, ← checkStoredType_ok]
  constructor
  · intro h
    obtain ⟨⟨⟩, htype, hinner⟩ := h
    exact ⟨htype, hinner⟩
  · intro h
    obtain ⟨htype, hinner⟩ := h
    exact ⟨(), htype, hinner⟩

theorem Outlet.valuesOfArchive_ok {t : ElementType} {a : Archive} {values : List t.Value} :
    Outlet.valuesOfArchive t a = .ok values ↔
      a.get? "type" = some (.string t.name) ∧
        (∃ v, a.get? "size" = some v ∧ v.Holds values.length) ∧
          values.length ≤ storedSizeLimit ∧ values = List.replicate values.length t.default := by
  simp only [Outlet.valuesOfArchive, bind_ok, Archive.read_ok, Archive.Value.asSize_ok,
    ← checkStoredType_ok]
  constructor
  · intro h
    obtain ⟨⟨⟩, htype, size, hsize, hcheck⟩ := h
    split at hcheck
    case isTrue => exact (throw_ok.mp hcheck).elim
    case isFalse hlimit =>
      obtain rfl := pure_ok.mp hcheck
      rw [List.length_replicate]
      exact ⟨htype, hsize, Nat.le_of_not_lt hlimit, rfl⟩
  · intro h
    obtain ⟨htype, ⟨v, hv, hholds⟩, hlimit, hvalues⟩ := h
    have hword := toNat_ofNat_of_le (Nat.le_trans hlimit (Nat.le_of_lt storedSizeLimit_lt))
    refine ⟨(), htype, UInt64.ofNat values.length, ⟨v, hv, by rwa [hword]⟩, ?_⟩
    rw [hword, if_neg (Nat.not_lt.mpr hlimit), hvalues]
    simp [pure, Except.pure]

end FlowGraph
