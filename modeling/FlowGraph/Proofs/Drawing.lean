import Mathlib
import FlowGraph.Model.Registry
import FlowGraph.Proofs.Outcome
import FlowGraph.Proofs.Properties

/-! Drawing ids, and the registry of every node type. -/
namespace FlowGraph

/-- The id that is drawn after `k` others. -/
def NodeId.nth (k : Nat) : NodeId := ⟨UInt64.ofNat (k + 1)⟩

/-- The id was handed out before. -/
def Supply.Issued (s : Supply) (id : NodeId) : Prop := ∃ k < s.drawn, id = NodeId.nth k

/-- The `count` ids that are drawn next. -/
def Supply.next (s : Supply) (count : Nat) : List NodeId :=
  (List.range' s.drawn count).map NodeId.nth

/-- Ids repeat only after all of them have been drawn. -/
theorem NodeId.nth_inj {j k : Nat} (hclose : j < k + 2 ^ 64) (hclose' : k < j + 2 ^ 64)
    (h : nth j = nth k) : j = k := by
  have hword := congrArg (fun id : NodeId => id.value.toNat) h
  simp only [nth, UInt64.toNat_ofNat'] at hword
  omega

/-- There are no more ids than words. -/
theorem NodeId.length_le_of_nodup {ids : List NodeId} (hd : ids.Nodup) : ids.length ≤ 2 ^ 64 := by
  have hwords : (ids.map fun id => id.value.toNat).Nodup := by
    refine hd.map fun a b hab => ?_
    cases a
    cases b
    simpa [UInt64.toNat_inj] using hab
  have hsubset : (ids.map fun id => id.value.toNat).toFinset ⊆ Finset.range (2 ^ 64) := by
    intro k hk
    obtain ⟨id, -, rfl⟩ := List.mem_map.mp (List.mem_toFinset.mp hk)
    exact Finset.mem_range.mpr id.value.toNat_lt
  -- different ids are different words, and those are counted
  have hcard := Finset.card_le_card hsubset
  rwa [List.toFinset_card_of_nodup hwords, Finset.card_range, List.length_map] at hcard

namespace Supply

theorem draw_eq (s : Supply) : s.draw = (NodeId.nth s.drawn, ⟨s.drawn + 1⟩) := rfl

theorem Issued.mono {s s' : Supply} {id : NodeId} (h : s.Issued id) (hle : s.drawn ≤ s'.drawn) :
    s'.Issued id := by
  obtain ⟨k, hk, rfl⟩ := h
  exact ⟨k, by omega, rfl⟩

theorem issued_draw (s : Supply) : s.draw.2.Issued s.draw.1 := ⟨s.drawn, Nat.lt_succ_self _, rfl⟩

theorem mem_next {s : Supply} {count : Nat} {id : NodeId} :
    id ∈ s.next count ↔ ∃ k, s.drawn ≤ k ∧ k < s.drawn + count ∧ id = NodeId.nth k := by
  simp only [next, List.mem_map, List.mem_range'_1, eq_comm, and_assoc]

theorem next_succ (s : Supply) (count : Nat) :
    s.next (count + 1) = s.draw.1 :: s.draw.2.next count := rfl

theorem length_next (s : Supply) (count : Nat) : (s.next count).length = count := by
  simp [next]

theorem nodup_next {s : Supply} {count : Nat} (h : count ≤ 2 ^ 64) : (s.next count).Nodup := by
  refine List.Nodup.map_on ?_ List.nodup_range'
  intro j hj k hk hjk
  rw [List.mem_range'_1] at hj hk
  exact NodeId.nth_inj (by omega) (by omega) hjk

/-- Until every id has been drawn once, the next ones are not among those handed out. -/
theorem next_not_issued {s : Supply} {count : Nat} (h : s.drawn + count ≤ 2 ^ 64) {id : NodeId}
    (hid : id ∈ s.next count) : ¬ s.Issued id := by
  intro h
  obtain ⟨j, hj, rfl⟩ := h
  obtain ⟨k, hlow, hhigh, hjk⟩ := mem_next.mp hid
  have heq := NodeId.nth_inj (by omega) (by omega) hjk
  omega

/-- The id that `id` gets when `ids` are given new ones in their order. -/
def place (s : Supply) (ids : List NodeId) (id : NodeId) : NodeId :=
  NodeId.nth (s.drawn + ids.idxOf id)

theorem map_place (s : Supply) {ids : List NodeId} (hd : ids.Nodup) :
    ids.map (s.place ids) = s.next ids.length := by
  apply List.ext_getElem
  · rw [List.length_map, length_next]
  · intro i hi hi'
    simp only [List.getElem_map, place, next, List.getElem_range', Nat.one_mul]
    rw [hd.idxOf_getElem]

/-- Different ids get different new ones. -/
theorem place_inj (s : Supply) {ids : List NodeId} (hd : ids.Nodup) {a b : NodeId} (ha : a ∈ ids)
    (hb : b ∈ ids) (h : s.place ids a = s.place ids b) : a = b := by
  have hplaces : (ids.map (s.place ids)).Nodup := by
    rw [map_place s hd]
    exact nodup_next (NodeId.length_le_of_nodup hd)
  exact List.inj_on_of_nodup_map hplaces ha hb h

end Supply

namespace Drawing

variable {α β : Type}

theorem runWith_bind (d : Drawing α) (f : α → Drawing β) (s : Supply) :
    (d >>= f).runWith s = match d.runWith s with
      | (.ok a, s₁) => (f a).runWith s₁
      | (.error e, s₁) => (.error e, s₁) := by
  change (ExceptT.bindCont f (d.runWith s).1).run (d.runWith s).2 = _
  rcases d.runWith s with ⟨result, s₁⟩
  cases result <;> rfl

theorem runWith_bind_of_ok {d : Drawing α} {f : α → Drawing β} {s s₁ : Supply} {a : α}
    (h : d.runWith s = (.ok a, s₁)) : (d >>= f).runWith s = (f a).runWith s₁ := by
  rw [runWith_bind, h]

theorem runWith_bind_ok {d : Drawing α} {f : α → Drawing β} {s s' : Supply} {b : β} :
    (d >>= f).runWith s = (.ok b, s') ↔
      ∃ a s₁, d.runWith s = (.ok a, s₁) ∧ (f a).runWith s₁ = (.ok b, s') := by
  rw [runWith_bind]
  rcases d.runWith s with ⟨result, s₁⟩
  cases result with
  | error e => simp
  | ok a => simp

theorem runWith_pure_ok {a b : α} {s s' : Supply} :
    (pure a : Drawing α).runWith s = (.ok b, s') ↔ a = b ∧ s' = s := by
  change ((Except.ok a, s) : Except GraphError α × Supply) = _ ↔ _
  rw [Prod.mk.injEq, Except.ok.injEq, eq_comm (a := s)]

theorem runWith_throw_ok {e : GraphError} {b : α} {s s' : Supply} :
    (throw e : Drawing α).runWith s = (.ok b, s') ↔ False := by
  change ((Except.error e, s) : Except GraphError α × Supply) = _ ↔ _
  simp

theorem runWith_ofExcept_ok {result : Except GraphError α} {b : α} {s s' : Supply} :
    (ofExcept result).runWith s = (.ok b, s') ↔ result = .ok b ∧ s' = s := by
  change ((result, s) : Except GraphError α × Supply) = _ ↔ _
  rw [Prod.mk.injEq, eq_comm (a := s)]

theorem runWith_drawId_ok {id : NodeId} {s s' : Supply} :
    drawId.runWith s = (.ok id, s') ↔ id = NodeId.nth s.drawn ∧ s' = ⟨s.drawn + 1⟩ := by
  change ((Except.ok (NodeId.nth s.drawn), ⟨s.drawn + 1⟩) : Except GraphError NodeId × Supply) = _ ↔
    _
  rw [Prod.mk.injEq, Except.ok.injEq, eq_comm, eq_comm (a := s')]

end Drawing

namespace Registry

/-- A registry that was filled by `register` alone. -/
theorem lookup_foldl_register (types : List NodeType) (r : Registry) (name : String)
    (hinj : ∀ a ∈ types, ∀ b ∈ types, a.name = b.name → a = b) :
    (types.foldl register r).entries.lookup name =
      (types.find? (·.name = name)).or (r.entries.lookup name) := by
  induction types generalizing r with
  | nil => rfl
  | cons type rest ih =>
    have hrest : ∀ a ∈ rest, ∀ b ∈ rest, a.name = b.name → a = b :=
      fun a ha b hb => hinj a (List.mem_cons_of_mem _ ha) b (List.mem_cons_of_mem _ hb)
    rw [List.foldl_cons, ih _ hrest]
    by_cases hname : type.name = name
    · subst hname
      rw [List.find?_cons_of_pos (by simp), register, registerAs, lookup_insertNamed_self]
      cases hf : rest.find? (·.name = type.name) with
      | none => rfl
      | some other =>
        have hother : other.name = type.name := by simpa using List.find?_some hf
        rw [hinj other (List.mem_cons_of_mem _ (List.mem_of_find?_eq_some hf)) type
          List.mem_cons_self hother]
        rfl
    · rw [List.find?_cons_of_neg (by simpa using hname), register, registerAs,
        lookup_insertNamed_of_ne fun h => hname h.symm]

theorem mem_allTypes (type : NodeType) : type ∈ allTypes := by
  cases type with
  | input t => cases t <;> decide
  | constant t => cases t <;> decide
  | output t => cases t <;> decide
  | operation t numeric => cases t <;> cases numeric <;> decide

/-- Different node types have different names. -/
theorem type_name_inj {a b : NodeType} (h : a.name = b.name) : a = b := by
  have hall : ∀ a ∈ allTypes, ∀ b ∈ allTypes, a.name = b.name → a = b := by decide
  exact hall a (mem_allTypes a) b (mem_allTypes b) h

/-- The builtin registry finds each node type under its name, and nothing under other names. -/
theorem lookup_builtin {name : String} {type : NodeType} :
    builtin.entries.lookup name = some type ↔ type.name = name := by
  rw [builtin, lookup_foldl_register _ _ _ fun a _ b _ h => type_name_inj h]
  simp only [empty, List.lookup_nil, Option.or_none]
  constructor
  · intro h
    simpa using List.find?_some h
  · rintro rfl
    cases hf : allTypes.find? (·.name = type.name) with
    | none =>
      have hne := List.find?_eq_none.mp hf type (mem_allTypes type)
      simp at hne
    | some other =>
      have hother : other.name = type.name := by simpa using List.find?_some hf
      rw [type_name_inj hother]

end Registry

end FlowGraph
