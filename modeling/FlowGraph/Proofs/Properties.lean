import Mathlib
import FlowGraph.Archive.Value
import FlowGraph.Proofs.Outcome

/-! Finding things by their names, and properties in the order of their names: inserting keeps it,
and in order nothing moves. -/
namespace FlowGraph

section

variable {α β : Type}

/-- What goes by a key that is there once is found under it. -/
theorem lookup_of_mem [BEq α] [LawfulBEq α] {entries : List (α × β)}
    (hd : (entries.map Prod.fst).Nodup) {a : α} {b : β} (h : (a, b) ∈ entries) :
    entries.lookup a = some b := by
  induction entries with
  | nil => cases h
  | cons entry rest ih =>
    obtain ⟨hnew, hrest⟩ := List.nodup_cons.mp hd
    rcases List.mem_cons.mp h with rfl | h
    · exact List.lookup_cons_self
    · have hne : a ≠ entry.1 := by
        intro heq
        exact hnew (List.mem_map.mpr ⟨_, h, heq⟩)
      rw [List.lookup_cons, beq_false_of_ne hne]
      exact ih hrest h

theorem lookup_insertNamed_self (name : String) (value : α) (entries : List (String × α)) :
    (insertNamed name value entries).lookup name = some value := by
  induction entries with
  | nil => exact List.lookup_cons_self
  | cons entry rest ih =>
    rcases entry with ⟨other, old⟩
    rw [insertNamed]
    split
    case isTrue => exact List.lookup_cons_self
    case isFalse =>
      split
      case isTrue => exact List.lookup_cons_self
      case isFalse hne => rw [List.lookup_cons, beq_false_of_ne hne, ih]

/-- Inserting changes nothing under other names. -/
theorem lookup_insertNamed_of_ne {name other : String} (hne : other ≠ name) (value : α)
    (entries : List (String × α)) :
    (insertNamed name value entries).lookup other = entries.lookup other := by
  induction entries with
  | nil => rw [insertNamed, List.lookup_cons, beq_false_of_ne hne]
  | cons entry rest ih =>
    rcases entry with ⟨first, old⟩
    rw [insertNamed]
    split
    case isTrue => rw [List.lookup_cons, beq_false_of_ne hne]
    case isFalse =>
      split
      case isTrue heq => rw [List.lookup_cons, List.lookup_cons, ← heq, beq_false_of_ne hne]
      case isFalse => rw [List.lookup_cons, List.lookup_cons, ih]

end

section

variable {α : Type} {name : String} {value : α} {entries : List (String × α)}

theorem mem_insertNamed {entry : String × α} (h : entry ∈ insertNamed name value entries) :
    entry = (name, value) ∨ entry ∈ entries := by
  induction entries with
  | nil => exact .inl (List.mem_singleton.mp h)
  | cons first rest ih =>
    rw [insertNamed] at h
    split at h
    case isTrue => exact List.mem_cons.mp h
    case isFalse =>
      split at h
      case isTrue => exact (List.mem_cons.mp h).imp_right (List.mem_cons_of_mem _)
      case isFalse =>
        rcases List.mem_cons.mp h with rfl | h
        · exact .inr List.mem_cons_self
        · exact (ih h).imp_right (List.mem_cons_of_mem _)

theorem pairwise_insertNamed (name : String) (value : α)
    (h : entries.Pairwise fun p q => p.1 < q.1) :
    (insertNamed name value entries).Pairwise fun p q => p.1 < q.1 := by
  induction entries with
  | nil => exact List.pairwise_singleton _ _
  | cons first rest ih =>
    obtain ⟨hfirst, hrest⟩ := List.pairwise_cons.mp h
    rw [insertNamed]
    split
    case isTrue hlt =>
      refine List.pairwise_cons.mpr ⟨fun entry hentry => ?_, h⟩
      rcases List.mem_cons.mp hentry with rfl | hentry
      · exact hlt
      · exact lt_trans hlt (hfirst entry hentry)
    case isFalse hge =>
      split
      case isTrue heq =>
        refine List.pairwise_cons.mpr ⟨fun entry hentry => ?_, hrest⟩
        rw [heq]
        exact hfirst entry hentry
      case isFalse hne =>
        refine List.pairwise_cons.mpr ⟨fun entry hentry => ?_, ih hrest⟩
        rcases mem_insertNamed hentry with rfl | hentry
        · exact lt_of_le_of_ne (not_lt.mp hge) (Ne.symm hne)
        · exact hfirst entry hentry

/-- A name after all others goes to the end. -/
theorem insertNamed_of_forall_lt (value : α) (h : ∀ entry ∈ entries, entry.1 < name) :
    insertNamed name value entries = entries ++ [(name, value)] := by
  induction entries with
  | nil => rfl
  | cons first rest ih =>
    obtain ⟨hfirst, hrest⟩ := List.forall_mem_cons.mp h
    rw [insertNamed, if_neg hfirst.not_gt, if_neg hfirst.ne', ih hrest, List.cons_append]

end

namespace Archive

variable {properties : List (String × Value)}

theorem ofList_concat (properties : List (String × Value)) (property : String × Value) :
    ofList (properties ++ [property]) = (ofList properties).insert property.1 property.2 :=
  List.foldl_concat ..

/-- Properties that are inserted in their order stay as they are. -/
theorem ofList_of_ascending (h : properties.Pairwise fun p q => p.1 < q.1) :
    ofList properties = ⟨properties⟩ := by
  induction properties using List.reverseRecOn with
  | nil => rfl
  | append_singleton properties property ih =>
    obtain ⟨hfirst, -, hlast⟩ := List.pairwise_append.mp h
    rw [ofList_concat, ih hfirst]
    refine congrArg Archive.mk (insertNamed_of_forall_lt property.2 fun entry hentry => ?_)
    exact hlast entry hentry property List.mem_cons_self

theorem mem_ofList {property : String × Value} (h : property ∈ (ofList properties).properties) :
    property ∈ properties := by
  induction properties using List.reverseRecOn with
  | nil => exact absurd h List.not_mem_nil
  | append_singleton properties last ih =>
    rw [ofList_concat] at h
    rcases mem_insertNamed h with rfl | h
    · exact List.mem_append_right _ List.mem_cons_self
    · exact List.mem_append_left _ (ih h)

theorem ascending_ofList (properties : List (String × Value)) :
    (ofList properties).properties.Pairwise fun p q => p.1 < q.1 := by
  induction properties using List.reverseRecOn with
  | nil => exact List.Pairwise.nil
  | append_singleton properties last ih =>
    rw [ofList_concat]
    exact pairwise_insertNamed _ _ ih

/-- Entries are read into an archive if every one of them has a name and a value. -/
theorem foldlM_insert_some {β : Type} {step : Archive → β → Option Archive}
    {Holds : β → String × Value → Prop} (hstep : ∀ a entry b, step a entry = some b ↔
      ∃ property, Holds entry property ∧ b = a.insert property.1 property.2)
    {entries : List β} {a : Archive} :
    entries.foldlM step empty = some a ↔
      ∃ properties, List.Forall₂ Holds entries properties ∧ a = ofList properties := by
  unfold ofList
  generalize empty = start
  induction entries generalizing start with
  | nil => simp [eq_comm]
  | cons entry rest ih =>
    rw [List.foldlM_cons, Option.bind_eq_bind, Option.bind_eq_some_iff]
    simp only [hstep, ih, List.forall₂_cons_left_iff]
    constructor
    · rintro ⟨_, ⟨property, hproperty, rfl⟩, others, hothers, rfl⟩
      exact ⟨_, ⟨property, others, hproperty, hothers, rfl⟩, rfl⟩
    · rintro ⟨_, ⟨property, others, hproperty, hothers, rfl⟩, rfl⟩
      exact ⟨_, ⟨property, hproperty, rfl⟩, others, hothers, rfl⟩

end Archive

end FlowGraph
