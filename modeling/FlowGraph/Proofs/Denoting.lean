import Mathlib
import FlowGraph.Archive.Format
import FlowGraph.Proofs.Nesting
import FlowGraph.Proofs.Parsing
import FlowGraph.Proofs.Properties

/-! What a JSON tree stands for as an archive, and what is known of a codec that writes and reads
such trees. -/
namespace FlowGraph

/-- Whether at most `depth` lists and objects nest. -/
def Json.nestsWithin : Nat → Json → Bool
  | 0, .array _ | 0, .object _ => false
  | depth + 1, .array items => items.all (nestsWithin depth)
  | depth + 1, .object members => members.all fun (_, item) => nestsWithin depth item
  | _, _ => true

/-- What a library makes of a text and of the parts of one. -/
structure Json.Library where
  parse : List UInt8 → Option Json
  /-- The digits of a number, without its sign. -/
  digits : Binary .double → Decimal.Numeral
  float? : Bool → Decimal.Numeral → Option (Binary .double)
  integer? : Bool → Decimal.Numeral → Option Int
  /-- The text within quotes. -/
  string? : List UInt8 → Option String

namespace Archive

open Json (Library Written quote)
open Decimal (Numeral)

variable {lib : Library} {digits : Binary .double → Numeral}

theorem itemsToJson_eq (digits : Binary .double → Numeral) (items : List Value) :
    itemsToJson digits items = items.map (Value.toJson digits) := by
  induction items with
  | nil => rfl
  | cons item rest ih => rw [itemsToJson, ih, List.map_cons]

theorem propertiesToJson_eq (digits : Binary .double → Numeral)
    (properties : List (String × Value)) :
    propertiesToJson digits properties =
      properties.map fun p => (quote p.1, p.2.toJson digits) := by
  induction properties with
  | nil => rfl
  | cons p rest ih => rw [propertiesToJson, ih, List.map_cons]

section Writing

theorem written_taggedJson (kind : Kind) {content : Json} (h : content.Written) :
    (taggedJson kind content).Written := by
  refine .object ?_ ?_
  · exact List.forall_mem_cons.mpr ⟨⟨"type", rfl⟩, List.forall_mem_singleton.mpr ⟨"value", rfl⟩⟩
  · exact List.forall_mem_cons.mpr ⟨.string kind.name, List.forall_mem_singleton.mpr h⟩

theorem written_properties {properties : List (String × Value)}
    (h : ∀ p ∈ properties, (p.2.toJson digits).Written) :
    (Json.object (propertiesToJson digits properties)).Written := by
  rw [propertiesToJson_eq]
  refine .object ?_ ?_
  · exact List.forall_mem_map.mpr fun p _ => ⟨p.1, rfl⟩
  · exact List.forall_mem_map.mpr h

variable (hdigits : ∀ x : Binary .double, x.isFinite = true → (digits x).WellFormed)
include hdigits

theorem Value.written_toJson (v : Value) : (v.toJson digits).Written := by
  induction v using Value.induct with
  | bool b => exact written_taggedJson _ (.bool b)
  | int n => exact written_taggedJson _ (.number _ (Numeral.wellFormed_ofNat _))
  | uint n => exact written_taggedJson _ (.number _ (Numeral.wellFormed_ofNat _))
  | float x =>
    refine written_taggedJson _ ?_
    split
    case isTrue hfinite => exact .number _ (hdigits x hfinite)
    case isFalse => exact .null
  | string s => exact written_taggedJson _ (.string s)
  | array items ih =>
    rw [Value.toJson, itemsToJson_eq]
    exact written_taggedJson _ (.array (List.forall_mem_map.mpr ih))
  | object properties ih => exact written_taggedJson _ (written_properties ih)

theorem written_toJson (a : Archive) : (a.toJson digits).Written :=
  written_properties fun p _ => p.2.written_toJson hdigits

end Writing

section Levels

theorem nestsWithin_taggedJson (kind : Kind) (content : Json) (depth : Nat) :
    (taggedJson kind content).nestsWithin (depth + 1) = content.nestsWithin depth := by
  cases depth <;> simp [taggedJson, Json.nestsWithin]

theorem nestsWithin_propertiesToJson {properties : List (String × Value)} {depth : Nat} :
    (Json.object (propertiesToJson digits properties)).nestsWithin (depth + 1) = true ↔
      ∀ p ∈ properties, (p.2.toJson digits).nestsWithin depth = true := by
  simp [Json.nestsWithin, propertiesToJson_eq]

/-- The lists and objects of the text are those that are counted. -/
theorem Value.nestsWithin_toJson (v : Value) (depth : Nat) :
    (v.toJson digits).nestsWithin depth = true ↔ v.nesting ≤ depth := by
  induction v using Value.induct generalizing depth with
  | array items ih =>
    match depth with
    | 0 => simp [Value.toJson, taggedJson, Json.nestsWithin, Value.nesting]
    | 1 => simp [Value.toJson, nestsWithin_taggedJson, Json.nestsWithin, Value.nesting]
    | depth + 2 =>
      rw [Value.toJson, nestsWithin_taggedJson, itemsToJson_eq, Value.nesting,
        Nat.add_le_add_iff_right, nestingOfItems_le]
      simp only [Json.nestsWithin, List.all_eq_true, List.forall_mem_map]
      exact forall₂_congr fun item hitem => ih item hitem depth
  | object properties ih =>
    match depth with
    | 0 => simp [Value.toJson, taggedJson, Json.nestsWithin, Value.nesting]
    | 1 => simp [Value.toJson, nestsWithin_taggedJson, Json.nestsWithin, Value.nesting]
    | depth + 2 =>
      rw [Value.toJson, nestsWithin_taggedJson, nestsWithin_propertiesToJson, Value.nesting,
        Nat.add_le_add_iff_right, nestingOfProperties_le]
      exact forall₂_congr fun p hp => ih p hp depth
  | float x =>
    cases depth with
    | zero => simp [Value.toJson, taggedJson, Json.nestsWithin, Value.nesting]
    | succ depth =>
      rw [Value.toJson, nestsWithin_taggedJson]
      split <;> cases depth <;> simp [Json.nestsWithin, Value.nesting]
  | _ =>
    cases depth with
    | zero => simp [Value.toJson, taggedJson, Json.nestsWithin, Value.nesting]
    | succ depth =>
      cases depth <;> simp [Value.toJson, nestsWithin_taggedJson, Json.nestsWithin, Value.nesting]

theorem nestsWithin_toJson (a : Archive) (depth : Nat) :
    (a.toJson digits).nestsWithin depth = true ↔ a.nesting ≤ depth := by
  cases depth with
  | zero => simp [toJson, Json.nestsWithin, nesting]
  | succ depth =>
    rw [toJson, nestsWithin_propertiesToJson, nesting, Nat.add_le_add_iff_right,
      nestingOfProperties_le]
    exact forall₂_congr fun p _ => p.2.nestsWithin_toJson depth

end Levels

section Meaning

/-- The content of a stored value, as it is written. -/
def IsTagged (kind : Kind) (content json : Json) : Prop := json = taggedJson kind content

/-- Where the content of a stored value may be: second in a list, or under its name. -/
def HasContent (lib : Library) (_ : Kind) (content json : Json) : Prop :=
  (∃ kind, json = .array [kind, content]) ∨
    ∃ members raw, json = .object members ∧ (raw, content) ∈ members ∧
      lib.string? raw = some "value"

/-- A tree stands for a value, given where its content is, and no deeper than `depth`: a list or an
object takes a level for its kind and one for itself. There is no number but from digits. -/
inductive Denotes (lib : Library) (tags : Kind → Json → Json → Prop) : Nat → Json → Value → Prop
  | bool {depth : Nat} {json : Json} {b : Bool} (h : tags .bool (.bool b) json) :
    Denotes lib tags (depth + 1) json (.bool b)
  | int {depth : Nat} {json : Json} {negative : Bool} {numeral : Numeral} {n : Int64}
    (h : tags .int (.number negative numeral) json)
    (hn : lib.integer? negative numeral = some n.toInt) :
    Denotes lib tags (depth + 1) json (.int n)
  | uint {depth : Nat} {json : Json} {negative : Bool} {numeral : Numeral} {n : UInt64}
    (h : tags .uint (.number negative numeral) json)
    (hn : lib.integer? negative numeral = some (n.toNat : Int)) :
    Denotes lib tags (depth + 1) json (.uint n)
  | float {depth : Nat} {json : Json} {negative : Bool} {numeral : Numeral} {x : Binary .double}
    (h : tags .float (.number negative numeral) json)
    (hx : lib.float? negative numeral = some x) :
    Denotes lib tags (depth + 1) json (.float x)
  | string {depth : Nat} {json : Json} {raw : List UInt8} {s : String}
    (h : tags .string (.string raw) json) (hs : lib.string? raw = some s) :
    Denotes lib tags (depth + 1) json (.string s)
  | array {depth : Nat} {json : Json} {items : List (Json × Value)}
    (h : tags .array (.array (items.map Prod.fst)) json)
    (hitems : ∀ item ∈ items, Denotes lib tags depth item.1 item.2) :
    Denotes lib tags (depth + 2) json (.array (items.map Prod.snd))
  | object {depth : Nat} {json : Json} {entries : List ((List UInt8 × Json) × String × Value)}
    (h : tags .object (.object (entries.map Prod.fst)) json)
    (hnames : ∀ entry ∈ entries, lib.string? entry.1.1 = some entry.2.1)
    (hitems : ∀ entry ∈ entries, Denotes lib tags depth entry.1.2 entry.2.2) :
    Denotes lib tags (depth + 2) json (ofList (entries.map Prod.snd)).toValue

/-- A tree stands for an archive, which takes a level itself. -/
def DenotesArchive (lib : Library) (tags : Kind → Json → Json → Prop) (depth : Nat) (json : Json)
    (a : Archive) : Prop :=
  ∃ entries : List ((List UInt8 × Json) × String × Value),
    json = .object (entries.map Prod.fst) ∧ a = ofList (entries.map Prod.snd) ∧
      (∀ entry ∈ entries, lib.string? entry.1.1 = some entry.2.1) ∧
      ∀ entry ∈ entries, Denotes lib tags (depth - 1) entry.1.2 entry.2.2

end Meaning

end Archive

/-- What is known of a library: it reads every text of a tree, every way to escape a text and the
digits of every whole number of 64 bits, and it reads a finite number back from the digits that it
prints for the number. There are no digits for a number that is not finite. -/
structure Json.Library.Lawful (lib : Library) : Prop where
  parse {json : Json} {g : Gapped} (h : json.Spells g.text) (hg : g.IsSound) :
    lib.parse g.bytes = some json
  digits {x : Binary .double} (h : x.isFinite = true) : (lib.digits x).WellFormed
  float {x : Binary .double} (h : x.isFinite = true) :
    lib.float? x.negative (lib.digits x) = some x
  finite {negative : Bool} {numeral : Decimal.Numeral} {x : Binary .double}
    (h : lib.float? negative numeral = some x) : x.isFinite = true
  integer {negative : Bool} {numeral : Decimal.Numeral} {n : Int} (h : numeral.WellFormed)
    (hwhole : numeral.isWhole = true)
    (hn : n = if negative then -(Decimal.ofDigits numeral.whole : Int)
      else Decimal.ofDigits numeral.whole)
    (hzero : negative = true → n ≠ 0) (hrange : -2 ^ 63 ≤ n ∧ n < 2 ^ 64) :
    lib.integer? negative numeral = some n
  string {s : String} {raw : List UInt8} (h : Escapes s.toList raw) : lib.string? raw = some s

/-- What is known of a JSON codec that is made with a library. It prints the tree of an archive,
line by line, with null for a number that is not finite. It reads what a tree stands for that is
formed like the printed ones, and nothing that the tree does not stand for, up to 127 levels. -/
structure Archive.Codec.Prints (c : Codec) (lib : Json.Library) : Prop where
  lawful : lib.Lawful
  write (a : Archive) : c.write a = some ((a.toJson lib.digits).write 0)
  read {text : List UInt8} {json : Json} {a : Archive} (h : lib.parse text = some json)
    (ha : DenotesArchive lib IsTagged jsonDepth json a) : c.read text = some a
  sound {text : List UInt8} {a : Archive} (h : c.read text = some a) :
    ∃ json, lib.parse text = some json ∧ DenotesArchive lib (HasContent lib) jsonDepth json a

namespace Archive

open Json (Library Written quote)
open Decimal (Numeral)

variable {lib : Library}

section Complete

variable (hlib : lib.Lawful)
include hlib

theorem string?_quote (s : String) : lib.string? (quote s) = some s :=
  hlib.string (Json.escapes_quote s)

theorem integer?_int (n : Int64) :
    lib.integer? (n < 0) (.ofNat n.toInt.natAbs) = some n.toInt := by
  have hsign : n < 0 ↔ n.toInt < 0 := Int64.lt_iff_toInt_lt
  have hvalue : Decimal.ofDigits (Numeral.ofNat n.toInt.natAbs).whole = n.toInt.natAbs :=
    Decimal.ofDigits_toDigits _
  have hlow := n.le_toInt
  have hhigh := n.toInt_lt
  -- the digits are those of the magnitude, also for the least number there is
  refine hlib.integer (Numeral.wellFormed_ofNat _) rfl ?_ ?_ ⟨by omega, by omega⟩
  · rw [hvalue]
    by_cases h : n < 0
    · rw [decide_eq_true h, if_pos rfl]
      have := hsign.mp h
      omega
    · rw [decide_eq_false h, if_neg Bool.false_ne_true]
      have := hsign.not.mp h
      omega
  · intro h
    have := hsign.mp (of_decide_eq_true h)
    omega

theorem integer?_uint (n : UInt64) :
    lib.integer? false (.ofNat n.toNat) = some (n.toNat : Int) := by
  have hvalue : Decimal.ofDigits (Numeral.ofNat n.toNat).whole = n.toNat :=
    Decimal.ofDigits_toDigits _
  have hlt : n.toNat < 2 ^ 64 := n.toNat_lt
  refine hlib.integer (Numeral.wellFormed_ofNat _) rfl ?_ nofun ⟨by omega, by omega⟩
  rw [hvalue, if_neg Bool.false_ne_true]

omit hlib in
theorem denotes_items {items : List Value} {depth : Nat}
    (h : ∀ item ∈ items, Denotes lib IsTagged depth (item.toJson lib.digits) item) :
    Denotes lib IsTagged (depth + 2)
      (taggedJson .array (.array (items.map (Value.toJson lib.digits)))) (.array items) := by
  have harray := @Denotes.array lib IsTagged depth _
    (items.map fun item => (item.toJson lib.digits, item)) rfl (List.forall_mem_map.mpr h)
  rw [List.map_map, List.map_map] at harray
  exact (congrArg Value.array (List.map_id items)) ▸ harray

theorem denotesArchive_properties {properties : List (String × Value)} {depth : Nat}
    (h : properties.Pairwise fun p q => p.1 < q.1)
    (hitems : ∀ p ∈ properties, Denotes lib IsTagged (depth - 1) (p.2.toJson lib.digits) p.2) :
    DenotesArchive lib IsTagged depth (.object (propertiesToJson lib.digits properties))
      ⟨properties⟩ := by
  refine ⟨properties.map fun p => ((quote p.1, p.2.toJson lib.digits), p), ?_, ?_,
    List.forall_mem_map.mpr fun p _ => string?_quote hlib p.1, List.forall_mem_map.mpr hitems⟩
  · rw [propertiesToJson_eq, List.map_map]
    rfl
  · rw [List.map_map]
    exact ((congrArg ofList (List.map_id properties)).trans (ofList_of_ascending h)).symm

/-- The tree of an ordered value with finite numbers stands for the value, if it is no deeper than
may be. By induction on the value, two levels for a list or an object. -/
theorem Value.denotes_toJson {v : Value} (h : v.Ordered) (hfinite : v.Finite) {depth : Nat}
    (hdepth : v.nesting ≤ depth) :
    Denotes lib IsTagged depth (v.toJson lib.digits) v := by
  induction v using Value.induct generalizing depth with
  | bool b =>
    obtain ⟨depth, rfl⟩ := Nat.exists_eq_add_of_le' hdepth
    exact .bool rfl
  | int n =>
    obtain ⟨depth, rfl⟩ := Nat.exists_eq_add_of_le' hdepth
    exact .int rfl (integer?_int hlib n)
  | uint n =>
    obtain ⟨depth, rfl⟩ := Nat.exists_eq_add_of_le' hdepth
    exact .uint rfl (integer?_uint hlib n)
  | float x =>
    obtain ⟨depth, rfl⟩ := Nat.exists_eq_add_of_le' hdepth
    have hx := finite_float.mp hfinite
    rw [Value.toJson, if_pos hx]
    exact .float rfl (hlib.float hx)
  | string s =>
    obtain ⟨depth, rfl⟩ := Nat.exists_eq_add_of_le' hdepth
    exact .string rfl (string?_quote hlib s)
  | array items ih =>
    obtain ⟨depth, rfl⟩ := Nat.exists_eq_add_of_le' (Nat.le_of_add_left_le hdepth)
    have hinner := nestingOfItems_le.mp (Nat.add_le_add_iff_right.mp hdepth)
    rw [Value.toJson, itemsToJson_eq]
    exact denotes_items fun item hitem => ih item hitem (ordered_array.mp h item hitem)
      (finite_array.mp hfinite item hitem) (hinner item hitem)
  | object properties ih =>
    obtain ⟨depth, rfl⟩ := Nat.exists_eq_add_of_le' (Nat.le_of_add_left_le hdepth)
    -- the object around the properties is an archive one level below the kind
    have hinner := nestingOfProperties_le.mp (Nat.add_le_add_iff_right.mp hdepth)
    obtain ⟨hascending, hordered⟩ := ordered_object.mp h
    obtain ⟨entries, hjson, hvalue, hnames, hitems⟩ :=
      @denotesArchive_properties lib hlib properties (depth + 1) hascending fun p hp =>
        ih p hp (hordered p hp) (finite_object.mp hfinite p hp) (hinner p hp)
    have hobject := @Denotes.object lib IsTagged depth _ entries rfl hnames hitems
    rw [← hjson, ← hvalue] at hobject
    exact hobject

theorem denotesArchive_toJson {a : Archive} (h : a.Ordered) (hfinite : a.Finite)
    (hdepth : a.nesting ≤ jsonDepth) :
    DenotesArchive lib IsTagged jsonDepth (a.toJson lib.digits) a := by
  obtain ⟨hascending, hordered⟩ := ordered_object.mp h
  have hinner := nestingOfProperties_le.mp (Nat.le_sub_one_of_lt hdepth)
  exact denotesArchive_properties hlib hascending fun p hp =>
    Value.denotes_toJson hlib (hordered p hp) (finite_object.mp hfinite p hp) (hinner p hp)

end Complete

section Sound

variable {tags : Kind → Json → Json → Prop} {depth : Nat} {json : Json}

/-- A level is left for the content, which is not null, and one more for what is inside it. -/
theorem Denotes.content {v : Value} (h : Denotes lib tags depth json v) :
    ∃ kind content inner, depth = inner + 1 ∧ tags kind content json ∧ content ≠ .null ∧
      (∀ items, content = .array items → ∃ deeper, inner = deeper + 1 ∧
        ∀ item ∈ items, ∃ w, Denotes lib tags deeper item w) ∧
      ∀ members, content = .object members → ∃ deeper, inner = deeper + 1 ∧
        ∀ m ∈ members, ∃ w, Denotes lib tags deeper m.2 w := by
  cases h with
  | bool h => exact ⟨_, _, _, rfl, h, nofun, nofun, nofun⟩
  | int h => exact ⟨_, _, _, rfl, h, nofun, nofun, nofun⟩
  | uint h => exact ⟨_, _, _, rfl, h, nofun, nofun, nofun⟩
  | float h => exact ⟨_, _, _, rfl, h, nofun, nofun, nofun⟩
  | string h => exact ⟨_, _, _, rfl, h, nofun, nofun, nofun⟩
  | array h hitems =>
    refine ⟨_, _, _, rfl, h, nofun, fun items heq => ⟨_, rfl, ?_⟩, nofun⟩
    cases heq
    exact List.forall_mem_map.mpr fun item hitem => ⟨item.2, hitems item hitem⟩
  | object h hnames hitems =>
    refine ⟨_, _, _, rfl, h, nofun, nofun, fun members heq => ⟨_, rfl, ?_⟩⟩
    cases heq
    exact List.forall_mem_map.mpr fun entry hentry => ⟨entry.2.2, hitems entry hentry⟩

theorem finite_scalar (v : Value) (hparts : v.parts = [v]) (h : v.FloatIsFinite) : v.Finite := by
  rw [Value.Finite, hparts]
  exact List.forall_mem_singleton.mpr h

section

variable (hlib : lib.Lawful)
include hlib

theorem hasContent_taggedJson {kind kind' : Kind} {content content' : Json}
    (h : HasContent lib kind' content' (taggedJson kind content)) : content' = content := by
  rcases h with ⟨_, h⟩ | ⟨members, raw, h, hmem, hname⟩
  · cases h
  · cases h
    rcases List.mem_pair.mp hmem with h | h <;> cases h
    · rw [string?_quote hlib] at hname
      exact absurd (Option.some.inj hname) (by decide)
    · rfl

theorem Denotes.content_taggedJson {kind : Kind} {content : Json} {w : Value}
    (h : Denotes lib (HasContent lib) depth (taggedJson kind content) w) :
    ∃ inner, depth = inner + 1 ∧ content ≠ .null ∧
      (∀ items, content = .array items → ∃ deeper, inner = deeper + 1 ∧
        ∀ item ∈ items, ∃ w, Denotes lib (HasContent lib) deeper item w) ∧
      ∀ members, content = .object members → ∃ deeper, inner = deeper + 1 ∧
        ∀ m ∈ members, ∃ w, Denotes lib (HasContent lib) deeper m.2 w := by
  obtain ⟨_, content', inner, hdepth, htag, hcontent⟩ := h.content
  cases hasContent_taggedJson hlib htag
  exact ⟨inner, hdepth, hcontent⟩

/-- A tree that stands for anything was made from finite numbers, and is no deeper than may be. By
induction on the value that it was made from. -/
theorem Value.of_denotes_toJson {digits : Binary .double → Numeral} {v w : Value} {depth : Nat}
    (h : Denotes lib (HasContent lib) depth (v.toJson digits) w) :
    v.Finite ∧ v.nesting ≤ depth := by
  induction v using Value.induct generalizing depth w with
  | array items ih =>
    rw [Value.toJson, itemsToJson_eq] at h
    obtain ⟨_, rfl, -, harray, -⟩ := h.content_taggedJson hlib
    obtain ⟨depth, rfl, hitems⟩ := harray _ rfl
    have hall : ∀ item ∈ items, item.Finite ∧ item.nesting ≤ depth := fun item hitem =>
      let ⟨_, hw⟩ := hitems _ (List.mem_map_of_mem hitem)
      ih item hitem hw
    rw [finite_array, Value.nesting, Nat.add_le_add_iff_right, nestingOfItems_le]
    exact forall₂_and.mp hall
  | object properties ih =>
    rw [Value.toJson, propertiesToJson_eq] at h
    obtain ⟨_, rfl, -, -, hobject⟩ := h.content_taggedJson hlib
    obtain ⟨depth, rfl, hitems⟩ := hobject _ rfl
    have hall : ∀ p ∈ properties, p.2.Finite ∧ p.2.nesting ≤ depth := fun p hp =>
      let ⟨_, hw⟩ := hitems _ (List.mem_map_of_mem hp)
      ih p hp hw
    rw [finite_object, Value.nesting, Nat.add_le_add_iff_right, nestingOfProperties_le]
    exact forall₂_and.mp hall
  | float x =>
    rw [Value.toJson] at h
    obtain ⟨inner, rfl, hnull, -⟩ := h.content_taggedJson hlib
    have hfinite : x.isFinite = true := by
      by_contra hx
      exact hnull (if_neg hx)
    exact ⟨finite_float.mpr hfinite, Nat.le_add_left 1 inner⟩
  | bool b =>
    obtain ⟨_, _, inner, rfl, -⟩ := h.content
    exact ⟨finite_scalar (.bool b) rfl trivial, Nat.le_add_left 1 inner⟩
  | int n =>
    obtain ⟨_, _, inner, rfl, -⟩ := h.content
    exact ⟨finite_scalar (.int n) rfl trivial, Nat.le_add_left 1 inner⟩
  | uint n =>
    obtain ⟨_, _, inner, rfl, -⟩ := h.content
    exact ⟨finite_scalar (.uint n) rfl trivial, Nat.le_add_left 1 inner⟩
  | string s =>
    obtain ⟨_, _, inner, rfl, -⟩ := h.content
    exact ⟨finite_scalar (.string s) rfl trivial, Nat.le_add_left 1 inner⟩

theorem of_denotesArchive_toJson {digits : Binary .double → Numeral} {a b : Archive}
    (h : DenotesArchive lib (HasContent lib) jsonDepth (a.toJson digits) b) :
    a.Finite ∧ a.nesting ≤ jsonDepth := by
  obtain ⟨entries, hjson, -, -, hitems⟩ := h
  have hmembers : propertiesToJson digits a.properties = entries.map Prod.fst :=
    Json.object.inj hjson
  rw [propertiesToJson_eq] at hmembers
  have hall : ∀ p ∈ a.properties, p.2.Finite ∧ p.2.nesting ≤ jsonDepth - 1 := by
    intro p hp
    obtain ⟨entry, hentry, heq⟩ := List.mem_map.mp (hmembers ▸ List.mem_map_of_mem hp)
    have hdenotes := hitems entry hentry
    rw [heq] at hdenotes
    exact Value.of_denotes_toJson hlib hdenotes
  have hnesting : a.nesting ≤ jsonDepth ↔ nestingOfProperties a.properties ≤ jsonDepth - 1 :=
    (Nat.le_sub_iff_add_le (by decide)).symm
  rw [hnesting, nestingOfProperties_le, Archive.Finite, toValue, finite_object]
  exact forall₂_and.mp hall

/-- What is read from a text: properties in order, and numbers that are finite. -/
def Value.Readable (v : Value) : Prop := v.NamesAscend ∧ v.FloatIsFinite

omit hlib in
theorem meets_ofList {entries : List ((List UInt8 × Json) × String × Value)}
    (h : ∀ entry ∈ entries, entry.2.2.Meets Value.Readable depth) :
    (ofList (entries.map Prod.snd)).toValue.Meets Value.Readable (depth + 2) := by
  refine meets_object ⟨ascending_ofList _, trivial⟩ fun p hp => ?_
  obtain ⟨entry, hentry, rfl⟩ := List.mem_map.mp (mem_ofList hp)
  exact h entry hentry

/-- Whatever a tree stands for is ordered, finite and no deeper than may be. -/
theorem Denotes.meets {v : Value} (h : Denotes lib tags depth json v) :
    v.Meets Value.Readable depth := by
  induction h with
  | bool => exact meets_scalar (.bool _) rfl rfl ⟨trivial, trivial⟩
  | int => exact meets_scalar (.int _) rfl rfl ⟨trivial, trivial⟩
  | uint => exact meets_scalar (.uint _) rfl rfl ⟨trivial, trivial⟩
  | float _ hx => exact meets_scalar (.float _) rfl rfl ⟨trivial, hlib.finite hx⟩
  | string => exact meets_scalar (.string _) rfl rfl ⟨trivial, trivial⟩
  | array _ _ ih => exact meets_array ⟨trivial, trivial⟩ (List.forall_mem_map.mpr ih)
  | object _ _ _ ih => exact meets_ofList ih

theorem DenotesArchive.meets {a : Archive} (h : DenotesArchive lib tags jsonDepth json a) :
    a.Ordered ∧ a.Finite ∧ a.nesting ≤ jsonDepth := by
  obtain ⟨entries, -, rfl, -, hitems⟩ := h
  obtain ⟨hreadable, hnesting⟩ := meets_ofList fun entry hentry => (hitems entry hentry).meets hlib
  exact ⟨fun w hw => (hreadable w hw).1, fun w hw => (hreadable w hw).2,
    Nat.le_of_succ_le_succ hnesting⟩

end

end Sound

section Codec

variable {c : Codec} (hcodec : c.Prints lib)
include hcodec

theorem parse_write (a : Archive) :
    lib.parse ((a.toJson lib.digits).write 0) = some (a.toJson lib.digits) := by
  have hwritten := written_toJson (fun x hx => hcodec.lawful.digits hx) a
  have hparse := hcodec.lawful.parse (g := ⟨[], (a.toJson lib.digits).write 0, []⟩)
    (hwritten.spells 0) ⟨Json.isGap_nil, Json.isGap_nil⟩
  simpa [Json.Gapped.bytes] using hparse

/-- What is printed for an archive is read as the archive, or not at all. -/
theorem read_write {a b : Archive} (h : a.Ordered) :
    c.read ((a.toJson lib.digits).write 0) = some b ↔
      (a.Finite ∧ a.nesting ≤ jsonDepth) ∧ b = a := by
  have hparse := parse_write hcodec a
  have hcomplete : a.Finite ∧ a.nesting ≤ jsonDepth →
      c.read ((a.toJson lib.digits).write 0) = some a := fun ⟨hfinite, hdepth⟩ =>
    hcodec.read hparse (denotesArchive_toJson hcodec.lawful h hfinite hdepth)
  constructor
  · intro hread
    obtain ⟨json, hjson, hdenotes⟩ := hcodec.sound hread
    cases hparse.symm.trans hjson
    have ha := of_denotesArchive_toJson hcodec.lawful hdenotes
    exact ⟨ha, Option.some.inj (hread.symm.trans (hcomplete ha))⟩
  · rintro ⟨ha, rfl⟩
    exact hcomplete ha

/-- Whatever is read from a text can be printed and read again. -/
theorem read_readable {text : List UInt8} {a : Archive} (h : c.read text = some a) :
    a.Ordered ∧ a.Finite ∧ a.nesting ≤ jsonDepth := by
  obtain ⟨json, -, hdenotes⟩ := hcodec.sound h
  exact hdenotes.meets hcodec.lawful

end Codec

end Archive

end FlowGraph
