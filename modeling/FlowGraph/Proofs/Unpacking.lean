import Mathlib
import FlowGraph.Archive.Format
import FlowGraph.Proofs.Nesting
import FlowGraph.Proofs.Packing
import FlowGraph.Proofs.Properties

/-! Archives as MessagePack are read back as they were, by every codec that writes what stands for
an archive in the shortest form and reads it in any form. -/
namespace FlowGraph.Archive

/-- Strings, lists and objects have lengths of at most four bytes. -/
def Value.LengthsFit : Value → Prop
  | .string s => (Text.utf8 s).length < 2 ^ 32
  | .array items => items.length < 2 ^ 32
  | .object properties =>
    properties.length < 2 ^ 32 ∧ ∀ p ∈ properties, (Text.utf8 p.1).length < 2 ^ 32
  | _ => True

instance : DecidablePred Value.LengthsFit
  | .string s => inferInstanceAs (Decidable ((Text.utf8 s).length < 2 ^ 32))
  | .array items => inferInstanceAs (Decidable (items.length < 2 ^ 32))
  | .object properties => inferInstanceAs (Decidable
      (properties.length < 2 ^ 32 ∧ ∀ p ∈ properties, (Text.utf8 p.1).length < 2 ^ 32))
  | .bool _ | .int _ | .uint _ | .float _ => .isTrue trivial

def LengthsFit (a : Archive) : Prop := ∀ w ∈ a.parts, w.LengthsFit

instance (a : Archive) : Decidable a.LengthsFit :=
  inferInstanceAs (Decidable (∀ w ∈ a.parts, w.LengthsFit))

section Writing

theorem itemsToMessagePack_eq (items : List Value) :
    itemsToMessagePack items = items.map Value.toMessagePack := by
  induction items with
  | nil => rfl
  | cons item rest ih => rw [itemsToMessagePack, ih, List.map_cons]

theorem propertiesToMessagePack_eq (properties : List (String × Value)) :
    propertiesToMessagePack properties =
      properties.map fun p => (packedName p.1, p.2.toMessagePack) := by
  induction properties with
  | nil => rfl
  | cons p rest ih => rw [propertiesToMessagePack, ih, List.map_cons]

open MessagePack (form_writeStr form_writeInt form_writeArray form_writeMap)

theorem form_packedName {name : String} (h : (Text.utf8 name).length < 2 ^ 32) :
    (packedName name).Form (packedName name).write :=
  form_writeStr h

theorem form_taggedPack (kind : Kind) {content : MessagePack} (h : content.Form content.write) :
    (taggedPack kind content).Form (taggedPack kind content).write := by
  have hname : (packedName kind.name).Form (packedName kind.name).write := by
    cases kind <;> exact form_packedName (by decide)
  refine form_writeMap (show 2 < 2 ^ 32 by decide) ?_ ?_
  · exact List.forall_mem_cons.mpr ⟨form_packedName (by decide),
      List.forall_mem_singleton.mpr (form_packedName (by decide))⟩
  · exact List.forall_mem_cons.mpr ⟨hname, List.forall_mem_singleton.mpr h⟩

theorem form_ofUInt64 (n : UInt64) :
    (MessagePack.ofUInt64 n).Form (MessagePack.ofUInt64 n).write :=
  .uint (MessagePack.Width.lt_limit_least n.toNat_lt)

theorem form_ofInt64 (n : Int64) : (MessagePack.ofInt64 n).Form (MessagePack.ofInt64 n).write := by
  unfold MessagePack.ofInt64
  split
  case isTrue => exact form_writeInt n
  case isFalse => exact form_ofUInt64 _

theorem form_properties {properties : List (String × Value)}
    (h : (Value.object properties).LengthsFit)
    (hitems : ∀ p ∈ properties, p.2.toMessagePack.Form p.2.toMessagePack.write) :
    (MessagePack.map (propertiesToMessagePack properties)).Form
      (MessagePack.map (propertiesToMessagePack properties)).write := by
  rw [propertiesToMessagePack_eq]
  refine form_writeMap ((List.length_map _).trans_lt h.1) ?_ ?_
  · exact List.forall_mem_map.mpr fun p hp => form_packedName (h.2 p hp)
  · exact List.forall_mem_map.mpr hitems

/-- What is written for a value is one of its forms, if lengths fit. By induction on the value. -/
theorem Value.form_toMessagePack {v : Value} (h : ∀ w ∈ v.parts, w.LengthsFit) :
    v.toMessagePack.Form v.toMessagePack.write := by
  induction v using Value.induct with
  | bool b => exact form_taggedPack _ (.bool b)
  | int n => exact form_taggedPack _ (form_ofInt64 n)
  | uint n => exact form_taggedPack _ (form_ofUInt64 n)
  | float x => exact form_taggedPack _ (.double x)
  | string s => exact form_taggedPack _ (form_packedName (h _ (List.mem_singleton.mpr rfl)))
  | array items ih =>
    obtain ⟨hlength, hitems⟩ := forall_parts_array.mp h
    rw [Value.toMessagePack, itemsToMessagePack_eq]
    refine form_taggedPack _ (form_writeArray ((List.length_map _).trans_lt hlength) ?_)
    exact List.forall_mem_map.mpr fun item hitem => ih item hitem (hitems item hitem)
  | object properties ih =>
    obtain ⟨hlength, hitems⟩ := forall_parts_object.mp h
    exact form_taggedPack _ (form_properties hlength fun p hp => ih p hp (hitems p hp))

theorem form_toMessagePack {a : Archive} (h : a.LengthsFit) :
    a.toMessagePack.Form a.toMessagePack.write := by
  obtain ⟨hlength, hitems⟩ := forall_parts_object.mp h
  exact form_properties hlength fun p hp => Value.form_toMessagePack (hitems p hp)

end Writing

section Levels

theorem nestsWithin_taggedPack (kind : Kind) (content : MessagePack) (depth : Nat) :
    (taggedPack kind content).nestsWithin (depth + 1) = content.nestsWithin depth := by
  cases depth <;> simp [taggedPack, packedName, MessagePack.nestsWithin]

/-- The map around a kind takes a level. -/
theorem pos_of_nestsWithin_taggedPack {kind : Kind} {content : MessagePack} {depth : Nat}
    (h : (taggedPack kind content).nestsWithin depth = true) : ∃ inner, depth = inner + 1 := by
  cases depth with
  | zero => simp [taggedPack, MessagePack.nestsWithin] at h
  | succ inner => exact ⟨inner, rfl⟩

/-- A list or a map inside takes another. -/
theorem two_le_of_nestsWithin_taggedPack {kind : Kind} {content : MessagePack} {depth : Nat}
    (hcontent : content.nestsWithin 0 = false)
    (h : (taggedPack kind content).nestsWithin depth = true) : ∃ inner, depth = inner + 2 := by
  obtain ⟨outer, rfl⟩ := pos_of_nestsWithin_taggedPack h
  rw [nestsWithin_taggedPack] at h
  cases outer with
  | zero => exact absurd (hcontent.symm.trans h) Bool.false_ne_true
  | succ inner => exact ⟨inner, rfl⟩

theorem nestsWithin_entries {α : Type} {entries : List α} {name : α → String}
    {pack : α → MessagePack} {depth : Nat} :
    (MessagePack.map (entries.map fun entry => (packedName (name entry), pack entry))).nestsWithin
        (depth + 1) = true ↔
      ∀ entry ∈ entries, (pack entry).nestsWithin depth = true := by
  have hname : ∀ name, (packedName name).nestsWithin depth = true := by
    intro name
    cases depth <;> rfl
  simp [MessagePack.nestsWithin, hname]

theorem nestsWithin_properties {properties : List (String × Value)} {depth : Nat} :
    (MessagePack.map (propertiesToMessagePack properties)).nestsWithin (depth + 1) = true ↔
      ∀ p ∈ properties, p.2.toMessagePack.nestsWithin depth = true := by
  rw [propertiesToMessagePack_eq]
  exact nestsWithin_entries

/-- The lists and maps of the stored form are those that are counted. -/
theorem Value.nestsWithin_toMessagePack (v : Value) (depth : Nat) :
    v.toMessagePack.nestsWithin depth = true ↔ v.nesting ≤ depth := by
  induction v using Value.induct generalizing depth with
  | array items ih =>
    match depth with
    | 0 => simp [Value.toMessagePack, taggedPack, MessagePack.nestsWithin, Value.nesting]
    | 1 =>
      simp [Value.toMessagePack, nestsWithin_taggedPack, MessagePack.nestsWithin, Value.nesting]
    | depth + 2 =>
      rw [Value.toMessagePack, nestsWithin_taggedPack, itemsToMessagePack_eq, Value.nesting,
        Nat.add_le_add_iff_right, nestingOfItems_le]
      simp only [MessagePack.nestsWithin, List.all_eq_true, List.forall_mem_map]
      exact forall₂_congr fun item hitem => ih item hitem depth
  | object properties ih =>
    match depth with
    | 0 => simp [Value.toMessagePack, taggedPack, MessagePack.nestsWithin, Value.nesting]
    | 1 =>
      simp [Value.toMessagePack, nestsWithin_taggedPack, MessagePack.nestsWithin, Value.nesting]
    | depth + 2 =>
      rw [Value.toMessagePack, nestsWithin_taggedPack, nestsWithin_properties, Value.nesting,
        Nat.add_le_add_iff_right, nestingOfProperties_le]
      exact forall₂_congr fun p hp => ih p hp depth
  | int n =>
    have hnumber : ∀ depth, (MessagePack.ofInt64 n).nestsWithin depth = true := by
      intro depth
      unfold MessagePack.ofInt64
      split <;> cases depth <;> rfl
    cases depth with
    | zero => simp [Value.toMessagePack, taggedPack, MessagePack.nestsWithin, Value.nesting]
    | succ depth => simp [Value.toMessagePack, nestsWithin_taggedPack, hnumber, Value.nesting]
  | _ =>
    cases depth with
    | zero => simp [Value.toMessagePack, taggedPack, MessagePack.nestsWithin, Value.nesting]
    | succ depth =>
      cases depth <;> simp [Value.toMessagePack, nestsWithin_taggedPack, MessagePack.nestsWithin,
        Value.nesting, MessagePack.ofUInt64, packedName]

theorem nestsWithin_toMessagePack (a : Archive) (depth : Nat) :
    a.toMessagePack.nestsWithin depth = true ↔ a.nesting ≤ depth := by
  cases depth with
  | zero => simp [toMessagePack, MessagePack.nestsWithin, nesting]
  | succ depth =>
    rw [toMessagePack, nestsWithin_properties, nesting, Nat.add_le_add_iff_right,
      nestingOfProperties_le]
    exact forall₂_congr fun p _ => p.2.nestsWithin_toMessagePack depth

end Levels

section Meaning

/-- The objects that stand for a value: maps of a kind and of a content of that kind. A number may
be stored with a sign or without one, and of two properties with one name the later counts. -/
inductive Value.PackedAs : Value → MessagePack → Prop
  | bool (b : Bool) : (Value.bool b).PackedAs (taggedPack .bool (.bool b))
  | int (n : Int64) : (Value.int n).PackedAs (taggedPack .int (.int n))
  | unsignedInt {n : Int64} {width : MessagePack.Width} {m : UInt64}
    (h : (m.toNat : Int) = n.toInt) :
    (Value.int n).PackedAs (taggedPack .int (.uint width m))
  | uint (n : UInt64) (width : MessagePack.Width) :
    (Value.uint n).PackedAs (taggedPack .uint (.uint width n))
  | signedUInt {n : UInt64} {m : Int64} (h : m.toInt = n.toNat) :
    (Value.uint n).PackedAs (taggedPack .uint (.int m))
  | float (x : Binary .double) : (Value.float x).PackedAs (taggedPack .float (.double x))
  | string (s : String) : (Value.string s).PackedAs (taggedPack .string (packedName s))
  | array {items : List (Value × MessagePack)} (h : ∀ item ∈ items, item.1.PackedAs item.2) :
    (Value.array (items.map Prod.fst)).PackedAs
      (taggedPack .array (.array (items.map Prod.snd)))
  | object {entries : List (String × Value × MessagePack)}
    (h : ∀ entry ∈ entries, entry.2.1.PackedAs entry.2.2) :
    (Archive.ofList (entries.map fun entry => (entry.1, entry.2.1))).toValue.PackedAs
      (taggedPack .object (.map (entries.map fun entry => (packedName entry.1, entry.2.2))))

/-- The objects that stand for an archive. -/
def PackedAs (a : Archive) (pack : MessagePack) : Prop :=
  ∃ entries : List (String × Value × MessagePack),
    (∀ entry ∈ entries, entry.2.1.PackedAs entry.2.2) ∧
    a = ofList (entries.map fun entry => (entry.1, entry.2.1)) ∧
    pack = .map (entries.map fun entry => (packedName entry.1, entry.2.2))

/-- A number that is not negative is stored without a sign. -/
theorem Value.packedAs_ofInt64 (n : Int64) :
    (Value.int n).PackedAs (taggedPack .int (.ofInt64 n)) := by
  unfold MessagePack.ofInt64
  split
  case isTrue => exact .int n
  case isFalse hn =>
    have hnonneg : 0 ≤ n := Int64.not_lt.mp hn
    refine .unsignedInt ?_
    rw [Int64.toNat_toUInt64_of_le hnonneg, Int64.cast_toNatClampNeg n hnonneg]

/-- Properties in order stand for themselves. -/
theorem packedAs_properties {properties : List (String × Value)}
    (h : properties.Pairwise fun p q => p.1 < q.1)
    (hitems : ∀ p ∈ properties, p.2.PackedAs p.2.toMessagePack) :
    PackedAs ⟨properties⟩ (.map (propertiesToMessagePack properties)) := by
  refine ⟨properties.map fun p => (p.1, p.2, p.2.toMessagePack),
    List.forall_mem_map.mpr hitems, ?_, ?_⟩
  · rw [List.map_map]
    exact ((congrArg ofList (List.map_id properties)).trans (ofList_of_ascending h)).symm
  · rw [List.map_map, propertiesToMessagePack_eq]
    rfl

theorem Value.packedAs_toMessagePack {v : Value} (h : v.Ordered) :
    v.PackedAs v.toMessagePack := by
  induction v using Value.induct with
  | bool b => exact .bool b
  | int n => exact packedAs_ofInt64 n
  | uint n => exact .uint n _
  | float x => exact .float x
  | string s => exact .string s
  | array items ih =>
    have hitems : ∀ item ∈ items.map fun v => (v, v.toMessagePack), item.1.PackedAs item.2 :=
      List.forall_mem_map.mpr fun item hitem => ih item hitem (ordered_array.mp h item hitem)
    have harray := PackedAs.array hitems
    rw [List.map_map, List.map_map] at harray
    rw [Value.toMessagePack, itemsToMessagePack_eq]
    exact (congrArg Value.array (List.map_id items)).symm ▸ harray
  | object properties ih =>
    obtain ⟨hascending, hordered⟩ := ordered_object.mp h
    obtain ⟨entries, hentries, hvalue, hpack⟩ :=
      packedAs_properties hascending fun p hp => ih p hp (hordered p hp)
    have hobject := PackedAs.object hentries
    rw [← hvalue, ← hpack] at hobject
    exact hobject

theorem packedAs_toMessagePack {a : Archive} (h : a.Ordered) : a.PackedAs a.toMessagePack := by
  obtain ⟨hascending, hordered⟩ := ordered_object.mp h
  exact packedAs_properties hascending fun p hp => Value.packedAs_toMessagePack (hordered p hp)

end Meaning

/-- What is known of a MessagePack codec. What stands for an archive is written in the shortest form
of every length and number, a float as a double, and is read in any form, if lists and maps do not
nest deeper than `depth`. What follows is not looked at. -/
structure Codec.Packs (c : Codec) (depth : Nat) : Prop where
  write {a : Archive} (h : a.LengthsFit) : c.write a = some a.toMessagePack.write
  read {a : Archive} {pack : MessagePack} {bytes : List UInt8} (hpack : a.PackedAs pack)
    (hform : pack.Form bytes) (hdepth : pack.nestsWithin depth = true) (text : List UInt8) :
    c.read (bytes ++ text) = some a

section Reading

theorem packedParts?_taggedPack (held : Bool) (kind : Kind) (content : MessagePack) :
    packedParts? held (taggedPack kind content) =
      some ⟨.kindFirst, packedName kind.name, content, []⟩ := by
  have hkind : (Label.name (Text.utf8 "type")).field = .kind := by
    rw [Label.field, Text.ofUtf8?_utf8]
    rfl
  have hcontent : (Label.name (Text.utf8 "value")).field = .content := by
    rw [Label.field, Text.ofUtf8?_utf8]
    rfl
  simp [packedParts?, taggedPack, packedName, label?, hkind, hcontent]
  rfl

theorem ofName?_name (kind : Kind) : Kind.ofName? kind.name = some kind := by
  cases kind <;> rfl

theorem packedKind?_packedName (held : Bool) (kind : Kind) :
    packedKind? held .kindFirst (packedName kind.name) = some kind := by
  have hkind : (Label.name (Text.utf8 kind.name)).kind? = Kind.ofName? kind.name := by
    simp only [Label.kind?, Text.ofUtf8?_utf8, Option.bind_eq_bind, Option.bind_some]
  exact hkind.trans (ofName?_name kind)

theorem packedString?_packedName (name : String) : packedString? (packedName name) = some name :=
  Text.ofUtf8?_utf8 name

theorem propertiesOfPack?_some {readValue : MessagePack → Option Value}
    {entries : List (MessagePack × MessagePack)} {a : Archive} :
    propertiesOfPack? readValue entries = some a ↔
      ∃ properties, List.Forall₂ (fun entry property => packedString? entry.1 = some property.1 ∧
        readValue entry.2 = some property.2) entries properties ∧ a = ofList properties := by
  refine foldlM_insert_some fun a entry b => ?_
  simp only [Option.bind_eq_bind, Option.bind_eq_some_iff, Option.pure_def, Option.some.injEq,
    Prod.exists]
  constructor
  · rintro ⟨name, hname, value, hvalue, rfl⟩
    exact ⟨name, value, ⟨hname, hvalue⟩, rfl⟩
  · rintro ⟨name, value, ⟨hname, hvalue⟩, rfl⟩
    exact ⟨name, hname, value, hvalue, rfl⟩

/-- A kind that comes before its content decides what the content is read as. -/
theorem Value.ofMessagePack?_taggedPack (held : Bool) (kind : Kind) (content : MessagePack)
    (depth : Nat) :
    Value.ofMessagePack? held (depth + 1) (taggedPack kind content) =
      Value.ofPackedContent? held (match depth with
        | 0 => none
        | inner + 1 => some (Value.ofMessagePack? held inner)) kind content := by
  rw [Value.ofMessagePack?, packedParts?_taggedPack, Option.bind_eq_bind, Option.bind_some,
    packedKind?_packedName, Option.bind_eq_bind, Option.bind_some]
  cases held <;> rfl

theorem Value.ofPackedContent?_unsigned (held : Bool)
    (inside : Option (MessagePack → Option Value)) (width : MessagePack.Width) {n : Int64}
    {m : UInt64} (h : (m.toNat : Int) = n.toInt) :
    Value.ofPackedContent? held inside .int (.uint width m) = some (.int n) := by
  have hle : (m.toNat : Int) ≤ Int64.maxValue.toInt := h.le.trans (Int64.toInt_le n)
  have hread : Value.ofPackedContent? held inside .int (.uint width m) =
    if (m.toNat : Int) ≤ Int64.maxValue.toInt then some (.int (Int64.ofInt m.toNat))
    else none := rfl
  rw [hread, if_pos hle, h, Int64.ofInt_toInt]

theorem Value.ofPackedContent?_signed (held : Bool)
    (inside : Option (MessagePack → Option Value)) {n : UInt64} {m : Int64}
    (h : m.toInt = n.toNat) :
    Value.ofPackedContent? held inside .uint (.int m) = some (.uint n) := by
  have hread : Value.ofPackedContent? held inside .uint (.int m) =
    if 0 ≤ m.toInt then some (.uint (UInt64.ofNat m.toInt.toNat)) else none := rfl
  rw [hread, if_pos (h.ge.trans' (Int.natCast_nonneg _)), h, Int.toNat_natCast, UInt64.ofNat_toNat]

theorem propertiesOfPack?_of {readValue : MessagePack → Option Value}
    {entries : List (String × Value × MessagePack)}
    (h : ∀ entry ∈ entries, readValue entry.2.2 = some entry.2.1) :
    propertiesOfPack? readValue (entries.map fun entry => (packedName entry.1, entry.2.2)) =
      some (ofList (entries.map fun entry => (entry.1, entry.2.1))) := by
  refine propertiesOfPack?_some.mpr ⟨_, ?_, rfl⟩
  rw [List.forall₂_map_left_iff, List.forall₂_map_right_iff, List.forall₂_same]
  exact fun entry hentry => ⟨packedString?_packedName entry.1, h entry hentry⟩

/-- What stands for a value is read as the value, if so many levels may nest. By induction on what
stands for it; lists and objects leave a level less for what is inside them. -/
theorem Value.PackedAs.read {v : Value} {pack : MessagePack} (h : v.PackedAs pack) {depth : Nat}
    (hdepth : pack.nestsWithin depth = true) (held : Bool) :
    Value.ofMessagePack? held depth pack = some v := by
  induction h generalizing depth with
  | array h ih =>
    obtain ⟨depth, rfl⟩ := two_le_of_nestsWithin_taggedPack rfl hdepth
    rw [nestsWithin_taggedPack, MessagePack.nestsWithin, List.all_eq_true,
      List.forall_mem_map] at hdepth
    rw [ofMessagePack?_taggedPack]
    refine congrArg (Option.map Value.array) (mapM_some.mpr ?_)
    rw [List.forall₂_map_left_iff, List.forall₂_map_right_iff, List.forall₂_same]
    exact fun item hitem => ih item hitem (hdepth item hitem)
  | object h ih =>
    obtain ⟨depth, rfl⟩ := two_le_of_nestsWithin_taggedPack rfl hdepth
    rw [nestsWithin_taggedPack, nestsWithin_entries] at hdepth
    rw [ofMessagePack?_taggedPack]
    exact congrArg (Option.map toValue)
      (propertiesOfPack?_of fun entry hentry => ih entry hentry (hdepth entry hentry))
  | unsignedInt h =>
    obtain ⟨depth, rfl⟩ := pos_of_nestsWithin_taggedPack hdepth
    exact (ofMessagePack?_taggedPack ..).trans (ofPackedContent?_unsigned held _ _ h)
  | signedUInt h =>
    obtain ⟨depth, rfl⟩ := pos_of_nestsWithin_taggedPack hdepth
    exact (ofMessagePack?_taggedPack ..).trans (ofPackedContent?_signed held _ h)
  | string s =>
    obtain ⟨depth, rfl⟩ := pos_of_nestsWithin_taggedPack hdepth
    exact (ofMessagePack?_taggedPack ..).trans
      (congrArg (Option.map Value.string) (packedString?_packedName s))
  | _ =>
    obtain ⟨depth, rfl⟩ := pos_of_nestsWithin_taggedPack hdepth
    exact ofMessagePack?_taggedPack ..

theorem PackedAs.read {a : Archive} {pack : MessagePack} (h : a.PackedAs pack)
    (hdepth : pack.nestsWithin messagePackDepth = true) : ofMessagePack? pack = some a := by
  obtain ⟨entries, hentries, rfl, rfl⟩ := h
  have hinner := nestsWithin_entries.mp hdepth
  exact propertiesOfPack?_of fun entry hentry =>
    (hentries entry hentry).read (hinner entry hentry) false

/-- What is written for an archive is read back, whatever follows it. -/
theorem Codec.Packs.read_write {c : Codec} {depth : Nat} (hcodec : c.Packs depth) {a : Archive}
    (h : a.Ordered) (hlengths : a.LengthsFit)
    (hdepth : a.toMessagePack.nestsWithin depth = true) (text : List UInt8) :
    c.read (a.toMessagePack.write ++ text) = some a :=
  hcodec.read (packedAs_toMessagePack h) (form_toMessagePack hlengths) hdepth text

/-- The library's own codec reads all that nests within its depth. -/
theorem Codecs.native_packs : (native .messagePack).Packs messagePackDepth where
  write _ := rfl
  read {a pack bytes} hpack hform hdepth text := by
    have hread : MessagePack.read (messagePackDepth + 1) (bytes ++ text) = some (pack, text) :=
      hform.read (MessagePack.nestsWithin_succ hdepth) text
    show (decodeMessagePack (bytes ++ text)).toOption = some a
    simp only [decodeMessagePack, hread, hpack.read hdepth, Option.elim_some, Except.toOption]

end Reading

namespace Codecs

variable {codecs : Codecs} {depth : Nat} {a : Archive}

/-- The bytes of an archive are read back as the archive, whatever follows them: kinds, numbers,
names and strings stay as they are. Numbers that are not negative are stored without a sign. -/
theorem decode_messagePack (hcodec : (codecs .messagePack).Packs depth) (h : a.Ordered)
    (hlengths : a.LengthsFit) (hdepth : a.toMessagePack.nestsWithin depth = true) :
    (∃ bytes, codecs.encode .messagePack a = .ok bytes ∧
      ∀ text, codecs.decode .messagePack (bytes ++ text) = .ok a) ∧
    ∀ n : Int64, 0 ≤ n →
      (Value.int n).toMessagePack = taggedPack .int (.ofUInt64 n.toUInt64) := by
  refine ⟨⟨a.toMessagePack.write, ?_, fun text => ?_⟩, fun n hn => ?_⟩
  · exact encode_ok.mpr (hcodec.write hlengths)
  · exact decode_ok.mpr (hcodec.read_write h hlengths hdepth text)
  · rw [Value.toMessagePack, MessagePack.ofInt64, if_neg (Int64.not_lt.mpr hn)]

/-- Numbers of every kind at the ends of their ranges, a NaN and a minus zero among them. -/
def extremes : Archive :=
  ⟨[("", .array [.array [], .object [("a", .int Int64.minValue), ("b", .int Int64.maxValue)]]),
    ("\"\n", .uint 18446744073709551615),
    ("é", .array [.float ⟨0x7FF8000000000001⟩, .float ⟨0x8000000000000000⟩])]⟩

theorem decode_messagePack_extremes :
    ((native .messagePack).Packs messagePackDepth ∧ extremes.Ordered ∧ extremes.LengthsFit ∧
      extremes.toMessagePack.nestsWithin messagePackDepth = true) ∧
    ∃ bytes, native.encode .messagePack extremes = .ok bytes ∧
      ∀ text, native.decode .messagePack (bytes ++ text) = .ok extremes :=
  ⟨⟨native_packs, by decide⟩,
    (decode_messagePack native_packs (by decide) (by decide) (by decide)).1⟩

end Codecs

end FlowGraph.Archive
