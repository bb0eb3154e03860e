import Mathlib
import FlowGraph.Proofs.Rereading
import FlowGraph.Proofs.Unpacking

/-! Codecs for archives of every size: what is known of them, and codecs that are of that kind. What
MessagePack has lengths for is written in it, and whatever is longer than that is numbered. -/
namespace FlowGraph.Archive

open Json (Library)

/-- What is known of the codecs that models of any size are saved with. MessagePack has four bytes
for a length; an archive with a longer one is taken to come back as well. -/
structure Codecs.Faithful (codecs : Codecs) (lib : Library) : Prop where
  json : (codecs .json).Prints lib
  messagePack : (codecs .messagePack).Packs messagePackDepth
  beyond {a : Archive} (h : a.Ordered) (hlong : ¬a.LengthsFit)
    (hdepth : a.nesting ≤ messagePackDepth) :
    ∃ bytes, (codecs .messagePack).write a = some bytes ∧
      (codecs .messagePack).read bytes = some a

/-- However long its strings, lists and objects are, an archive is read back from its bytes. -/
theorem Codecs.Faithful.exists_packed {codecs : Codecs} {lib : Library}
    (hcodecs : codecs.Faithful lib) {a : Archive} (h : a.Ordered)
    (hdepth : a.nesting ≤ messagePackDepth) :
    ∃ bytes, (codecs .messagePack).write a = some bytes ∧
      (codecs .messagePack).read bytes = some a := by
  by_cases hlengths : a.LengthsFit
  · have hread := hcodecs.messagePack.read_write h hlengths
      ((nestsWithin_toMessagePack a _).mpr hdepth) []
    rw [List.append_nil] at hread
    exact ⟨_, hcodecs.messagePack.write hlengths, hread⟩
  · exact hcodecs.beyond h hlengths hdepth

section Numbering

/-- The number of a string. -/
def codeOfString (s : String) : Nat := Encodable.encode (s.toList.map Char.toNat)

theorem codeOfString_inj {s t : String} (h : codeOfString s = codeOfString t) : s = t := by
  have hpoints := Encodable.encode_injective h
  have hinj : Function.Injective Char.toNat := fun c d hcd => by simpa using congrArg Char.ofNat hcd
  exact String.toList_inj.mp (List.map_injective_iff.mpr hinj hpoints)

mutual

/-- The number of a value. -/
def Value.code : Value → Nat
  | .bool b => Nat.pair 0 (Encodable.encode b)
  | .int n => Nat.pair 1 n.toBitVec.toNat
  | .uint n => Nat.pair 2 n.toNat
  | .float x => Nat.pair 3 x.bits.toNat
  | .string s => Nat.pair 4 (codeOfString s)
  | .array items => Nat.pair 5 (codeOfItems items)
  | .object properties => Nat.pair 6 (codeOfProperties properties)

def codeOfItems : List Value → Nat
  | [] => 0
  | item :: rest => Nat.pair item.code (codeOfItems rest) + 1

def codeOfProperties : List (String × Value) → Nat
  | [] => 0
  | (name, v) :: rest => Nat.pair (Nat.pair (codeOfString name) v.code) (codeOfProperties rest) + 1

end

theorem codeOfItems_inj {items items' : List Value}
    (ih : ∀ item ∈ items, ∀ w : Value, item.code = w.code → item = w)
    (h : codeOfItems items = codeOfItems items') : items = items' := by
  induction items generalizing items' with
  | nil =>
    cases items' with
    | nil => rfl
    | cons => simp [codeOfItems] at h
  | cons item rest ihrest =>
    cases items' with
    | nil => simp [codeOfItems] at h
    | cons item' rest' =>
      simp only [codeOfItems, Nat.add_right_cancel_iff, Nat.pair_eq_pair] at h
      obtain ⟨hitem, hrest⟩ := List.forall_mem_cons.mp ih
      rw [hitem item' h.1, ihrest hrest h.2]

theorem codeOfProperties_inj {properties properties' : List (String × Value)}
    (ih : ∀ p ∈ properties, ∀ w : Value, p.2.code = w.code → p.2 = w)
    (h : codeOfProperties properties = codeOfProperties properties') :
    properties = properties' := by
  induction properties generalizing properties' with
  | nil =>
    cases properties' with
    | nil => rfl
    | cons => simp [codeOfProperties] at h
  | cons p rest ihrest =>
    cases properties' with
    | nil => simp [codeOfProperties] at h
    | cons p' rest' =>
      simp only [codeOfProperties, Nat.add_right_cancel_iff, Nat.pair_eq_pair] at h
      obtain ⟨hp, hrest⟩ := List.forall_mem_cons.mp ih
      rw [Prod.ext (codeOfString_inj h.1.1) (hp p'.2 h.1.2), ihrest hrest h.2]

/-- No two values have one number. By induction on the first of them; the second one is of the same
kind, since the kinds are numbered too. -/
theorem Value.code_inj {v w : Value} (h : v.code = w.code) : v = w := by
  induction v using Value.induct generalizing w with
  | bool b =>
    cases w <;> simp only [Value.code, Nat.pair_eq_pair] at h <;> try omega
    rw [Encodable.encode_injective h.2]
  | int n =>
    cases w <;> simp only [Value.code, Nat.pair_eq_pair] at h <;> try omega
    rw [Int64.toBitVec_inj.mp (BitVec.eq_of_toNat_eq h.2)]
  | uint n =>
    cases w <;> simp only [Value.code, Nat.pair_eq_pair] at h <;> try omega
    rw [UInt64.toNat_inj.mp h.2]
  | float x =>
    cases w <;> simp only [Value.code, Nat.pair_eq_pair] at h <;> try omega
    exact congrArg (fun bits => Value.float ⟨bits⟩) (BitVec.eq_of_toNat_eq h.2)
  | string s =>
    cases w <;> simp only [Value.code, Nat.pair_eq_pair] at h <;> try omega
    rw [codeOfString_inj h.2]
  | array items ih =>
    cases w <;> simp only [Value.code, Nat.pair_eq_pair] at h <;> try omega
    rw [codeOfItems_inj (fun item hitem w => ih item hitem) h.2]
  | object properties ih =>
    cases w <;> simp only [Value.code, Nat.pair_eq_pair] at h <;> try omega
    rw [codeOfProperties_inj (fun p hp w => ih p hp) h.2]

def code (a : Archive) : Nat := codeOfProperties a.properties

theorem code_injective : Function.Injective code := fun _ _ h =>
  congrArg Archive.mk (codeOfProperties_inj (fun _ _ _ => Value.code_inj) h)

end Numbering

/-- An archive with a length that four bytes cannot hold is written as so many zeros as its number
says, behind a marker that starts nothing else. -/
noncomputable def Codecs.unbounded : Codecs
  | .json => native .json
  | .messagePack => {
      write a :=
        if a.LengthsFit then (native .messagePack).write a
        else some (0xC1 :: List.replicate a.code 0)
      read
        | 0xC1 :: rest => Function.partialInv code rest.length
        | text => (native .messagePack).read text }

/-- No form of a map starts with the marker. -/
theorem mapHeader_eq_cons {n : Nat} {header : List UInt8} (h : MessagePack.MapHeader n header) :
    ∃ b rest, header = b :: rest ∧ b ≠ 0xC1 := by
  cases h with
  | short hlt =>
    refine ⟨_, _, rfl, fun heq => ?_⟩
    have hmarker := congrArg UInt8.toNat heq
    rw [UInt8.toNat_ofNat'] at hmarker
    have hvalue : (0xC1 : UInt8).toNat = 0xC1 := rfl
    omega
  | wide h hn =>
    rcases List.mem_pair.mp h with h | h <;> cases h
    · exact ⟨_, _, rfl, by decide⟩
    · exact ⟨_, _, rfl, by decide⟩

theorem eq_cons_of_packedAs {a : Archive} {pack : MessagePack} {bytes : List UInt8}
    (hpack : a.PackedAs pack) (hform : pack.Form bytes) :
    ∃ b rest, bytes = b :: rest ∧ b ≠ 0xC1 := by
  obtain ⟨entries, -, -, rfl⟩ := hpack
  generalize hmap : MessagePack.map _ = pack at hform
  cases hform with
  | map hheader =>
    obtain ⟨b, rest, rfl, hb⟩ := mapHeader_eq_cons hheader
    exact ⟨b, _, rfl, hb⟩
  | _ => cases hmap

theorem Codecs.unbounded_faithful : unbounded.Faithful nativeLibrary where
  json := native_prints
  messagePack := {
    write hlengths := if_pos hlengths
    read {a pack bytes} hpack hform hdepth text := by
      obtain ⟨b, rest, rfl, hb⟩ := eq_cons_of_packedAs hpack hform
      have hread := native_packs.read hpack hform hdepth text
      show (match b :: (rest ++ text) with
        | 0xC1 :: rest => Function.partialInv code rest.length
        | text => (native .messagePack).read text) = some a
      split
      next heq => exact absurd (List.cons.inj heq).1 hb
      next => exact hread }
  beyond {a} _ hlong _ := by
    -- the number of an archive is all there is behind the marker
    refine ⟨_, if_neg hlong, ?_⟩
    show Function.partialInv code (List.replicate a.code 0).length = some a
    rw [List.length_replicate]
    exact Function.partialInv_left code_injective a

/-- As far as the format reaches, that is how archives are written. -/
theorem Codecs.unbounded_write {a : Archive} (h : a.LengthsFit) (format : Format) :
    (unbounded format).write a = (native format).write a := by
  cases format with
  | json => rfl
  | messagePack => exact if_pos h

end FlowGraph.Archive
