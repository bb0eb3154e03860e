import Mathlib
import FlowGraph.Json.Reader

/-! A quoted string ends at its closing quote, and without its escapes it is the string. -/
namespace FlowGraph.Json

/-- A byte that stands for itself within quotes. -/
def IsPlain (b : UInt8) : Prop := b ≠ 0x22 ∧ b ≠ 0x5C ∧ ¬b < 0x20

theorem isPlain_ofNat {n : Nat} (hn : n < 256) (hquote : n ≠ 0x22) (hescape : n ≠ 0x5C)
    (hcontrol : ¬n < 0x20) : IsPlain (UInt8.ofNat n) := by
  have htoNat : (UInt8.ofNat n).toNat = n := by
    rw [UInt8.toNat_ofNat']
    omega
  refine ⟨fun h => hquote ?_, fun h => hescape ?_, fun h => hcontrol ?_⟩
  · rw [← htoNat, h]
    rfl
  · rw [← htoNat, h]
    rfl
  · rw [← htoNat]
    exact UInt8.lt_iff_toNat_lt.mp h

theorem encode_of_le {c : Char} {n : Nat} (h : c.toNat = n) (hn : n ≤ 127) :
    String.utf8EncodeChar c = [UInt8.ofNat n] := by
  subst h
  exact if_pos hn

/-- The bytes of a character are plain: the character itself, or bytes beyond the first 128. -/
theorem isPlain_of_mem_encode {c : Char} (hquote : c ≠ '"') (hescape : c ≠ '\\')
    (hcontrol : ¬c.toNat < 0x20) : ∀ b ∈ String.utf8EncodeChar c, IsPlain b := by
  have hwide : ∀ n, 128 ≤ n → n < 256 → IsPlain (UInt8.ofNat n) := fun n hlow hhigh =>
    isPlain_ofNat hhigh (by omega) (by omega) (by omega)
  unfold String.utf8EncodeChar
  dsimp only
  split
  case isTrue hn =>
    refine List.forall_mem_singleton.mpr (isPlain_ofNat (by omega) ?_ ?_ hcontrol)
    · exact fun h => hquote (Char.ext (UInt32.toNat_inj.mp h))
    · exact fun h => hescape (Char.ext (UInt32.toNat_inj.mp h))
  case isFalse =>
    split
    case isTrue =>
      exact List.forall_mem_cons.mpr ⟨hwide _ (by omega) (by omega),
        List.forall_mem_singleton.mpr (hwide _ (by omega) (by omega))⟩
    case isFalse =>
      split
      case isTrue =>
        exact List.forall_mem_cons.mpr ⟨hwide _ (by omega) (by omega),
          List.forall_mem_cons.mpr ⟨hwide _ (by omega) (by omega),
            List.forall_mem_singleton.mpr (hwide _ (by omega) (by omega))⟩⟩
      case isFalse =>
        exact List.forall_mem_cons.mpr ⟨hwide _ (by omega) (by omega),
          List.forall_mem_cons.mpr ⟨hwide _ (by omega) (by omega),
            List.forall_mem_cons.mpr ⟨hwide _ (by omega) (by omega),
              List.forall_mem_singleton.mpr (hwide _ (by omega) (by omega))⟩⟩⟩

/-- A letter after a backslash stands for the character it was chosen for. -/
theorem shortEscape?_some {c : Char} {letter : UInt8} (h : shortEscape? c = some letter) :
    ∃ b, escaped? letter = some b ∧ String.utf8EncodeChar c = [b] := by
  unfold shortEscape? at h
  split_ifs at h with hquote hescape hbackspace htab hline hpage hreturn <;> cases h
  · exact ⟨0x22, rfl, hquote ▸ rfl⟩
  · exact ⟨0x5C, rfl, hescape ▸ rfl⟩
  · exact ⟨8, rfl, encode_of_le hbackspace (by decide)⟩
  · exact ⟨9, rfl, encode_of_le htab (by decide)⟩
  · exact ⟨10, rfl, encode_of_le hline (by decide)⟩
  · exact ⟨12, rfl, encode_of_le hpage (by decide)⟩
  · exact ⟨13, rfl, encode_of_le hreturn (by decide)⟩

/-- A character is escaped by a letter or by its code, or stands for itself. -/
theorem quoteChar_cases (c : Char) :
    (∃ letter b, quoteChar c = [0x5C, letter] ∧ escaped? letter = some b ∧
      String.utf8EncodeChar c = [b]) ∨
    (c.toNat < 0x20 ∧ quoteChar c =
      [0x5C, 0x75, 0x30, 0x30, hexDigit (c.toNat / 16), hexDigit (c.toNat % 16)]) ∨
    (quoteChar c = String.utf8EncodeChar c ∧ ∀ b ∈ String.utf8EncodeChar c, IsPlain b) := by
  unfold quoteChar
  split
  next letter hletter =>
    obtain ⟨b, hescaped, hencode⟩ := shortEscape?_some hletter
    exact .inl ⟨letter, b, rfl, hescaped, hencode⟩
  next hnone =>
    split
    case isTrue hcontrol => exact .inr (.inl ⟨hcontrol, rfl⟩)
    case isFalse hcontrol =>
      refine .inr (.inr ⟨rfl, isPlain_of_mem_encode ?_ ?_ hcontrol⟩)
      · rintro rfl
        cases hnone
      · rintro rfl
        cases hnone

/-- The ways to write a text within quotes: every character by itself, by a letter or by its
code. -/
inductive Escapes : List Char → List UInt8 → Prop
  | nil : Escapes [] []
  | plain {c : Char} {text : List Char} {raw : List UInt8}
    (h : ∀ b ∈ String.utf8EncodeChar c, IsPlain b) (hrest : Escapes text raw) :
    Escapes (c :: text) (String.utf8EncodeChar c ++ raw)
  | letter {letter b : UInt8} {c : Char} {text : List Char} {raw : List UInt8}
    (h : escaped? letter = some b) (hc : String.utf8EncodeChar c = [b])
    (hrest : Escapes text raw) : Escapes (c :: text) (0x5C :: letter :: raw)
  | code {c : Char} {text : List Char} {raw : List UInt8} (h : c.toNat < 0x20)
    (hrest : Escapes text raw) :
    Escapes (c :: text)
      (0x5C :: 0x75 :: 0x30 :: 0x30 :: hexDigit (c.toNat / 16) :: hexDigit (c.toNat % 16) :: raw)

/-- Escaping what has to be escaped is one of the ways. -/
theorem escapes_quote (s : String) : Escapes s.toList (quote s) := by
  unfold quote
  induction s.toList with
  | nil => exact .nil
  | cons c text ih =>
    rw [List.flatMap_cons]
    rcases quoteChar_cases c with ⟨letter, b, heq, hescaped, hencode⟩ | ⟨hcontrol, heq⟩ |
      ⟨heq, hplain⟩
    · rw [heq]
      exact .letter hescaped hencode ih
    · rw [heq]
      exact .code hcontrol ih
    · rw [heq]
      exact .plain hplain ih

theorem ne_of_escaped? {letter b : UInt8} (h : escaped? letter = some b) : letter ≠ 0x75 := by
  rintro rfl
  cases h

theorem hexDigit_spec {n : Nat} (h : n < 16) :
    hexValue? (hexDigit n) = some n ∧ IsPlain (hexDigit n) := by
  have hall : ∀ n < 16, hexValue? (hexDigit n) = some n ∧
      hexDigit n ≠ 0x22 ∧ hexDigit n ≠ 0x5C ∧ ¬hexDigit n < 0x20 := by decide
  exact hall n h

section Raw

variable {text raw rest : List UInt8}

theorem readRaw?_plain {bytes : List UInt8} (hplain : ∀ b ∈ bytes, IsPlain b)
    (h : readRaw? text = some (raw, rest)) :
    readRaw? (bytes ++ text) = some (bytes ++ raw, rest) := by
  induction bytes with
  | nil => exact h
  | cons b bytes ih =>
    obtain ⟨⟨hquote, hescape, hcontrol⟩, hbytes⟩ := List.forall_mem_cons.mp hplain
    rw [List.cons_append, readRaw?.eq_4 _ _ hquote (fun _ _ hb => absurd hb hescape),
      if_neg hcontrol, ih hbytes]
    rfl

theorem readRaw?_letter {letter b : UInt8} (hescaped : escaped? letter = some b)
    (h : readRaw? text = some (raw, rest)) :
    readRaw? (0x5C :: letter :: text) = some (0x5C :: letter :: raw, rest) := by
  have hknown : ¬(escaped? letter).isNone = true := by simp [hescaped]
  rw [readRaw?.eq_3, if_neg (ne_of_escaped? hescaped), if_neg hknown, h]
  rfl

theorem readRaw?_code {a b c d : UInt8}
    (hhex : ∀ digit ∈ [a, b, c, d], (hexValue? digit).isSome ∧ IsPlain digit)
    (h : readRaw? text = some (raw, rest)) :
    readRaw? (0x5C :: 0x75 :: a :: b :: c :: d :: text) =
      some (0x5C :: 0x75 :: a :: b :: c :: d :: raw, rest) := by
  have hdigits : readRaw? (a :: b :: c :: d :: text) = some (a :: b :: c :: d :: raw, rest) :=
    readRaw?_plain (fun digit hdigit => (hhex digit hdigit).2) h
  have hall : ([a, b, c, d].all fun digit => (hexValue? digit).isSome) = true :=
    List.all_eq_true.mpr fun digit hdigit => (hhex digit hdigit).1
  have htake : (a :: b :: c :: d :: text).take 4 = [a, b, c, d] := rfl
  have hlength : [a, b, c, d].length = 4 := rfl
  rw [readRaw?.eq_3, if_pos rfl, htake, hall, hlength, if_neg (by decide), hdigits]
  rfl

/-- Within quotes there is no closing quote. -/
theorem Escapes.readRaw? {text : List Char} (h : Escapes text raw) (rest : List UInt8) :
    Json.readRaw? (raw ++ 0x22 :: rest) = some (raw, rest) := by
  induction h with
  | nil => rfl
  | plain hplain _ ih =>
    rw [List.append_assoc]
    exact readRaw?_plain hplain ih
  | letter hescaped _ _ ih => exact readRaw?_letter hescaped ih
  | @code c _ _ hcontrol _ ih =>
    have hhigh := hexDigit_spec (show c.toNat / 16 < 16 by omega)
    have hlow := hexDigit_spec (show c.toNat % 16 < 16 by omega)
    have hzero : (hexValue? 0x30).isSome = true ∧ IsPlain 0x30 :=
      ⟨rfl, by decide, by decide, by decide⟩
    refine readRaw?_code ?_ ih
    simp [hhigh, hlow, hzero]

end Raw

section Pieces

/-- The pieces of a text can be joined to these bytes. -/
def Unescapes (text bytes : List UInt8) : Prop :=
  ∃ pieces, pieces? text = some pieces ∧ join? pieces = some bytes

variable {text bytes : List UInt8}

theorem unescapes_plain {plain : List UInt8} (hplain : ∀ b ∈ plain, IsPlain b)
    (h : Unescapes text bytes) : Unescapes (plain ++ text) (plain ++ bytes) := by
  induction plain with
  | nil => exact h
  | cons b plain ih =>
    obtain ⟨⟨-, hescape, -⟩, hrest⟩ := List.forall_mem_cons.mp hplain
    obtain ⟨pieces, hpieces, hjoin⟩ := ih hrest
    refine ⟨.byte b :: pieces, ?_, ?_⟩
    · rw [List.cons_append, pieces?.eq_4 _ _ (fun _ _ _ _ _ hb => absurd hb hescape)
        (fun _ _ hb => absurd hb hescape), if_neg hescape, hpieces]
      rfl
    · rw [join?, hjoin]
      rfl

theorem unescapes_letter {letter b : UInt8} (hescaped : escaped? letter = some b)
    (h : Unescapes text bytes) :
    Unescapes (0x5C :: letter :: text) (b :: bytes) := by
  obtain ⟨pieces, hpieces, hjoin⟩ := h
  refine ⟨.byte b :: pieces, ?_, ?_⟩
  · have hne := ne_of_escaped? hescaped
    rw [pieces?.eq_3 _ _ (fun _ _ _ _ _ hletter => absurd hletter hne), hescaped, hpieces]
    rfl
  · rw [join?, hjoin]
    rfl

theorem unescapes_code {n : Nat} (hn : n < 0x20) (h : Unescapes text bytes) :
    Unescapes (0x5C :: 0x75 :: 0x30 :: 0x30 :: hexDigit (n / 16) :: hexDigit (n % 16) :: text)
      (String.utf8EncodeChar (Char.ofNat n) ++ bytes) := by
  obtain ⟨pieces, hpieces, hjoin⟩ := h
  have hzero : hexValue? 0x30 = some 0 := rfl
  have hhigh := (hexDigit_spec (show n / 16 < 16 by omega)).1
  have hlow := (hexDigit_spec (show n % 16 < 16 by omega)).1
  refine ⟨.unit n :: pieces, ?_, ?_⟩
  · have hvalue : ((0 * 16 + 0) * 16 + n / 16) * 16 + n % 16 = n := by omega
    simp only [pieces?.eq_2, hzero, hhigh, hlow, hpieces, hvalue, Option.bind_eq_bind,
      Option.bind_some, Option.pure_def]
  · -- a code this low is half of no pair
    rw [join?.eq_def]
    simp only [hjoin]
    rw [if_neg (by simp; omega), if_neg (by simp; omega)]
    rfl

/-- A text is what it was before it was escaped. -/
theorem Escapes.unquote? {s : String} {raw : List UInt8} (h : Escapes s.toList raw) :
    Json.unquote? raw = some s := by
  have hunescapes : ∀ {text raw}, Escapes text raw →
      Unescapes raw (text.flatMap String.utf8EncodeChar) := by
    intro text raw h
    induction h with
    | nil => exact ⟨[], rfl, rfl⟩
    | plain hplain _ ih => exact unescapes_plain hplain ih
    | letter hescaped hencode _ ih =>
      rw [List.flatMap_cons, hencode]
      exact unescapes_letter hescaped ih
    | @code c _ _ hcontrol _ ih =>
      have hcode := unescapes_code hcontrol ih
      rwa [Char.ofNat_toNat] at hcode
  obtain ⟨pieces, hpieces, hjoin⟩ := hunescapes h
  simp only [Json.unquote?, hpieces, hjoin, Option.bind_eq_bind, Option.bind_some]
  exact Text.ofUtf8?_utf8 s

end Pieces

end FlowGraph.Json
