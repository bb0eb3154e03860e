import FlowGraph.Proofs.Outcome
import FlowGraph.Proofs.Printing
import FlowGraph.Tool.Assignment

/-! What the tool prints can be typed in again. An assignment is split where its values were joined,
and every input gets the values that were printed. -/
namespace FlowGraph

namespace Text

/-- `padded` is `word`, perhaps with blanks before and after it. -/
def Pads (word padded : String) : Prop :=
  ∃ before after : List Char, (∀ c ∈ before, isBlank c = true) ∧ (∀ c ∈ after, isBlank c = true) ∧
    padded.toList = before ++ word.toList ++ after

variable {word padded : String}

theorem Pads.trimChars (h : Pads word padded) (hword : IsWord word.toList) :
    Text.trimChars padded.toList = word.toList := by
  obtain ⟨before, after, hbefore, hafter, htext⟩ := h
  rw [htext, trimChars_word hbefore hafter hword]

theorem Pads.comma_notMem (h : Pads word padded) (hword : IsWord word.toList) :
    ',' ∉ padded.toList := by
  obtain ⟨before, after, hbefore, hafter, htext⟩ := h
  have hcomma : isBlank ',' ≠ true := by decide
  rw [htext, List.mem_append, List.mem_append]
  rintro ((hmem | hmem) | hmem)
  · exact hcomma (hbefore _ hmem)
  · exact (hword.printed _ hmem).ne_comma rfl
  · exact hcomma (hafter _ hmem)

/-- Only blanks are taken off. -/
theorem mem_trimChars {text : List Char} {c : Char} (hc : isBlank c = false) (h : c ∈ text) :
    c ∈ Text.trimChars text := by
  have hdrop : ∀ text : List Char, c ∈ text → c ∈ text.dropWhile isBlank := by
    intro text h
    rw [← List.takeWhile_append_dropWhile (p := isBlank) (l := text), List.mem_append] at h
    rcases h with h | h
    · rw [List.mem_takeWhile_imp h] at hc
      cases hc
    · exact h
  exact List.mem_reverse.mpr (hdrop _ (List.mem_reverse.mpr (hdrop text h)))

end Text

namespace Tool

theorem le_foldl_digits (digits : List Char) (n : Nat) :
    n ≤ digits.foldl (fun total c => 10 * total + Decimal.digitValue c) n := by
  induction digits generalizing n with
  | nil => exact le_rfl
  | cons c rest ih =>
    have hstep : n ≤ 10 * n + Decimal.digitValue c := by omega
    exact hstep.trans (ih _)

/-- No number on the way is greater than the last one. -/
theorem readIndexFrom_digits {digits : List Char} {n : Nat}
    (hdigits : ∀ c ∈ digits, c.isDigit = true)
    (h : digits.foldl (fun total c => 10 * total + Decimal.digitValue c) n ≤ sizeLimit) :
    readIndexFrom n digits =
      .ok (digits.foldl (fun total c => 10 * total + Decimal.digitValue c) n) := by
  induction digits generalizing n with
  | nil => rfl
  | cons c rest ih =>
    obtain ⟨hc, hrest⟩ := List.forall_mem_cons.mp hdigits
    have hnext := (le_foldl_digits rest (10 * n + Decimal.digitValue c)).trans h
    rw [readIndexFrom, hc]
    exact (if_neg (Nat.not_lt.mpr hnext)).trans (ih hrest h)

theorem readIndex_toString {n : Nat} (h : n ≤ sizeLimit) : readIndex (toString n) = .ok n := by
  obtain ⟨c, rest, hcons, hc⟩ := Decimal.exists_toDigits_cons n
  have hread : readIndexFrom 0 (c :: rest) = .ok n := by
    have hvalue : (c :: rest).foldl (fun total c => 10 * total + Decimal.digitValue c) 0 = n := by
      rw [← hcons]
      exact Decimal.ofDigits_toDigits n
    rw [readIndexFrom_digits, hvalue]
    · rw [← hcons]
      exact fun _ hc => Decimal.isDigit_of_mem_toDigits hc
    · rwa [hvalue]
  have htext : (toString n).toList = c :: rest := by simpa using hcons
  unfold readIndex
  rw [htext]
  split
  case h_1 heq => cases heq
  case h_2 heq =>
    obtain ⟨rfl, -⟩ := List.cons.inj heq
    cases hc
  case h_3 => exact hread

namespace Assignment

/-- The parts of the text are those between commas. -/
theorem splitValues_of_mem {text : List Char} {c : Char} (hc : Text.isBlank c = false)
    (h : c ∈ text) :
    splitValues text = (text.splitOn ',').map fun part => String.ofList (Text.trimChars part) := by
  have hempty : (Text.trimChars text).isEmpty = false :=
    List.isEmpty_eq_false_iff.mpr (List.ne_nil_of_mem (Text.mem_trimChars hc h))
  unfold splitValues
  rw [hempty, if_neg Bool.false_ne_true]
  -- the parts are found the same way in a text that is blank
  refine congrArg _ ?_
  clear hempty h hc
  induction text with
  | nil => rfl
  | cons c rest ih =>
    rw [List.foldr_cons, ih, List.splitOn_eq_splitOnP, List.splitOn_eq_splitOnP,
      List.splitOnP_cons_eq_if_modifyHead]
    simp only [beq_iff_eq]
    split
    · rfl
    · cases hrest : rest.splitOnP fun x => x == ',' with
      | nil => exact absurd hrest (List.splitOnP_ne_nil _ _)
      | cons part parts => rfl

/-- Words that were joined by commas are found again, whatever blanks they have around them. -/
theorem splitValues_intercalate {words padded : List String}
    (hwords : ∀ word ∈ words, Text.IsWord word.toList)
    (hpadded : List.Forall₂ Text.Pads words padded) :
    splitValues (",".intercalate padded).toList = words := by
  have htrim : padded.map (fun part => String.ofList (Text.trimChars part.toList)) = words := by
    induction hpadded with
    | nil => rfl
    | cons hpads _ ih =>
      obtain ⟨hword, hrest⟩ := List.forall_mem_cons.mp hwords
      rw [List.map_cons, hpads.trimChars hword, String.ofList_toList, ih hrest]
  have hcomma : ∀ part ∈ padded.map String.toList, ',' ∉ part := by
    intro part hpart
    obtain ⟨text, htext, rfl⟩ := List.mem_map.mp hpart
    obtain ⟨word, hword, hpads⟩ := forall₂_mem_right hpadded htext
    exact hpads.comma_notMem (hwords word hword)
  cases hpadded with
  | nil => rfl
  | @cons word part words parts hpads hrest =>
    -- the first word alone keeps the list from being empty
    have hword := hwords word List.mem_cons_self
    obtain ⟨c, others, hc⟩ := List.exists_cons_of_ne_nil hword.ne_nil
    have hblank : Text.isBlank c = false :=
      (hword.printed c (hc ▸ List.mem_cons_self)).not_isBlank
    have hmem : c ∈ (",".intercalate (part :: parts)).toList := by
      obtain ⟨before, after, -, -, htext⟩ := hpads
      have hpart : c ∈ part.toList := by simp [htext, hc]
      cases parts <;> simp [hpart]
    rw [splitValues_of_mem hblank hmem, String.toList_intercalate]
    have hsplit := List.splitOn_intercalate ',' hcomma (List.cons_ne_nil _ _)
    have hseparator : ",".toList = [','] := rfl
    rw [hseparator, hsplit, List.map_map]
    exact htrim

theorem parse_toString {index : Nat} (hindex : index ≤ sizeLimit) (values : String) :
    parse (toString index ++ "=" ++ values) = .ok ⟨index, splitValues values.toList⟩ := by
  have hequals : ∀ c ∈ Nat.toDigits 10 index, decide (c ≠ '=') = true := by
    intro c hc
    have hdigit := Decimal.isDigit_of_mem_toDigits hc
    refine decide_eq_true ?_
    rintro rfl
    cases hdigit
  have htext : (toString index ++ "=" ++ values).toList =
      Nat.toDigits 10 index ++ '=' :: values.toList := by simp
  have htake : (toString index ++ "=" ++ values).toList.takeWhile (fun c => decide (c ≠ '=')) =
      Nat.toDigits 10 index := by
    rw [htext, List.takeWhile_append_of_pos hequals, List.takeWhile_cons_of_neg (by decide),
      List.append_nil]
  have hdrop : (toString index ++ "=" ++ values).toList.dropWhile (fun c => decide (c ≠ '=')) =
      '=' :: values.toList := by
    rw [htext, List.dropWhile_append_of_pos hequals, List.dropWhile_cons_of_neg (by decide)]
  have hindexText : String.ofList (Nat.toDigits 10 index) = toString index := by
    rw [← String.toList_inj]
    simp
  have htrim : Text.trim (toString index) = toString index := by
    refine Text.trim_word ?_
    rw [← hindexText, String.toList_ofList]
    exact Text.isWord_toDigits index
  simp only [parse, htake, hdrop, hindexText, htrim, readIndex_toString hindex]

end Assignment

end Tool

namespace Node

/-- Printed values are set as they were. -/
theorem setInputTexts_display {n : Node} (hinput : n.isInput = true)
    {values : List n.type.Value} (hlength : values.length = n.size) :
    n.setInputTexts (values.map n.type.display) =
      .ok { n with body := .input (values.map n.type.reprinted) } := by
  have hparse : (values.map n.type.display).mapM n.type.parse =
      .ok (values.map n.type.reprinted) := by
    rw [mapM_ok, List.forall₂_map_left_iff, List.forall₂_map_right_iff, List.forall₂_same]
    exact fun v _ => n.type.parse_display v
  rw [setInputTexts, if_pos hinput, hparse]
  rcases n with ⟨id, t, body, buffer⟩
  cases body with
  | input given =>
    refine if_pos ?_
    rw [List.length_map]
    exact hlength
  | _ => cases hinput

/-- Printed values can be fed back. For an input node of any type and size and as many values, the
place of the node, an equals sign and the printed values with commas between them, and with any
blanks around each of them, are read as an assignment of the printed values to that place. Set from
these, the node holds the very values, and NaN where there was a NaN. -/
theorem printed_values_feed_back {n : Node} (hinput : n.isInput = true)
    {values : List n.type.Value} (hlength : values.length = n.size) {padded : List String}
    (hpadded : List.Forall₂ (fun v text => Text.Pads (n.type.display v) text) values padded)
    (index : UInt64) :
    Tool.Assignment.parse (toString index.toNat ++ "=" ++ ",".intercalate padded) =
        .ok ⟨index.toNat, values.map n.type.display⟩ ∧
      n.setInputTexts (values.map n.type.display) =
        .ok { n with body := .input (values.map n.type.reprinted) } := by
  refine ⟨?_, setInputTexts_display hinput hlength⟩
  have hwords : ∀ word ∈ values.map n.type.display, Text.IsWord word.toList := by
    intro word hword
    obtain ⟨v, -, rfl⟩ := List.mem_map.mp hword
    exact n.type.isWord_display v
  have hindex : index.toNat ≤ sizeLimit := Nat.le_sub_one_of_lt index.toNat_lt
  rw [Tool.Assignment.parse_toString hindex,
    Tool.Assignment.splitValues_intercalate hwords (List.forall₂_map_left_iff.mpr hpadded)]

theorem printed_values_feed_back_least :
    (input ⟨1⟩ .int 2).isInput = true ∧
      [Int32.minValue, (7 : Int32)].length = (input ⟨1⟩ .int 2).size ∧
      List.Forall₂ (fun v text => Text.Pads (ElementType.int.display v) text)
        [Int32.minValue, (7 : Int32)] [" -2147483648", "7"] ∧
      Tool.Assignment.parse "3= -2147483648,7" = .ok ⟨3, ["-2147483648", "7"]⟩ ∧
      (input ⟨1⟩ .int 2).setInputTexts ["-2147483648", "7"] =
        .ok { input ⟨1⟩ .int 2 with body := .input [Int32.minValue, (7 : Int32)] } := by
  have hblank : ∀ c ∈ [' '], Text.isBlank c = true := List.forall_mem_singleton.mpr rfl
  have hpadded : List.Forall₂ (fun v text => Text.Pads (ElementType.int.display v) text)
      [Int32.minValue, (7 : Int32)] [" -2147483648", "7"] :=
    .cons ⟨[' '], [], hblank, List.forall_mem_nil _, rfl⟩
      (.cons ⟨[], [], List.forall_mem_nil _, List.forall_mem_nil _, rfl⟩ .nil)
  have hinput : (input ⟨1⟩ .int 2).isInput = true := rfl
  have hlength : [Int32.minValue, (7 : Int32)].length = (input ⟨1⟩ .int 2).size := rfl
  exact ⟨hinput, hlength, hpadded, printed_values_feed_back hinput hlength hpadded 3⟩

end Node

end FlowGraph
