import Mathlib
import FlowGraph.Json.Basic
import FlowGraph.Proofs.Numerals
import FlowGraph.Proofs.Quoting

/-! The texts of a JSON tree, with blanks wherever they may stand. What a writer makes is one of
them, and the reader takes every one for the tree. -/
namespace FlowGraph.Json

section Blanks

/-- Nothing but blanks, of which there may be none. -/
def IsGap (text : List UInt8) : Prop := ∀ b ∈ text, isBlank b = true

variable {gap text : List UInt8}

theorem isGap_nil : IsGap [] := nofun

theorem skipBlanks_append (h : IsGap gap) (text : List UInt8) :
    skipBlanks (gap ++ text) = skipBlanks text :=
  List.dropWhile_append_of_pos h

theorem skipBlanks_cons {b : UInt8} (h : isBlank b = false) (text : List UInt8) :
    skipBlanks (b :: text) = b :: text :=
  List.dropWhile_cons_of_neg (by simp [h])

/-- Behind a gap, the text goes on with what is no blank. -/
theorem skipBlanks_gap (h : IsGap gap) {b : UInt8} (hb : isBlank b = false) (text : List UInt8) :
    skipBlanks (gap ++ b :: text) = b :: text := by
  rw [skipBlanks_append h, skipBlanks_cons hb]

theorem skipBlanks_skipBlanks (text : List UInt8) :
    skipBlanks (skipBlanks text) = skipBlanks text :=
  List.dropWhile_idempotent _ _

theorem isGap_lineBreak (level : Nat) : IsGap (lineBreak level) := by
  refine List.forall_mem_cons.mpr ⟨rfl, fun b hb => ?_⟩
  rw [List.eq_of_mem_replicate hb]
  rfl

end Blanks

section Values

variable {steps : Nat} {text rest after : List UInt8}

theorem readValue_string {raw : List UInt8} (h : skipBlanks text = 0x22 :: rest)
    (hraw : readRaw? rest = some (raw, after)) :
    readValue (steps + 1) text = some (string raw, after) := by
  simp only [readValue, h, hraw]
  rfl

theorem readValue_negative {numeral : Decimal.Numeral} (h : skipBlanks text = 0x2D :: rest)
    (hnumeral : readNumeral? rest = some (numeral, after)) :
    readValue (steps + 1) text = some (number true numeral, after) := by
  simp only [readValue, h, hnumeral]
  rfl

theorem readValue_number {numeral : Decimal.Numeral} {b : UInt8} (h : skipBlanks text = b :: rest)
    (hb : isDigit b = true) (hnumeral : readNumeral? (b :: rest) = some (numeral, after)) :
    readValue (steps + 1) text = some (number false numeral, after) := by
  have hbrace : b ≠ 0x7B := ne_of_isDigit hb rfl
  have hbracket : b ≠ 0x5B := ne_of_isDigit hb rfl
  have hquote : b ≠ 0x22 := ne_of_isDigit hb rfl
  have hminus : b ≠ 0x2D := ne_of_isDigit hb rfl
  simp only [readValue, h, hnumeral, if_neg hbrace, if_neg hbracket, if_neg hquote,
    if_neg hminus, if_pos hb]
  rfl

theorem readValue_noItems (h : skipBlanks text = 0x5B :: rest)
    (hclosed : skipBlanks rest = 0x5D :: after) :
    readValue (steps + 1) text = some (array [], after) := by
  have hbrace : (0x5B : UInt8) ≠ 0x7B := by decide
  simp only [readValue, h, hclosed, if_neg hbrace, if_true]

theorem readValue_noMembers (h : skipBlanks text = 0x7B :: rest)
    (hclosed : skipBlanks rest = 0x7D :: after) :
    readValue (steps + 1) text = some (object [], after) := by
  simp only [readValue, h, hclosed, if_true]

theorem readValue_items {items : List Json} (h : skipBlanks text = 0x5B :: rest)
    (hrest : (skipBlanks rest).head? ≠ some 0x5D)
    (hitems : readItems steps (skipBlanks rest) = some (items, after)) :
    readValue (steps + 1) text = some (array items, after) := by
  have hbrace : (0x5B : UInt8) ≠ 0x7B := by decide
  simp only [readValue, h, if_neg hbrace, if_true]
  split
  next hclosed => exact absurd (congrArg List.head? hclosed) hrest
  next =>
    rw [hitems]
    rfl

theorem readValue_members {members : List (List UInt8 × Json)}
    (h : skipBlanks text = 0x7B :: rest) (hrest : (skipBlanks rest).head? ≠ some 0x7D)
    (hmembers : readMembers steps (skipBlanks rest) = some (members, after)) :
    readValue (steps + 1) text = some (object members, after) := by
  simp only [readValue, h, if_true]
  split
  next hclosed => exact absurd (congrArg List.head? hclosed) hrest
  next =>
    rw [hmembers]
    rfl

/-- After an item the list goes on or ends. -/
theorem readItems_next {item : Json} {items : List Json} {behind : List UInt8}
    (hitem : readValue steps text = some (item, behind)) (hnext : skipBlanks behind = 0x2C :: rest)
    (hitems : readItems steps rest = some (items, after)) :
    readItems (steps + 1) text = some (item :: items, after) := by
  simp only [readItems, hitem, hnext, hitems, Option.bind_eq_bind, Option.bind_some,
    Option.pure_def]

theorem readItems_last {item : Json} {behind : List UInt8}
    (hitem : readValue steps text = some (item, behind))
    (hend : skipBlanks behind = 0x5D :: after) :
    readItems (steps + 1) text = some ([item], after) := by
  simp only [readItems, hitem, hend, Option.bind_eq_bind, Option.bind_some, Option.pure_def]

theorem readMembers_next {name : List UInt8} {item : Json} {members : List (List UInt8 × Json)}
    {colon inner behind : List UInt8} (h : skipBlanks text = 0x22 :: inner)
    (hname : readRaw? inner = some (name, colon)) {content : List UInt8}
    (hcolon : skipBlanks colon = 0x3A :: content)
    (hitem : readValue steps content = some (item, behind))
    (hnext : skipBlanks behind = 0x2C :: rest)
    (hmembers : readMembers steps rest = some (members, after)) :
    readMembers (steps + 1) text = some ((name, item) :: members, after) := by
  simp only [readMembers, h, hname, hcolon, hitem, hnext, hmembers, Option.bind_eq_bind,
    Option.bind_some, Option.pure_def]

theorem readMembers_last {name : List UInt8} {item : Json} {colon inner behind : List UInt8}
    (h : skipBlanks text = 0x22 :: inner) (hname : readRaw? inner = some (name, colon))
    {content : List UInt8} (hcolon : skipBlanks colon = 0x3A :: content)
    (hitem : readValue steps content = some (item, behind))
    (hend : skipBlanks behind = 0x7D :: after) :
    readMembers (steps + 1) text = some ([(name, item)], after) := by
  simp only [readMembers, h, hname, hcolon, hitem, hend, Option.bind_eq_bind, Option.bind_some,
    Option.pure_def]

end Values

theorem isBlank_of_isDigit {b : UInt8} (hb : isDigit b = true) : isBlank b = false := by
  have hblank : b ≠ 0x20 ∧ b ≠ 10 ∧ b ≠ 13 ∧ b ≠ 9 :=
    ⟨ne_of_isDigit hb rfl, ne_of_isDigit hb rfl, ne_of_isDigit hb rfl, ne_of_isDigit hb rfl⟩
  simp [isBlank, hblank]

section Spelling

/-- A text with gaps around it. -/
structure Gapped where
  before : List UInt8
  text : List UInt8
  after : List UInt8

def Gapped.bytes (g : Gapped) : List UInt8 := g.before ++ (g.text ++ g.after)

def Gapped.IsSound (g : Gapped) : Prop := IsGap g.before ∧ IsGap g.after

/-- Texts with commas between them. -/
def joined : List (List UInt8) → List UInt8
  | [] => []
  | first :: rest => first ++ rest.flatMap fun text => 0x2C :: text

def memberBytes (name item : Gapped) : List UInt8 :=
  name.before ++ (quoted name.text ++ (name.after ++ 0x3A :: item.bytes))

/-- The texts of a tree. Numbers are as short as their digits, and names and strings are escaped in
any way. -/
inductive Spells : Json → List UInt8 → Prop
  | null : Spells null (Text.utf8 "null")
  | bool (b : Bool) : Spells (bool b) (Text.utf8 (if b then "true" else "false"))
  | number (negative : Bool) {numeral : Decimal.Numeral} (h : numeral.WellFormed) :
    Spells (number negative numeral)
      ((if negative then [0x2D] else []) ++ Text.utf8 (String.ofList numeral.text))
  | string {text : List Char} {raw : List UInt8} (h : Escapes text raw) :
    Spells (string raw) (quoted raw)
  | array {items : List (Json × Gapped)} {closing : List UInt8} (hclosing : IsGap closing)
    (hgaps : ∀ item ∈ items, item.2.IsSound) (hitems : ∀ item ∈ items, Spells item.1 item.2.text) :
    Spells (array (items.map Prod.fst))
      (0x5B :: (joined (items.map fun item => item.2.bytes) ++ (closing ++ [0x5D])))
  | object {members : List (Gapped × Json × Gapped)} {closing : List UInt8}
    (hclosing : IsGap closing) (hgaps : ∀ m ∈ members, m.1.IsSound ∧ m.2.2.IsSound)
    (hnames : ∀ m ∈ members, ∃ text, Escapes text m.1.text)
    (hitems : ∀ m ∈ members, Spells m.2.1 m.2.2.text) :
    Spells (object (members.map fun m => (m.1.text, m.2.1)))
      (0x7B :: (joined (members.map fun m => memberBytes m.1 m.2.2) ++ (closing ++ [0x7D])))

/-- A value begins with a byte of its own. -/
theorem Spells.eq_cons {json : Json} {text : List UInt8} (h : json.Spells text) :
    ∃ b rest, text = b :: rest ∧ isBlank b = false ∧ b ≠ 0x5D := by
  cases h with
  | null => exact ⟨0x6E, _, rfl, rfl, by decide⟩
  | bool b => cases b <;> exact ⟨_, _, rfl, rfl, by decide⟩
  | string h => exact ⟨0x22, _, rfl, rfl, by decide⟩
  | @number negative numeral h =>
    obtain ⟨b, text, htext, hb⟩ := text_cons h
    cases negative with
    | true => exact ⟨0x2D, _, rfl, rfl, by decide⟩
    | false =>
      exact ⟨b, text, (utf8_ofList _).trans htext, isBlank_of_isDigit hb, ne_of_isDigit hb rfl⟩
  | array => exact ⟨0x5B, _, rfl, rfl, by decide⟩
  | object => exact ⟨0x7B, _, rfl, rfl, by decide⟩

end Spelling

section Writing

/-- What a writer makes: numbers of digits, and strings and names that were quoted. -/
inductive Written : Json → Prop
  | null : Written null
  | bool (b : Bool) : Written (bool b)
  | number (negative : Bool) {numeral : Decimal.Numeral} (h : numeral.WellFormed) :
    Written (number negative numeral)
  | string (s : String) : Written (string (quote s))
  | array {items : List Json} (h : ∀ item ∈ items, Written item) : Written (array items)
  | object {members : List (List UInt8 × Json)} (hnames : ∀ m ∈ members, ∃ s, m.1 = quote s)
    (hitems : ∀ m ∈ members, Written m.2) : Written (object members)

theorem writeItems_eq (level : Nat) (items : List Json) :
    writeItems level items =
      items.flatMap fun item => 0x2C :: (lineBreak level ++ item.write level) := by
  induction items with
  | nil => rfl
  | cons item rest ih => rw [writeItems, ih, List.flatMap_cons, List.cons_append]

/-- An item on a line of its own. -/
def itemLine (level : Nat) (item : Json) : Json × Gapped :=
  (item, ⟨lineBreak level, item.write level, []⟩)

/-- A member on a line of its own. -/
def memberLine (level : Nat) (m : List UInt8 × Json) : Gapped × Json × Gapped :=
  (⟨lineBreak level, m.1, []⟩, m.2, ⟨[0x20], m.2.write level, []⟩)

theorem map_itemLine (level : Nat) (items : List Json) :
    (items.map (itemLine level)).map Prod.fst = items :=
  List.map_map.trans (List.map_id items)

theorem map_memberLine (level : Nat) (members : List (List UInt8 × Json)) :
    (members.map (memberLine level)).map (fun m => (m.1.text, m.2.1)) = members :=
  List.map_map.trans (List.map_id members)

theorem memberBytes_memberLine (level : Nat) (m : List UInt8 × Json) :
    memberBytes (memberLine level m).1 (memberLine level m).2.2 =
      lineBreak level ++ (quoted m.1 ++ (0x3A :: 0x20 :: m.2.write level)) := by
  simp [memberBytes, memberLine, Gapped.bytes]

theorem writeMembers_eq (level : Nat) (members : List (List UInt8 × Json)) :
    writeMembers level members = members.flatMap fun m =>
      0x2C :: memberBytes (memberLine level m).1 (memberLine level m).2.2 := by
  induction members with
  | nil => rfl
  | cons m rest ih =>
    rw [writeMembers, ih, List.flatMap_cons, memberBytes_memberLine]
    simp only [List.append_assoc, List.cons_append, List.nil_append]

theorem spells_writeArray {items : List Json}
    (h : ∀ item ∈ items, ∀ level, item.Spells (item.write level)) (level : Nat) :
    (array items).Spells ((array items).write level) := by
  have hgaps : ∀ item ∈ items.map (itemLine (level + 1)), item.2.IsSound :=
    List.forall_mem_map.mpr fun _ _ => ⟨isGap_lineBreak _, isGap_nil⟩
  have hitems : ∀ item ∈ items.map (itemLine (level + 1)), item.1.Spells item.2.text :=
    List.forall_mem_map.mpr fun item hitem => h item hitem (level + 1)
  cases items with
  | nil => exact .array isGap_nil hgaps hitems
  | cons item items =>
    have hwrite := Spells.array (isGap_lineBreak level) hgaps hitems
    rw [map_itemLine] at hwrite
    rw [write, writeItems_eq]
    simpa [joined, List.flatMap_map, itemLine, Gapped.bytes] using hwrite

theorem spells_writeObject {members : List (List UInt8 × Json)}
    (hnames : ∀ m ∈ members, ∃ s, m.1 = quote s)
    (h : ∀ m ∈ members, ∀ level, m.2.Spells (m.2.write level)) (level : Nat) :
    (object members).Spells ((object members).write level) := by
  have hgaps : ∀ m ∈ members.map (memberLine (level + 1)), m.1.IsSound ∧ m.2.2.IsSound :=
    List.forall_mem_map.mpr fun _ _ =>
      ⟨⟨isGap_lineBreak _, isGap_nil⟩, List.forall_mem_singleton.mpr rfl, isGap_nil⟩
  have hquoted : ∀ m ∈ members.map (memberLine (level + 1)), ∃ text, Escapes text m.1.text := by
    refine List.forall_mem_map.mpr fun m hm => ?_
    obtain ⟨s, hs⟩ := hnames m hm
    have hescapes : Escapes s.toList m.1 := hs ▸ escapes_quote s
    exact ⟨s.toList, hescapes⟩
  have hitems : ∀ m ∈ members.map (memberLine (level + 1)), m.2.1.Spells m.2.2.text :=
    List.forall_mem_map.mpr fun m hm => h m hm (level + 1)
  cases members with
  | nil => exact .object isGap_nil hgaps hquoted hitems
  | cons m members =>
    have hwrite := Spells.object (isGap_lineBreak level) hgaps hquoted hitems
    rw [map_memberLine] at hwrite
    rw [write, writeMembers_eq]
    simpa [joined, List.flatMap_map, memberBytes_memberLine] using hwrite

/-- What is written is one of the texts of the tree. By induction on the tree. -/
theorem Written.spells {json : Json} (h : json.Written) (level : Nat) :
    json.Spells (json.write level) := by
  induction h generalizing level with
  | null => exact .null
  | bool b => exact .bool b
  | number negative h => exact .number negative h
  | string s => exact .string (escapes_quote s)
  | array h ih => exact spells_writeArray (fun item hitem level => ih item hitem level) level
  | object hnames hitems ih =>
    exact spells_writeObject hnames (fun m hm level => ih m hm level) level

end Writing

section Reading

/-- The value is read wherever it stands, with two steps for every byte of it: whatever is in a list
is met as an item first, and then as a value. -/
def IsReadFrom (json : Json) (text : List UInt8) : Prop :=
  ∀ steps rest, 2 * text.length ≤ steps → EndsNumber rest →
    readValue steps (text ++ rest) = some (json, rest)

theorem endsNumber_cons {b : UInt8}
    (h : isDigit b = false ∧ b ≠ 0x2E ∧ b ≠ 0x65 ∧ b ≠ 0x45) (rest : List UInt8) :
    EndsNumber (b :: rest) := by
  obtain ⟨hdigit, hpoint, hsmall, hlarge⟩ := h
  exact ⟨not_beginsWithDigit_cons hdigit rest, by simpa using hpoint, by simpa using hsmall,
    by simpa using hlarge⟩

theorem not_number_of_isBlank {b : UInt8} (h : isBlank b = true) :
    isDigit b = false ∧ b ≠ 0x2E ∧ b ≠ 0x65 ∧ b ≠ 0x45 := by
  simp only [isBlank, Bool.or_eq_true, decide_eq_true_eq] at h
  obtain ((rfl | rfl) | rfl) | rfl := h <;> decide

/-- What may follow a value in a list or an object. -/
theorem endsNumber_gap {gap : List UInt8} (h : IsGap gap) {b : UInt8}
    (hb : isDigit b = false ∧ b ≠ 0x2E ∧ b ≠ 0x65 ∧ b ≠ 0x45) (rest : List UInt8) :
    EndsNumber (gap ++ b :: rest) := by
  cases gap with
  | nil => exact endsNumber_cons hb rest
  | cons blank gap => exact endsNumber_cons (not_number_of_isBlank (h blank List.mem_cons_self)) _

theorem IsGap.append {gap closing : List UInt8} (h : IsGap gap) (hclosing : IsGap closing) :
    IsGap (gap ++ closing) :=
  List.forall_mem_append.mpr ⟨h, hclosing⟩

theorem isReadFrom_string {text : List Char} {raw : List UInt8} (h : Escapes text raw) :
    IsReadFrom (string raw) (quoted raw) := by
  intro steps rest hsteps hrest
  obtain ⟨steps, rfl⟩ := Nat.exists_eq_add_of_le' (show 1 ≤ steps by simp [quoted] at hsteps; omega)
  have htext : quoted raw ++ rest = 0x22 :: (raw ++ 0x22 :: rest) := by
    simp only [quoted, List.append_assoc, List.cons_append, List.nil_append]
  rw [htext]
  exact readValue_string (skipBlanks_cons rfl _) (h.readRaw? rest)

theorem isReadFrom_number (negative : Bool) {numeral : Decimal.Numeral} (h : numeral.WellFormed) :
    IsReadFrom (number negative numeral)
      ((if negative then [0x2D] else []) ++ Text.utf8 (String.ofList numeral.text)) := by
  intro steps rest hsteps hrest
  obtain ⟨b, text, htext, hb⟩ := text_cons h
  have hread := readNumeral?_text h hrest
  have hnumber : Text.utf8 (String.ofList numeral.text) = b :: text := (utf8_ofList _).trans htext
  rw [htext] at hread
  rw [hnumber, List.length_append, List.length_cons] at hsteps
  rw [hnumber]
  obtain ⟨steps, rfl⟩ := Nat.exists_eq_add_of_le' (show 1 ≤ steps by omega)
  cases negative with
  | true => exact readValue_negative (skipBlanks_cons rfl _) hread
  | false => exact readValue_number (skipBlanks_cons (isBlank_of_isDigit hb) _) hb hread

section Containers

variable {steps : Nat} {behind closing after : List UInt8}

/-- A value is read behind the gap before it. -/
theorem readValue_gapped {json : Json} {g : Gapped} (hg : g.IsSound) (h : IsReadFrom json g.text)
    (hsteps : 2 * g.bytes.length ≤ steps) (hbehind : EndsNumber (g.after ++ behind)) :
    readValue steps (g.bytes ++ behind) = some (json, g.after ++ behind) := by
  have htext : g.bytes ++ behind = g.before ++ (g.text ++ (g.after ++ behind)) := by
    simp only [Gapped.bytes, List.append_assoc]
  have hlength : g.bytes.length = g.before.length + (g.text.length + g.after.length) := by
    simp only [Gapped.bytes, List.length_append]
  rw [htext, readValue_congr (skipBlanks_append hg.1 _)]
  exact h steps _ (by omega) hbehind

/-- Items are read up to the bracket. By induction on the items after the first. -/
theorem readItems_joined {item : Json × Gapped} {items : List (Json × Gapped)}
    (hgaps : ∀ x ∈ item :: items, x.2.IsSound) (h : ∀ x ∈ item :: items, IsReadFrom x.1 x.2.text)
    (hclosing : IsGap closing)
    (hsteps : 2 * (joined ((item :: items).map fun x => x.2.bytes)).length < steps) :
    readItems steps
        (joined ((item :: items).map fun x => x.2.bytes) ++ (closing ++ 0x5D :: after)) =
      some ((item :: items).map Prod.fst, after) := by
  induction items generalizing item steps with
  | nil =>
    obtain ⟨steps, rfl⟩ := Nat.exists_eq_add_one_of_ne_zero (Nat.ne_zero_of_lt hsteps)
    have hgap := hgaps item List.mem_cons_self
    have hbytes : joined ([item].map fun x => x.2.bytes) = item.2.bytes := List.append_nil _
    have hends : EndsNumber (item.2.after ++ (closing ++ 0x5D :: after)) := by
      rw [← List.append_assoc]
      exact endsNumber_gap (hgap.2.append hclosing) (by decide) _
    rw [hbytes] at hsteps
    rw [hbytes]
    refine readItems_last
      (readValue_gapped hgap (h item List.mem_cons_self) (by omega) hends) ?_
    rw [skipBlanks_append hgap.2, skipBlanks_gap hclosing rfl]
  | cons next items ih =>
    obtain ⟨steps, rfl⟩ := Nat.exists_eq_add_one_of_ne_zero (Nat.ne_zero_of_lt hsteps)
    have hgap := hgaps item List.mem_cons_self
    have hbytes : joined ((item :: next :: items).map fun x => x.2.bytes) =
        item.2.bytes ++ 0x2C :: joined ((next :: items).map fun x => x.2.bytes) := rfl
    rw [hbytes, List.length_append, List.length_cons] at hsteps
    rw [hbytes, List.append_assoc, List.cons_append]
    -- the comma alone pays for the step to the next item
    have hrest := ih (fun x hx => hgaps x (List.mem_cons_of_mem _ hx))
      (fun x hx => h x (List.mem_cons_of_mem _ hx)) (show _ < steps by omega)
    exact readItems_next (readValue_gapped hgap (h item List.mem_cons_self) (by omega)
      (endsNumber_gap hgap.2 (by decide) _)) (skipBlanks_gap hgap.2 rfl _) hrest

/-- A member is its name, a colon and its item. -/
theorem exists_member {m : Gapped × Json × Gapped} (hname : ∃ text, Escapes text m.1.text)
    (hgaps : m.1.IsSound ∧ m.2.2.IsSound) (h : IsReadFrom m.2.1 m.2.2.text)
    (hsteps : 2 * (memberBytes m.1 m.2.2).length ≤ steps)
    (hbehind : EndsNumber (m.2.2.after ++ behind)) :
    ∃ inner colon content, skipBlanks (memberBytes m.1 m.2.2 ++ behind) = 0x22 :: inner ∧
      readRaw? inner = some (m.1.text, colon) ∧ skipBlanks colon = 0x3A :: content ∧
      readValue steps content = some (m.2.1, m.2.2.after ++ behind) := by
  obtain ⟨text, hescapes⟩ := hname
  have htext : memberBytes m.1 m.2.2 ++ behind = m.1.before ++ 0x22 :: (m.1.text ++
      0x22 :: (m.1.after ++ 0x3A :: (m.2.2.bytes ++ behind))) := by
    simp only [memberBytes, quoted, List.append_assoc, List.cons_append, List.nil_append]
  have hlength : m.2.2.bytes.length ≤ (memberBytes m.1 m.2.2).length := by
    simp only [memberBytes, List.length_append, List.length_cons]
    omega
  rw [htext]
  exact ⟨_, _, _, skipBlanks_gap hgaps.1.1 rfl _, hescapes.readRaw? _,
    skipBlanks_gap hgaps.1.2 rfl _, readValue_gapped hgaps.2 h (by omega) hbehind⟩

theorem readMembers_joined {m : Gapped × Json × Gapped} {members : List (Gapped × Json × Gapped)}
    (hnames : ∀ x ∈ m :: members, ∃ text, Escapes text x.1.text)
    (hgaps : ∀ x ∈ m :: members, x.1.IsSound ∧ x.2.2.IsSound)
    (h : ∀ x ∈ m :: members, IsReadFrom x.2.1 x.2.2.text) (hclosing : IsGap closing)
    (hsteps : 2 * (joined ((m :: members).map fun x => memberBytes x.1 x.2.2)).length < steps) :
    readMembers steps (joined ((m :: members).map fun x => memberBytes x.1 x.2.2) ++
        (closing ++ 0x7D :: after)) =
      some ((m :: members).map fun x => (x.1.text, x.2.1), after) := by
  induction members generalizing m steps with
  | nil =>
    obtain ⟨steps, rfl⟩ := Nat.exists_eq_add_one_of_ne_zero (Nat.ne_zero_of_lt hsteps)
    have hgap := hgaps m List.mem_cons_self
    have hbytes : joined ([m].map fun x => memberBytes x.1 x.2.2) = memberBytes m.1 m.2.2 :=
      List.append_nil _
    have hends : EndsNumber (m.2.2.after ++ (closing ++ 0x7D :: after)) := by
      rw [← List.append_assoc]
      exact endsNumber_gap (hgap.2.2.append hclosing) (by decide) _
    rw [hbytes] at hsteps
    rw [hbytes]
    obtain ⟨inner, colon, content, hquote, hname, hcolon, hread⟩ :=
      exists_member (hnames m List.mem_cons_self) hgap (h m List.mem_cons_self)
        (show _ ≤ steps by omega) hends
    refine readMembers_last hquote hname hcolon hread ?_
    rw [skipBlanks_append hgap.2.2, skipBlanks_gap hclosing rfl]
  | cons next members ih =>
    obtain ⟨steps, rfl⟩ := Nat.exists_eq_add_one_of_ne_zero (Nat.ne_zero_of_lt hsteps)
    have hgap := hgaps m List.mem_cons_self
    have hbytes : joined ((m :: next :: members).map fun x => memberBytes x.1 x.2.2) =
        memberBytes m.1 m.2.2 ++
          0x2C :: joined ((next :: members).map fun x => memberBytes x.1 x.2.2) := rfl
    rw [hbytes, List.length_append, List.length_cons] at hsteps
    rw [hbytes, List.append_assoc, List.cons_append]
    have hrest := ih (fun x hx => hnames x (List.mem_cons_of_mem _ hx))
      (fun x hx => hgaps x (List.mem_cons_of_mem _ hx))
      (fun x hx => h x (List.mem_cons_of_mem _ hx)) (show _ < steps by omega)
    obtain ⟨inner, colon, content, hquote, hname, hcolon, hread⟩ :=
      exists_member (hnames m List.mem_cons_self) hgap (h m List.mem_cons_self)
        (show _ ≤ steps by omega) (endsNumber_gap (b := 0x2C) hgap.2.2 (by decide) _)
    exact readMembers_next hquote hname hcolon hread (skipBlanks_gap hgap.2.2 rfl _) hrest

theorem isReadFrom_array {items : List (Json × Gapped)} (hclosing : IsGap closing)
    (hgaps : ∀ item ∈ items, item.2.IsSound) (hitems : ∀ item ∈ items, item.1.Spells item.2.text)
    (h : ∀ item ∈ items, IsReadFrom item.1 item.2.text) :
    IsReadFrom (array (items.map Prod.fst))
      (0x5B :: (joined (items.map fun item => item.2.bytes) ++ (closing ++ [0x5D]))) := by
  intro steps rest hsteps hrest
  rw [List.length_cons] at hsteps
  obtain ⟨steps, rfl⟩ := Nat.exists_eq_add_of_le' (show 1 ≤ steps by omega)
  rw [List.cons_append, List.append_assoc, List.append_assoc, List.singleton_append]
  cases items with
  | nil => exact readValue_noItems (skipBlanks_cons rfl _) (skipBlanks_gap hclosing rfl _)
  | cons item items =>
    -- the first item does not begin like the end of the list
    have hfirst : (skipBlanks (joined ((item :: items).map fun x => x.2.bytes) ++
        (closing ++ 0x5D :: rest))).head? ≠ some 0x5D := by
      obtain ⟨b, text, htext, hblank, hbracket⟩ := (hitems item List.mem_cons_self).eq_cons
      rw [List.map_cons, joined, Gapped.bytes, List.append_assoc, List.append_assoc,
        skipBlanks_append (hgaps item List.mem_cons_self).1, htext, List.append_assoc,
        List.cons_append, skipBlanks_cons hblank]
      exact fun hhead => hbracket (Option.some.inj hhead)
    refine readValue_items (skipBlanks_cons rfl _) hfirst ?_
    rw [readItems_congr (skipBlanks_skipBlanks _)]
    exact readItems_joined hgaps h hclosing (by simp only [List.length_append] at hsteps; omega)

theorem isReadFrom_object {members : List (Gapped × Json × Gapped)} (hclosing : IsGap closing)
    (hgaps : ∀ m ∈ members, m.1.IsSound ∧ m.2.2.IsSound)
    (hnames : ∀ m ∈ members, ∃ text, Escapes text m.1.text)
    (h : ∀ m ∈ members, IsReadFrom m.2.1 m.2.2.text) :
    IsReadFrom (object (members.map fun m => (m.1.text, m.2.1)))
      (0x7B :: (joined (members.map fun m => memberBytes m.1 m.2.2) ++ (closing ++ [0x7D]))) := by
  intro steps rest hsteps hrest
  rw [List.length_cons] at hsteps
  obtain ⟨steps, rfl⟩ := Nat.exists_eq_add_of_le' (show 1 ≤ steps by omega)
  rw [List.cons_append, List.append_assoc, List.append_assoc, List.singleton_append]
  cases members with
  | nil => exact readValue_noMembers (skipBlanks_cons rfl _) (skipBlanks_gap hclosing rfl _)
  | cons m members =>
    have hfirst : (skipBlanks (joined ((m :: members).map fun x => memberBytes x.1 x.2.2) ++
        (closing ++ 0x7D :: rest))).head? ≠ some 0x7D := by
      rw [List.map_cons, joined, memberBytes, quoted, List.append_assoc, List.append_assoc,
        List.cons_append, List.cons_append, List.cons_append,
        skipBlanks_gap (hgaps m List.mem_cons_self).1.1 rfl]
      exact fun hhead => absurd (Option.some.inj hhead) (by decide)
    refine readValue_members (skipBlanks_cons rfl _) hfirst ?_
    rw [readMembers_congr (skipBlanks_skipBlanks _)]
    exact readMembers_joined hnames hgaps h hclosing
      (by simp only [List.length_append] at hsteps; omega)

end Containers

/-- A text of a tree is read as the tree, wherever it stands. By induction on what it spells. -/
theorem Spells.isReadFrom {json : Json} {text : List UInt8} (h : json.Spells text) :
    IsReadFrom json text := by
  induction h with
  | null =>
    intro steps rest hsteps hrest
    obtain ⟨steps, rfl⟩ := Nat.exists_eq_add_of_le' (Nat.le_of_succ_le hsteps)
    rfl
  | bool b =>
    intro steps rest hsteps hrest
    cases b <;> obtain ⟨steps, rfl⟩ := Nat.exists_eq_add_of_le' (Nat.le_of_succ_le hsteps) <;> rfl
  | number negative h => exact isReadFrom_number negative h
  | string h => exact isReadFrom_string h
  | array hclosing hgaps hitems ih => exact isReadFrom_array hclosing hgaps hitems ih
  | object hclosing hgaps hnames hitems ih => exact isReadFrom_object hclosing hgaps hnames ih

/-- A whole text has gaps around the tree. -/
theorem Spells.read? {json : Json} {g : Gapped} (h : json.Spells g.text) (hg : g.IsSound) :
    Json.read? g.bytes = some json := by
  have hafter : EndsNumber (g.after ++ []) := by
    cases hgap : g.after with
    | nil => simp [EndsNumber, BeginsWithDigit]
    | cons blank gap =>
      exact endsNumber_cons (not_number_of_isBlank (hg.2 blank (hgap ▸ List.mem_cons_self))) _
  have hread := readValue_gapped hg h.isReadFrom (Nat.le_add_right _ 2) hafter
  have hrest : skipBlanks (g.after ++ []) = [] := skipBlanks_append hg.2 []
  rw [List.append_nil] at hread
  simp only [Json.read?, hread, hrest, Option.bind_eq_bind, Option.bind_some]
  rfl

end Reading

end FlowGraph.Json
