import Mathlib
import FlowGraph.Proofs.Denoting

/-! Archives as JSON are read back as they were, or not at all. -/
namespace FlowGraph.Archive

open Json (Library quote unquote?)
open Decimal (Numeral)

section Native

/-- The library behind the codec of this project itself. -/
def nativeLibrary : Library where
  parse := Json.read?
  digits := numberLayout.numeral
  float? := finite?
  integer? := wholeNumber?
  string? := unquote?

theorem isFinite_of_finite? {negative : Bool} {numeral : Numeral} {x : Binary .double}
    (h : finite? negative numeral = some x) : x.isFinite = true := by
  unfold finite? at h
  dsimp only at h
  split at h
  case isTrue hfinite =>
    cases h
    exact hfinite
  case isFalse => cases h

theorem finite?_numeral {x : Binary .double} (h : x.isFinite = true) :
    finite? x.negative (numberLayout.numeral x) = some x := by
  have hread : (numberLayout.numeral x).decimal.toBinary x.negative = x :=
    Decimal.Layout.toBinary_numeral rfl h
  rw [finite?, hread]
  exact if_pos h

theorem wholeNumber?_of_isWhole {negative : Bool} {numeral : Numeral} {n : Int}
    (hwhole : numeral.isWhole = true)
    (hn : n = if negative then -(Decimal.ofDigits numeral.whole : Int)
      else Decimal.ofDigits numeral.whole)
    (hzero : negative = true → n ≠ 0) : wholeNumber? negative numeral = some n := by
  have hsign : ¬(negative = true ∧ Decimal.ofDigits numeral.whole = 0) := by
    rintro ⟨rfl, hdigits⟩
    refine hzero rfl ?_
    rw [hn, hdigits]
    rfl
  rw [wholeNumber?, hn]
  simp [hwhole, hsign]

theorem wellFormed_numeral (x : Binary .double) : (numberLayout.numeral x).WellFormed := by
  have hzero : ∀ c ∈ numberLayout.wholeFraction, c.isDigit = true :=
    List.forall_mem_singleton.mpr rfl
  exact Decimal.Layout.wellFormed_arrange hzero _

theorem nativeLibrary_lawful : nativeLibrary.Lawful where
  parse h hg := h.read? hg
  digits _ := wellFormed_numeral _
  float h := finite?_numeral h
  finite h := isFinite_of_finite? h
  integer _ hwhole hn hzero _ := wholeNumber?_of_isWhole hwhole hn hzero
  string h := h.unquote?

theorem jsonParts?_taggedJson (kind : Kind) (content : Json) :
    jsonParts? (taggedJson kind content) =
      some ⟨.kindFirst, .string (quote kind.name), content, []⟩ := by
  simp [jsonParts?, taggedJson, (Json.escapes_quote _).unquote?]
  rfl

theorem jsonKind?_name (held : Bool) (depth : Nat) (kind : Kind) :
    jsonKind? held depth .kindFirst (.string (quote kind.name)) = some kind := by
  rw [jsonKind?, (Json.escapes_quote _).unquote?]
  cases kind <;> rfl

/-- A kind that comes before its content decides what the content is read as. -/
theorem Value.ofJson?_taggedJson (held : Bool) (kind : Kind) (content : Json) (depth : Nat) :
    Value.ofJson? held (depth + 1) (taggedJson kind content) =
      Value.ofJsonContent? (match depth with
        | 0 => none
        | inner + 1 => some (Value.ofJson? held inner)) kind content := by
  rw [Value.ofJson?, jsonParts?_taggedJson, Option.bind_eq_bind, Option.bind_some,
    jsonKind?_name, Option.bind_eq_bind, Option.bind_some]
  cases held <;> rfl

theorem propertiesOfJson?_some {readValue : Json → Option Value}
    {members : List (List UInt8 × Json)} {a : Archive} :
    propertiesOfJson? readValue members = some a ↔
      ∃ properties, List.Forall₂ (fun member property => unquote? member.1 = some property.1 ∧
        readValue member.2 = some property.2) members properties ∧ a = ofList properties := by
  refine foldlM_insert_some fun a member b => ?_
  simp only [Option.bind_eq_bind, Option.bind_eq_some_iff, Option.pure_def, Option.some.injEq,
    Prod.exists]
  constructor
  · rintro ⟨name, hname, value, hvalue, rfl⟩
    exact ⟨name, value, ⟨hname, hvalue⟩, rfl⟩
  · rintro ⟨name, value, ⟨hname, hvalue⟩, rfl⟩
    exact ⟨name, hname, value, hvalue, rfl⟩

/-- Members are read if their names and values are, and only then. -/
theorem propertiesOfJson?_iff {readValue : Json → Option Value}
    {members : List (List UInt8 × Json)} {a : Archive} :
    propertiesOfJson? readValue members = some a ↔
      ∃ entries : List ((List UInt8 × Json) × String × Value),
        members = entries.map Prod.fst ∧ a = ofList (entries.map Prod.snd) ∧
          (∀ entry ∈ entries, unquote? entry.1.1 = some entry.2.1) ∧
          ∀ entry ∈ entries, readValue entry.1.2 = some entry.2.2 := by
  rw [propertiesOfJson?_some]
  constructor
  · rintro ⟨properties, hall, rfl⟩
    obtain ⟨entries, hentries, rfl, rfl⟩ := exists_zip hall
    exact ⟨entries, rfl, rfl, fun entry hentry => (hentries entry hentry).1,
      fun entry hentry => (hentries entry hentry).2⟩
  · rintro ⟨entries, rfl, rfl, hnames, hitems⟩
    refine ⟨_, ?_, rfl⟩
    rw [List.forall₂_map_left_iff, List.forall₂_map_right_iff, List.forall₂_same]
    exact fun entry hentry => ⟨hnames entry hentry, hitems entry hentry⟩

theorem Value.ofJsonContent?_int {inside : Option (Json → Option Value)} {negative : Bool}
    {numeral : Numeral} {v : Value} :
    Value.ofJsonContent? inside .int (.number negative numeral) = some v ↔
      ∃ n : Int64, wholeNumber? negative numeral = some n.toInt ∧ v = .int n := by
  simp only [Value.ofJsonContent?, Option.bind_eq_bind, Option.bind_eq_some_iff]
  constructor
  · rintro ⟨n, hn, h⟩
    split at h <;> cases h
    next hrange =>
      refine ⟨Int64.ofInt n, ?_, rfl⟩
      rw [hn, Int64.toInt_ofInt_of_le hrange.1 (Int.lt_add_one_of_le hrange.2)]
  · rintro ⟨n, hn, rfl⟩
    refine ⟨_, hn, ?_⟩
    rw [if_pos ⟨n.le_toInt, n.toInt_le⟩, Int64.ofInt_toInt]

theorem Value.ofJsonContent?_uint {inside : Option (Json → Option Value)} {negative : Bool}
    {numeral : Numeral} {v : Value} :
    Value.ofJsonContent? inside .uint (.number negative numeral) = some v ↔
      ∃ n : UInt64, wholeNumber? negative numeral = some (n.toNat : Int) ∧ v = .uint n := by
  simp only [Value.ofJsonContent?, Option.bind_eq_bind, Option.bind_eq_some_iff]
  constructor
  · rintro ⟨n, hn, h⟩
    split at h <;> cases h
    next hrange =>
      refine ⟨UInt64.ofNat n.toNat, ?_, rfl⟩
      have hlt : n.toNat < UInt64.size := by omega
      rw [hn, UInt64.toNat_ofNat_of_lt' hlt, Int.toNat_of_nonneg hrange.1]
  · rintro ⟨n, hn, rfl⟩
    have hlt : n.toNat < UInt64.size := n.toNat_lt
    refine ⟨_, hn, ?_⟩
    rw [if_pos ⟨Int.natCast_nonneg _, Int.ofNat_lt.mpr hlt⟩, Int.toNat_natCast,
      UInt64.ofNat_toNat]

/-- What a tree stands for is read from it. By induction on what it stands for. -/
theorem Denotes.ofJson? {depth : Nat} {json : Json} {v : Value}
    (h : Denotes nativeLibrary IsTagged depth json v) (held : Bool) :
    Value.ofJson? held depth json = some v := by
  induction h with
  | bool h =>
    subst h
    exact Value.ofJson?_taggedJson ..
  | int h hn =>
    subst h
    exact (Value.ofJson?_taggedJson ..).trans (Value.ofJsonContent?_int.mpr ⟨_, hn, rfl⟩)
  | uint h hn =>
    subst h
    exact (Value.ofJson?_taggedJson ..).trans (Value.ofJsonContent?_uint.mpr ⟨_, hn, rfl⟩)
  | float h hx =>
    subst h
    exact (Value.ofJson?_taggedJson ..).trans (congrArg (Option.map Value.float) hx)
  | string h hs =>
    subst h
    exact (Value.ofJson?_taggedJson ..).trans (congrArg (Option.map Value.string) hs)
  | array h _ ih =>
    subst h
    refine (Value.ofJson?_taggedJson ..).trans
      (congrArg (Option.map Value.array) (mapM_some.mpr ?_))
    rw [List.forall₂_map_left_iff, List.forall₂_map_right_iff, List.forall₂_same]
    exact ih
  | object h hnames _ ih =>
    subst h
    exact (Value.ofJson?_taggedJson ..).trans (congrArg (Option.map toValue)
      (propertiesOfJson?_iff.mpr ⟨_, rfl, rfl, hnames, ih⟩))

theorem eq_of_ofName {name : String} (h : Field.ofName name = .content) : name = "value" := by
  unfold Field.ofName at h
  split_ifs at h with _ hname
  exact hname

/-- The content of a stored value that was taken apart is where contents are. -/
theorem hasContent_jsonParts? {json : Json} {parts : Tagged Json} (h : jsonParts? json = some parts)
    (kind : Kind) : HasContent nativeLibrary kind parts.content json := by
  unfold jsonParts? at h
  split at h
  next items =>
    unfold Tagged.ofList? at h
    split at h <;> cases h
    exact .inl ⟨_, rfl⟩
  next members =>
    obtain ⟨entries, hentries, h⟩ := Option.bind_eq_some_iff.mp h
    have hcontent : (Field.content, parts.content) ∈ entries := by
      unfold Tagged.ofEntries? at h
      -- the content comes after its kind or before it, and there is only one of each
      split at h
      next hfilter =>
        cases h
        exact List.mem_of_mem_filter (hfilter ▸ List.mem_cons_of_mem _ List.mem_cons_self)
      next hfilter =>
        cases h
        exact List.mem_of_mem_filter (hfilter ▸ List.mem_cons_self)
      next => cases h
    obtain ⟨⟨raw, item⟩, hmem, hentry⟩ := forall₂_mem_right (mapM_some.mp hentries) hcontent
    obtain ⟨name, hname, heq⟩ := Option.bind_eq_some_iff.mp hentry
    obtain ⟨hfield, rfl⟩ := Prod.mk.inj (Option.some.inj heq)
    exact .inr ⟨members, raw, rfl, hmem, hname.trans (congrArg some (eq_of_ofName hfield))⟩
  next => cases h

theorem Value.denotes_ofJsonContent? {tags : Kind → Json → Json → Prop} {depth : Nat}
    {inside : Option (Json → Option Value)}
    (hinside : ∀ read, inside = some read → ∃ inner, depth = inner + 1 ∧
      ∀ json v, read json = some v → Denotes nativeLibrary tags inner json v)
    {kind : Kind} {content json : Json} (htag : tags kind content json) {v : Value}
    (h : Value.ofJsonContent? inside kind content = some v) :
    Denotes nativeLibrary tags (depth + 1) json v := by
  unfold Value.ofJsonContent? at h
  split at h
  · cases h
    exact .bool htag
  · obtain ⟨n, hn, rfl⟩ := (@ofJsonContent?_int inside _ _ _).mp h
    exact .int htag hn
  · obtain ⟨n, hn, rfl⟩ := (@ofJsonContent?_uint inside _ _ _).mp h
    exact .uint htag hn
  · obtain ⟨x, hx, rfl⟩ := Option.map_eq_some_iff.mp h
    exact .float htag hx
  · obtain ⟨s, hs, rfl⟩ := Option.map_eq_some_iff.mp h
    exact .string htag hs
  · obtain ⟨read, hread, h⟩ := Option.bind_eq_some_iff.mp h
    obtain ⟨inner, rfl, hsound⟩ := hinside read hread
    obtain ⟨items, hitems, rfl⟩ := Option.map_eq_some_iff.mp h
    obtain ⟨pairs, hpairs, rfl, rfl⟩ := exists_zip (mapM_some.mp hitems)
    exact .array htag fun pair hpair => hsound _ _ (hpairs pair hpair)
  · obtain ⟨read, hread, h⟩ := Option.bind_eq_some_iff.mp h
    obtain ⟨inner, rfl, hsound⟩ := hinside read hread
    obtain ⟨a, ha, rfl⟩ := Option.map_eq_some_iff.mp h
    obtain ⟨entries, rfl, rfl, hnames, hitems⟩ := propertiesOfJson?_iff.mp ha
    exact .object htag hnames fun entry hentry => hsound _ _ (hitems entry hentry)
  · cases h

/-- Nothing is read from a tree but what it stands for. By induction on the levels that are left,
two of which a list or an object takes. -/
theorem Value.denotes_ofJson? {held : Bool} {depth : Nat} {json : Json} {v : Value}
    (h : Value.ofJson? held depth json = some v) :
    Denotes nativeLibrary (HasContent nativeLibrary) depth json v := by
  induction depth using Nat.strong_induction_on generalizing held json v with
  | _ depth ih =>
    cases depth with
    | zero => cases h
    | succ depth =>
      rw [Value.ofJson?] at h
      obtain ⟨parts, hparts, h⟩ := Option.bind_eq_some_iff.mp h
      obtain ⟨kind, -, h⟩ := Option.bind_eq_some_iff.mp h
      dsimp only at h
      split at h
      case isTrue => cases h
      case isFalse =>
        refine Value.denotes_ofJsonContent? (fun read hread => ?_)
          (hasContent_jsonParts? hparts kind) h
        cases depth with
        | zero => cases hread
        | succ inner =>
          cases hread
          exact ⟨inner, rfl, fun json v hv => ih inner (by omega) hv⟩

theorem native_json_read {text : List UInt8} {a : Archive} :
    (Codecs.native .json).read text = some a ↔
      ∃ json, Json.read? text = some json ∧ ofJson? json = some a := by
  show (decodeJson text).toOption = some a ↔ _
  unfold decodeJson
  cases Json.read? text with
  | none => simp [Except.toOption]
  | some json => cases hjson : ofJson? json <;> simp [hjson, Except.toOption]

/-- The codec of this project prints and reads as a JSON codec does. -/
theorem Codecs.native_prints : (native .json).Prints nativeLibrary where
  lawful := nativeLibrary_lawful
  write _ := rfl
  read {text json a} h ha := by
    obtain ⟨entries, rfl, rfl, hnames, hitems⟩ := ha
    refine native_json_read.mpr ⟨_, h, propertiesOfJson?_iff.mpr ⟨entries, rfl, rfl, hnames, ?_⟩⟩
    exact fun entry hentry => (hitems entry hentry).ofJson? false
  sound h := by
    obtain ⟨json, hjson, ha⟩ := native_json_read.mp h
    unfold ofJson? at ha
    split at ha
    next members =>
      obtain ⟨entries, rfl, rfl, hnames, hitems⟩ := propertiesOfJson?_iff.mp ha
      exact ⟨_, hjson, entries, rfl, rfl, hnames, fun entry hentry =>
        Value.denotes_ofJson? (hitems entry hentry)⟩
    next => cases ha

end Native

namespace Codecs

variable {codecs : Codecs} {lib : Library} {a : Archive}

theorem encode_json (hcodec : (codecs .json).Prints lib) (a : Archive) :
    codecs.encode .json a = .ok ((a.toJson lib.digits).write 0) :=
  encode_ok.mpr (hcodec.write a)

/-- What is printed for an archive is read as the archive, or not at all. -/
theorem decode_write_ok (hcodec : (codecs .json).Prints lib) (h : a.Ordered) (b : Archive) :
    codecs.decode .json ((a.toJson lib.digits).write 0) = .ok b ↔
      (a.Finite ∧ (a.toJson lib.digits).nestsWithin jsonDepth = true) ∧ b = a := by
  rw [decode_ok, read_write hcodec h, nestsWithin_toJson]

/-- The text of an archive is read back as the archive if its numbers are finite and no more lists
and objects nest in it than may, and else is not read at all. Every archive that is read from any
text is of that kind, so its text is read back. -/
theorem decode_json (hcodec : (codecs .json).Prints lib) (h : a.Ordered) :
    ∃ text, codecs.encode .json a = .ok text ∧ lib.parse text = some (a.toJson lib.digits) ∧
      (codecs.decode .json text = .ok a ↔
        a.Finite ∧ (a.toJson lib.digits).nestsWithin jsonDepth = true) ∧
      (¬(a.Finite ∧ (a.toJson lib.digits).nestsWithin jsonDepth = true) →
        codecs.decode .json text = .error .json) ∧
      ∀ text b, codecs.decode .json text = .ok b →
        (b.Ordered ∧ b.Finite ∧ (b.toJson lib.digits).nestsWithin jsonDepth = true) ∧
          ∃ text', codecs.encode .json b = .ok text' ∧ codecs.decode .json text' = .ok b := by
  refine ⟨_, encode_json hcodec a, parse_write hcodec a, ?_, fun hnot => ?_, fun text b hb => ?_⟩
  · rw [decode_write_ok hcodec h, and_iff_left rfl]
  -- what is not read as the archive is not read as any other
  · rcases decode_cases codecs .json ((a.toJson lib.digits).write 0) with ⟨b, hb⟩ | herror
    · exact absurd ((decode_write_ok hcodec h b).mp hb).1 hnot
    · exact herror
  · obtain ⟨hordered, hfinite, hnesting⟩ := read_readable hcodec (decode_ok.mp hb)
    have hdepth := (@nestsWithin_toJson lib.digits b jsonDepth).mpr hnesting
    exact ⟨⟨hordered, hfinite, hdepth⟩, _, encode_json hcodec b,
      (decode_write_ok hcodec hordered b).mpr ⟨⟨hfinite, hdepth⟩, rfl⟩⟩

/-- What has to be escaped, the least number there is, and a minus zero. -/
def escapes : Archive :=
  ⟨[("", .object []), ("\"\\\n", .array [.string "é\u0001/", .int Int64.minValue]),
    ("x", .array [.float ⟨1⟩, .float ⟨0x8000000000000000⟩, .array []])]⟩

/-- One number, which is not finite. -/
def overflow : Archive := ⟨[("x", .float (.infinity true))]⟩

theorem decode_json_escapes :
    ((native .json).Prints nativeLibrary ∧ escapes.Ordered ∧ overflow.Ordered) ∧
    (∃ text, native.encode .json escapes = .ok text ∧
      native.decode .json text = .ok escapes) ∧
    ∃ text, native.encode .json overflow = .ok text ∧
      native.decode .json text = .error .json := by
  have hordered : escapes.Ordered ∧ overflow.Ordered := by decide
  refine ⟨⟨native_prints, hordered⟩, ?_, ?_⟩
  · obtain ⟨text, htext, -, hread, -⟩ := decode_json native_prints hordered.1
    exact ⟨text, htext, hread.mpr ⟨by decide, (nestsWithin_toJson _ _).mpr (by decide)⟩⟩
  · obtain ⟨text, htext, -, -, herror, -⟩ := decode_json native_prints hordered.2
    exact ⟨text, htext, herror fun h => absurd h.1 (by decide)⟩

end Codecs

end FlowGraph.Archive
