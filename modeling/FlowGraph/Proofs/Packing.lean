import Mathlib
import FlowGraph.MessagePack.Reader
import FlowGraph.MessagePack.Writer
import FlowGraph.Proofs.Outcome

/-! The forms that an object may have as MessagePack. The writer chooses the shortest one, and the
reader takes every one, whatever follows it. -/
namespace FlowGraph.MessagePack

theorem bigEndian_succ (count n : Nat) :
    bigEndian (count + 1) n = UInt8.ofNat (n / 256 ^ count) :: bigEndian count n := by
  simp [bigEndian, List.range_succ]

theorem bigEndian_one (n : Nat) : bigEndian 1 n = [UInt8.ofNat n] := by
  rw [bigEndian_succ, Nat.pow_zero, Nat.div_one]
  rfl

theorem length_bigEndian (count n : Nat) : (bigEndian count n).length = count := by
  simp [bigEndian]

/-- The bytes of a number are its digits, after those that were read before. -/
theorem foldl_bigEndian (count n total : Nat) :
    (bigEndian count n).foldl (fun n b => 256 * n + b.toNat) total =
      total * 256 ^ count + n % 256 ^ count := by
  induction count generalizing total with
  | zero => simp [bigEndian, Nat.mod_one]
  | succ count ih =>
    rw [bigEndian_succ, List.foldl_cons, ih, Nat.mod_pow_succ, Nat.pow_succ, UInt8.toNat_ofNat']
    ring

theorem takeBytes_append {count : Nat} {bytes : List UInt8} (h : bytes.length = count)
    (text : List UInt8) : takeBytes count (bytes ++ text) = some (bytes, text) := by
  subst h
  rw [takeBytes, if_neg (by simp), List.take_left, List.drop_left]

theorem takeNat_bigEndian (count n : Nat) (text : List UInt8) :
    takeNat count (bigEndian count n ++ text) = some (n % 256 ^ count, text) := by
  have hfold := foldl_bigEndian count n 0
  rw [Nat.zero_mul, Nat.zero_add] at hfold
  rw [takeNat, takeBytes_append (length_bigEndian count n), ← hfold]
  rfl

theorem takeNat_of_lt {count n : Nat} (h : n < 256 ^ count) (text : List UInt8) :
    takeNat count (bigEndian count n ++ text) = some (n, text) := by
  rw [takeNat_bigEndian, Nat.mod_eq_of_lt h]

/-- The complement of a number stands for the number. -/
theorem takeInt_complement {count : Nat} {n : Int} (hlow : -(256 ^ count : Nat) ≤ 2 * n)
    (hhigh : 2 * n < (256 ^ count : Nat)) (text : List UInt8) :
    takeInt count (bigEndian count (n + (256 ^ count : Nat)).toNat ++ text) = some (n, text) := by
  have hnat : (n + (256 ^ count : Nat)).toNat = n + (256 ^ count : Nat) :=
    Int.toNat_of_nonneg (by omega)
  have hbmod :
      Int.bmod ((n + (256 ^ count : Nat)).toNat % 256 ^ count : Nat) (256 ^ count) = n := by
    rw [Int.natCast_mod, Int.emod_bmod, hnat, Int.add_bmod_right]
    -- of all numbers with this remainder, it is the one between the halves of the range
    exact Int.bmod_eq_of_le_mul_two (by omega) (by omega)
  rw [takeInt, takeNat_bigEndian]
  exact congrArg (fun k => some (k, text)) hbmod

theorem takeSized_of {width extra count : Nat} {text bytes rest : List UInt8}
    (h : takeNat width text = some (count, bytes ++ rest))
    (hlength : bytes.length = count + extra) :
    takeSized width extra text = some (bytes, rest) := by
  simp only [takeSized, h, Option.bind_eq_bind, Option.bind_some, takeBytes_append hlength]

theorem takeMany_map {α β : Type} {take : Take β} {value : α → β} {form : α → List UInt8}
    {xs : List α} (h : ∀ x ∈ xs, ∀ text, take (form x ++ text) = some (value x, text))
    (text : List UInt8) :
    takeMany take xs.length (xs.flatMap form ++ text) = some (xs.map value, text) := by
  induction xs with
  | nil => rfl
  | cons x rest ih =>
    have hx := h x List.mem_cons_self (rest.flatMap form ++ text)
    have hrest := ih fun y hy => h y (List.mem_cons_of_mem _ hy)
    simp only [List.flatMap_cons, List.append_assoc, List.length_cons, takeMany, hx, hrest,
      Option.bind_eq_bind, Option.bind_some, Option.pure_def, List.map_cons]

/-- The markers of scalars are those below the ones of lists and maps, between their short and their
long forms, and above. -/
def IsScalarMarker (marker : Nat) : Prop :=
  marker < 0x80 ∨ 0xA0 ≤ marker ∧ marker < 0xDC ∨ 0xE0 ≤ marker ∧ marker < 0x100

theorem read_scalar {marker : Nat} (h : IsScalarMarker marker) (depth : Nat) (text : List UInt8) :
    read depth (UInt8.ofNat marker :: text) = readScalar marker text := by
  unfold IsScalarMarker at h
  have hmarker : (UInt8.ofNat marker).toNat = marker := by
    rw [UInt8.toNat_ofNat']
    omega
  have hlist : listLength? marker = none := by
    rw [listLength?, if_neg (by simp; omega), if_neg (by omega), if_neg (by omega)]
  have hmap : mapLength? marker = none := by
    rw [mapLength?, if_neg (by simp; omega), if_neg (by omega), if_neg (by omega)]
  rw [read_other (by rwa [hmarker]) (by rwa [hmarker]), hmarker]

/-- The markers with a length or a number behind them are all among these. -/
theorem read_scalar_between {marker : Nat} (h : 0xA0 ≤ marker ∧ marker < 0xDC) (depth : Nat)
    (text : List UInt8) :
    read depth (UInt8.ofNat marker :: text) = readScalar marker text :=
  read_scalar (.inr (.inl h)) depth text

/-- The forms of a length: within a marker, or in some bytes behind one. -/
inductive Header (small limit : Nat) (markers : List (Nat × Nat)) (n : Nat) : List UInt8 → Prop
  | short (h : n < limit) : Header small limit markers n [UInt8.ofNat (small + n)]
  | wide {marker count : Nat} (h : (marker, count) ∈ markers) (hn : n < 256 ^ count) :
    Header small limit markers n (UInt8.ofNat marker :: bigEndian count n)

abbrev StrHeader := Header 0xA0 32 [(0xD9, 1), (0xDA, 2), (0xDB, 4)]

abbrev ListHeader := Header 0x90 16 [(0xDC, 2), (0xDD, 4)]

abbrev MapHeader := Header 0x80 16 [(0xDE, 2), (0xDF, 4)]

/-- The forms of a signed number: a marker that is its complement, or some bytes behind one. -/
inductive SignedForm (n : Int) : List UInt8 → Prop
  | short (h : -32 ≤ n ∧ n < 0) : SignedForm n (bigEndian 1 (n + (256 ^ 1 : Nat)).toNat)
  | wide {marker count : Nat} (h : (marker, count) ∈ [(0xD0, 1), (0xD1, 2), (0xD2, 4), (0xD3, 8)])
    (hlow : -(256 ^ count : Nat) ≤ 2 * n) (hhigh : 2 * n < (256 ^ count : Nat)) :
    SignedForm n (UInt8.ofNat marker :: bigEndian count (n + (256 ^ count : Nat)).toNat)

/-- How many numbers a width has room for. -/
def Width.limit : Width → Nat
  | none => 0x80
  | width => 256 ^ width.bytes

/-- The bytes that may stand for an object, of the objects that archives are made of. -/
inductive Form : MessagePack → List UInt8 → Prop
  | bool (b : Bool) : Form (bool b) [if b then 0xC3 else 0xC2]
  | uint {width : Width} {n : UInt64} (h : n.toNat < width.limit) :
    Form (uint width n) (writeUInt n.toNat width)
  | int {n : Int64} {bytes : List UInt8} (h : SignedForm n.toInt bytes) : Form (int n) bytes
  | double (x : Binary .double) : Form (double x) (0xCB :: bigEndian 8 x.bits.toNat)
  | str {bytes header : List UInt8} (h : StrHeader bytes.length header) :
    Form (str bytes) (header ++ bytes)
  | array {items : List (MessagePack × List UInt8)} {header : List UInt8}
    (h : ListHeader items.length header) (hitems : ∀ item ∈ items, Form item.1 item.2) :
    Form (array (items.map Prod.fst)) (header ++ items.flatMap Prod.snd)
  | map {entries : List ((MessagePack × List UInt8) × MessagePack × List UInt8)}
    {header : List UInt8} (h : MapHeader entries.length header)
    (hkeys : ∀ entry ∈ entries, Form entry.1.1 entry.1.2)
    (hitems : ∀ entry ∈ entries, Form entry.2.1 entry.2.2) :
    Form (map (entries.map fun entry => (entry.1.1, entry.2.1)))
      (header ++ entries.flatMap fun entry => entry.1.2 ++ entry.2.2)

section Writing

/-- The shortest form of a length is one of its forms. -/
theorem header_writeLength {n : Nat} (h : n < 2 ^ 32) {small limit wide : Nat}
    {markers : List (Nat × Nat)} (htwo : (wide, 2) ∈ markers) (hfour : (wide + 1, 4) ∈ markers) :
    Header small limit markers n (writeLength small limit wide n) := by
  unfold writeLength
  split
  case isTrue hsmall => exact .short hsmall
  case isFalse =>
    split
    case isTrue hmiddle => exact .wide htwo hmiddle
    case isFalse => exact .wide hfour h

theorem form_writeStr {bytes : List UInt8} (h : bytes.length < 2 ^ 32) :
    Form (str bytes) (writeStr bytes) := by
  refine .str ?_
  -- only strings have a form with one byte for the length
  split
  case isTrue hlength =>
    exact .wide (show (0xD9, 1) ∈ _ from List.mem_cons_self) hlength.2
  case isFalse => exact header_writeLength h (by decide) (by decide)

theorem form_writeInt (n : Int64) : Form (int n) (writeInt n.toInt) := by
  have hlow := n.le_toInt
  have hhigh := n.toInt_lt
  refine .int ?_
  unfold writeInt
  dsimp only
  split
  case isTrue h => exact .short h
  case isFalse =>
    split
    case isTrue h => exact .wide (show (0xD0, 1) ∈ _ by decide) (by omega) (by omega)
    case isFalse =>
      split
      case isTrue h => exact .wide (show (0xD1, 2) ∈ _ by decide) (by omega) (by omega)
      case isFalse =>
        split
        case isTrue h => exact .wide (show (0xD2, 4) ∈ _ by decide) (by omega) (by omega)
        case isFalse => exact .wide (show (0xD3, 8) ∈ _ by decide) (by omega) (by omega)

theorem Width.lt_limit_least {n : Nat} (h : n < UInt64.size) : n < (least n).limit := by
  unfold least
  split
  case isTrue hn => exact hn
  case isFalse =>
    split
    case isTrue hn => exact hn
    case isFalse =>
      split
      case isTrue hn => exact hn
      case isFalse =>
        split
        case isTrue hn => exact hn
        case isFalse => exact h

theorem writeItems_eq (items : List MessagePack) : writeItems items = items.flatMap write := by
  induction items with
  | nil => rfl
  | cons item rest ih => rw [writeItems, ih, List.flatMap_cons]

theorem writeEntries_eq (entries : List (MessagePack × MessagePack)) :
    writeEntries entries = entries.flatMap fun entry => entry.1.write ++ entry.2.write := by
  induction entries with
  | nil => rfl
  | cons entry rest ih => rw [writeEntries, ih, List.flatMap_cons]

theorem form_writeArray {items : List MessagePack} (h : items.length < 2 ^ 32)
    (hitems : ∀ item ∈ items, Form item item.write) : Form (array items) (array items).write := by
  have hheader : ListHeader (items.map fun item => (item, item.write)).length
      (writeLength 0x90 16 0xDC items.length) := by
    rw [List.length_map]
    exact header_writeLength h (by decide) (by decide)
  have hfirst : (items.map fun item => (item, item.write)).map Prod.fst = items :=
    List.map_map.trans (List.map_id items)
  have hform := Form.array hheader (List.forall_mem_map.mpr hitems)
  rw [hfirst, List.flatMap_map] at hform
  rwa [write, writeItems_eq]

theorem form_writeMap {entries : List (MessagePack × MessagePack)} (h : entries.length < 2 ^ 32)
    (hkeys : ∀ entry ∈ entries, Form entry.1 entry.1.write)
    (hitems : ∀ entry ∈ entries, Form entry.2 entry.2.write) :
    Form (map entries) (map entries).write := by
  have hheader : MapHeader
      (entries.map fun entry => ((entry.1, entry.1.write), entry.2, entry.2.write)).length
      (writeLength 0x80 16 0xDE entries.length) := by
    rw [List.length_map]
    exact header_writeLength h (by decide) (by decide)
  have hfirst : (entries.map fun entry => ((entry.1, entry.1.write), entry.2, entry.2.write)).map
      (fun entry => (entry.1.1, entry.2.1)) = entries := List.map_map.trans (List.map_id entries)
  have hform := Form.map hheader (List.forall_mem_map.mpr hkeys) (List.forall_mem_map.mpr hitems)
  rw [hfirst, List.flatMap_map] at hform
  rwa [write, writeEntries_eq]

end Writing

section Reading

/-- Behind the length of a list its items are read. -/
theorem read_listHeader {n : Nat} {header : List UInt8} (h : ListHeader n header) {inner : Nat}
    {text rest : List UInt8} {items : List MessagePack}
    (hitems : takeMany (read inner) n text = some (items, rest)) :
    read (inner + 1) (header ++ text) = some (array items, rest) := by
  cases h with
  | short hlt =>
    have hmarker : (UInt8.ofNat (0x90 + n)).toNat = 0x90 + n := by
      rw [UInt8.toNat_ofNat']
      omega
    have hlength : listLength? (UInt8.ofNat (0x90 + n)).toNat =
        some fun text => some (n, text) := by
      rw [hmarker, listLength?, if_pos (by simp; omega)]
      simp
    exact read_list hlength rfl hitems
  | wide h hn =>
    have hcount := takeNat_of_lt hn text
    rcases List.mem_pair.mp h with h | h <;> cases h
    · exact read_list rfl hcount hitems
    · exact read_list rfl hcount hitems

theorem read_mapHeader {n : Nat} {header : List UInt8} (h : MapHeader n header) {inner : Nat}
    {text rest : List UInt8} {entries : List (MessagePack × MessagePack)}
    (hentries : takeMany (takePair (read inner)) n text = some (entries, rest)) :
    read (inner + 1) (header ++ text) = some (map entries, rest) := by
  cases h with
  | short hlt =>
    have hmarker : (UInt8.ofNat (0x80 + n)).toNat = 0x80 + n := by
      rw [UInt8.toNat_ofNat']
      omega
    have hlist : listLength? (UInt8.ofNat (0x80 + n)).toNat = none := by
      rw [hmarker, listLength?, if_neg (by simp; omega), if_neg (by omega), if_neg (by omega)]
    have hlength : mapLength? (UInt8.ofNat (0x80 + n)).toNat =
        some fun text => some (n, text) := by
      rw [hmarker, mapLength?, if_pos (by simp; omega)]
      simp
    exact read_map hlist hlength rfl hentries
  | wide h hn =>
    have hcount := takeNat_of_lt hn text
    rcases List.mem_pair.mp h with h | h <;> cases h
    · exact read_map rfl rfl hcount hentries
    · exact read_map rfl rfl hcount hentries

/-- What follows its length is read as a whole. -/
theorem readBytes_of {make : List UInt8 → MessagePack} {width count : Nat}
    {text bytes rest : List UInt8} (h : takeNat width text = some (count, bytes ++ rest))
    (hlength : bytes.length = count + 0) :
    readBytes make width 0 text = some (make bytes, rest) := by
  simp only [readBytes, takeSized_of h hlength, Option.bind_eq_bind, Option.bind_some,
    Option.pure_def]

theorem readScalar_positive {marker : Nat} (h : marker < 0x80) (text : List UInt8) :
    readScalar marker text = some (uint .none (UInt64.ofNat marker), text) := by
  unfold readScalar
  rw [if_pos h]

theorem readScalar_negative {marker : Nat} (h : 0xE0 ≤ marker) (text : List UInt8) :
    readScalar marker text = some (int (Int64.ofInt (marker - 0x100)), text) := by
  unfold readScalar
  rw [if_neg (by omega), if_neg (by simp; omega), if_pos h]

theorem readScalar_str {bytes : List UInt8} (h : bytes.length < 32) (text : List UInt8) :
    readScalar (0xA0 + bytes.length) (bytes ++ text) = some (str bytes, text) := by
  unfold readScalar
  rw [if_neg (by omega), if_pos (by simp; omega), Nat.add_sub_cancel_left, takeBytes_append rfl]
  rfl

theorem read_strHeader {bytes header : List UInt8} (h : StrHeader bytes.length header)
    (depth : Nat) (text : List UInt8) :
    read depth (header ++ (bytes ++ text)) = some (str bytes, text) := by
  cases h with
  | short hlt => exact (read_scalar_between (by omega) _ _).trans (readScalar_str hlt text)
  | wide h hn =>
    have hbytes := @readBytes_of str _ _ _ _ _ (takeNat_of_lt hn (bytes ++ text)) rfl
    rcases List.mem_cons.mp h with h | h
    · cases h
      exact (read_scalar_between (by decide) _ _).trans hbytes
    · rcases List.mem_pair.mp h with h | h <;> cases h
      · exact (read_scalar_between (by decide) _ _).trans hbytes
      · exact (read_scalar_between (by decide) _ _).trans hbytes

theorem readUInt_of {width : Width} {n : UInt64} (h : n.toNat < 256 ^ width.bytes)
    (text : List UInt8) :
    readUInt width (bigEndian width.bytes n.toNat ++ text) = some (uint width n, text) := by
  simp only [readUInt, takeNat_of_lt h, Option.bind_eq_bind, Option.bind_some, Option.pure_def,
    UInt64.ofNat_toNat]

theorem read_writeUInt {width : Width} {n : UInt64} (h : n.toNat < width.limit) (depth : Nat)
    (text : List UInt8) :
    read depth (writeUInt n.toNat width ++ text) = some (uint width n, text) := by
  cases width with
  | none =>
    -- the marker is the number itself
    refine (read_scalar (.inl h) _ _).trans ?_
    rw [readScalar_positive h, UInt64.ofNat_toNat]
    rfl
  | one => exact (read_scalar_between (by decide) _ _).trans (readUInt_of h text)
  | two => exact (read_scalar_between (by decide) _ _).trans (readUInt_of h text)
  | four => exact (read_scalar_between (by decide) _ _).trans (readUInt_of h text)
  | eight => exact (read_scalar_between (by decide) _ _).trans (readUInt_of h text)

theorem readInt_of {width : Nat} {n : Int64} (hlow : -(256 ^ width : Nat) ≤ 2 * n.toInt)
    (hhigh : 2 * n.toInt < (256 ^ width : Nat)) (text : List UInt8) :
    readInt width (bigEndian width (n.toInt + (256 ^ width : Nat)).toNat ++ text) =
      some (int n, text) := by
  have htake := takeInt_complement hlow hhigh text
  simp only [readInt, htake, Option.bind_eq_bind, Option.bind_some, Option.pure_def,
    Int64.ofInt_toInt]

theorem read_signedForm {n : Int64} {bytes : List UInt8} (h : SignedForm n.toInt bytes)
    (depth : Nat) (text : List UInt8) : read depth (bytes ++ text) = some (int n, text) := by
  cases h with
  | short h =>
    -- the marker is the complement of the number
    have hnat : ((n.toInt + (256 : Nat)).toNat : Int) = n.toInt + 256 :=
      Int.toNat_of_nonneg (by omega)
    show read depth (bigEndian 1 (n.toInt + (256 : Nat)).toNat ++ text) = _
    rw [bigEndian_one, List.singleton_append, read_scalar (.inr (.inr ⟨by omega, by omega⟩)),
      readScalar_negative (by omega), hnat, Int.add_sub_cancel, Int64.ofInt_toInt]
  | wide h hlow hhigh =>
    have hread := readInt_of hlow hhigh text
    simp only [List.mem_cons, List.not_mem_nil, or_false, Prod.mk.injEq] at h
    obtain ⟨rfl, rfl⟩ | ⟨rfl, rfl⟩ | ⟨rfl, rfl⟩ | ⟨rfl, rfl⟩ := h
    · exact (read_scalar_between (by decide) _ _).trans hread
    · exact (read_scalar_between (by decide) _ _).trans hread
    · exact (read_scalar_between (by decide) _ _).trans hread
    · exact (read_scalar_between (by decide) _ _).trans hread

theorem takePair_append {take : Take MessagePack}
    {entry : (MessagePack × List UInt8) × MessagePack × List UInt8}
    (hkey : ∀ text, take (entry.1.2 ++ text) = some (entry.1.1, text))
    (hitem : ∀ text, take (entry.2.2 ++ text) = some (entry.2.1, text)) (text : List UInt8) :
    takePair take (entry.1.2 ++ entry.2.2 ++ text) = some ((entry.1.1, entry.2.1), text) := by
  simp only [takePair, List.append_assoc, hkey, hitem, Option.bind_eq_bind, Option.bind_some,
    Option.pure_def]

/-- A number is read from its word. -/
theorem readBits_of {f : Binary.Format} {count : Nat} (hwidth : 2 ^ f.width ≤ 256 ^ count)
    (make : Binary f → MessagePack) (x : Binary f) (text : List UInt8) :
    (do
      let (n, rest) ← takeNat count (bigEndian count x.bits.toNat ++ text)
      return (make ⟨BitVec.ofNat _ n⟩, rest)) = some (make x, text) := by
  have htake := takeNat_of_lt (x.bits.isLt.trans_le hwidth) text
  simp only [htake, Option.bind_eq_bind, Option.bind_some, Option.pure_def, BitVec.ofNat_toNat,
    BitVec.setWidth_eq]

/-- Every form of an object is read as the object and leaves what follows, if so many levels may
nest. By induction on the form. -/
theorem Form.read {m : MessagePack} {bytes : List UInt8} (h : m.Form bytes) {depth : Nat}
    (hdepth : m.nestsWithin depth = true) (text : List UInt8) :
    MessagePack.read depth (bytes ++ text) = some (m, text) := by
  induction h generalizing depth text with
  | bool b => cases b <;> exact read_scalar_between (by decide) _ _
  | uint h => exact read_writeUInt h depth text
  | int h => exact read_signedForm h depth text
  | double x =>
    have hwidth : 2 ^ Binary.Format.double.width ≤ 256 ^ 8 := by decide
    exact (read_scalar_between (by decide) _ _).trans (readBits_of hwidth MessagePack.double x text)
  | str h =>
    rw [List.append_assoc]
    exact read_strHeader h depth text
  | array h hitems ih =>
    cases depth with
    | zero => simp [nestsWithin] at hdepth
    | succ inner =>
      rw [nestsWithin, List.all_eq_true, List.forall_mem_map] at hdepth
      rw [List.append_assoc]
      exact read_listHeader h
        (takeMany_map (fun item hitem text => ih item hitem (hdepth item hitem) text) text)
  | @map entries _ h hkeys hitems ihkeys ihitems =>
    cases depth with
    | zero => simp [nestsWithin] at hdepth
    | succ inner =>
      simp only [nestsWithin, List.all_eq_true, List.forall_mem_map, Bool.and_eq_true] at hdepth
      have hentries : ∀ entry ∈ entries, ∀ text, takePair (MessagePack.read inner)
          (entry.1.2 ++ entry.2.2 ++ text) = some ((entry.1.1, entry.2.1), text) :=
        fun entry hentry text => takePair_append
          (fun text => ihkeys entry hentry (hdepth entry hentry).1 text)
          (fun text => ihitems entry hentry (hdepth entry hentry).2 text) text
      rw [List.append_assoc]
      exact read_mapHeader h (takeMany_map hentries text)

end Reading

theorem nestsWithin_succ {m : MessagePack} {depth : Nat} (h : m.nestsWithin depth = true) :
    m.nestsWithin (depth + 1) = true := by
  induction depth generalizing m with
  | zero => cases m <;> simp_all [nestsWithin]
  | succ depth ih =>
    cases m with
    | array items =>
      rw [nestsWithin, List.all_eq_true] at *
      exact fun item hitem => ih (h item hitem)
    | map entries =>
      simp only [nestsWithin, List.all_eq_true, Bool.and_eq_true] at *
      exact fun entry hentry => ⟨ih (h entry hentry).1, ih (h entry hentry).2⟩
    | _ => rfl

end FlowGraph.MessagePack
