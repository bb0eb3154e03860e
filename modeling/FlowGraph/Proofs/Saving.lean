import Mathlib
import FlowGraph.Proofs.RoundTrip
import FlowGraph.Proofs.Unbounded
import FlowGraph.Tool.Command

/-! What a saved model consists of, and what becomes of it in each format. -/
namespace FlowGraph

theorem Binary.isFinite_widen (x : Binary .single) :
    (x.convert : Binary .double).isFinite = x.isFinite := by
  cases hfinite : x.isFinite with
  | true => exact (steps_widen single_widens hfinite (by decide)).1
  | false =>
    cases hnan : x.isNaN with
    | true =>
      have hwide := (narrow_widen_of_isNaN single_widens.fraction (by decide) hnan).1
      simp only [isNaN, isFinite, decide_eq_true_eq, decide_eq_false_iff_not] at hwide ⊢
      omega
    | false =>
      rw [eq_infinity hnan hfinite, convert_infinity]
      cases x.negative <;> decide

/-- A number is finite; every value that is no number counts as one. -/
def ElementType.IsFinite : (t : ElementType) → t.Value → Prop
  | .float, x => (x : Binary .single).isFinite = true
  | .double, x => (x : Binary .double).isFinite = true
  | _, _ => True

instance : (t : ElementType) → (v : t.Value) → Decidable (t.IsFinite v)
  | .float, x => inferInstanceAs (Decidable ((x : Binary .single).isFinite = true))
  | .double, x => inferInstanceAs (Decidable ((x : Binary .double).isFinite = true))
  | .bool, _ | .int, _ | .int64, _ => .isTrue trivial

theorem ElementType.floatIsFinite_toStored (t : ElementType) (v : t.Value) :
    (t.toStored v).FloatIsFinite ↔ t.IsFinite v := by
  cases t with
  | float => exact Eq.congr_left (Binary.isFinite_widen v)
  | _ => exact Iff.rfl

/-- The constants of a node are finite. -/
def Node.FiniteConstants (n : Node) : Prop :=
  match n.body with
  | .constant values => ∀ v ∈ values, n.type.IsFinite v
  | _ => True

instance : (n : Node) → Decidable n.FiniteConstants
  | ⟨_, t, .constant values, _⟩ => inferInstanceAs (Decidable (∀ v ∈ values, t.IsFinite v))
  | ⟨_, _, .input _, _⟩ | ⟨_, _, .output _, _⟩ | ⟨_, _, .operation .., _⟩ => .isTrue trivial

def Model.FiniteConstants (m : Model) : Prop := ∀ n ∈ m.nodes, n.FiniteConstants

instance (m : Model) : Decidable m.FiniteConstants :=
  inferInstanceAs (Decidable (∀ n ∈ m.nodes, n.FiniteConstants))

/-- What is found in the archive of a model. -/
inductive Model.StoredPart (m : Model) : Archive.Value → Prop
  | text (s : String) : StoredPart m (.string s)
  | number (n : UInt64) : StoredPart m (.uint n)
  | constant {n : Node} (hn : n ∈ m.nodes) {values : List n.type.Value}
    (hvalues : n.body = .constant values) {v : n.type.Value} (hv : v ∈ values) :
    StoredPart m (n.type.toStored v)
  | list (items : List Archive.Value) : StoredPart m (.array items)
  | properties (properties : List (String × Archive.Value)) :
    StoredPart m (Archive.ofList properties).toValue

section Parts

namespace Archive

variable {q : Value → Prop} {depth : Nat}

theorem meets_properties {properties : List (String × Value)}
    (hq : q (ofList properties).toValue) (h : ∀ p ∈ properties, p.2.Meets q depth) :
    (ofList properties).toValue.Meets q (depth + 2) :=
  meets_object hq fun p hp => h p (mem_ofList hp)

theorem meets_list {α : Type} {write : α → Value} {xs : List α} (hq : q (.ofList write xs))
    (h : ∀ x ∈ xs, (write x).Meets q depth) : (Value.ofList write xs).Meets q (depth + 2) :=
  meets_array hq (List.forall_mem_map.mpr h)

end Archive

open Archive (meets_scalar meets_properties meets_list)

variable {m : Model}

theorem meets_text (s : String) (depth : Nat) :
    (Archive.Value.string s).Meets m.StoredPart (depth + 1) :=
  meets_scalar _ rfl rfl (.text s)

theorem meets_number (n : UInt64) (depth : Nat) :
    (Archive.Value.uint n).Meets m.StoredPart (depth + 1) :=
  meets_scalar _ rfl rfl (.number n)

/-- An element is stored as a value with no names and nothing inside it. -/
theorem ElementType.scalar_toStored (t : ElementType) (v : t.Value) :
    (t.toStored v).parts = [t.toStored v] ∧ (t.toStored v).nesting = 1 ∧
      (t.toStored v).NamesAscend := by
  cases t <;> exact ⟨rfl, rfl, trivial⟩

theorem Span.meets_toArchive (s : Span) : s.toArchive.toValue.Meets m.StoredPart 3 := by
  refine meets_properties (.properties _) ?_
  exact List.forall_mem_cons.mpr ⟨meets_number _ 0, List.forall_mem_cons.mpr
    ⟨meets_text _ 0, List.forall_mem_cons.mpr
      ⟨meets_number _ 0, List.forall_mem_singleton.mpr (meets_number _ 0)⟩⟩⟩

theorem Inlet.meets_toArchive (i : Inlet) : i.toArchive.toValue.Meets m.StoredPart 9 := by
  have hranges : (Archive.Value.ofList (Archive.toValue ∘ Span.toArchive) i.selection.spans).Meets
      m.StoredPart 5 := meets_list (.list _) fun s _ => s.meets_toArchive
  have helements : i.selection.toArchive.toValue.Meets m.StoredPart 7 :=
    meets_properties (.properties _) (List.forall_mem_singleton.mpr hranges)
  refine meets_properties (.properties _) ?_
  exact List.forall_mem_cons.mpr ⟨meets_text _ 6, List.forall_mem_cons.mpr
    ⟨meets_text _ 6, List.forall_mem_singleton.mpr helements⟩⟩

theorem Node.meets_outlet (n : Node) : n.outlet.toArchive.toValue.Meets m.StoredPart 9 := by
  refine meets_properties (.properties _) ?_
  exact List.forall_mem_cons.mpr ⟨meets_text _ 6, List.forall_mem_cons.mpr
    ⟨meets_text _ 6, List.forall_mem_singleton.mpr (meets_number _ 6)⟩⟩

theorem Node.meets_values {n : Node} (hn : n ∈ m.nodes) {values : List n.type.Value}
    (hvalues : n.body = .constant values) :
    (Archive.Value.ofList n.type.toStored values).Meets m.StoredPart 9 := by
  refine (meets_list (.list _) fun v hv => ?_).mono (show 3 ≤ 9 by decide)
  obtain ⟨hparts, hnesting, -⟩ := n.type.scalar_toStored v
  exact meets_scalar _ hparts hnesting (.constant hn hvalues hv)

theorem Node.meets_toArchive {n : Node} (hn : n ∈ m.nodes) :
    n.toArchive.toValue.Meets m.StoredPart 11 := by
  have houtlet := n.meets_outlet (m := m)
  have hvalues : ∀ values, n.body = .constant values →
      (Archive.Value.ofList n.type.toStored values).Meets m.StoredPart 9 :=
    fun _ => n.meets_values hn
  -- the deepest of its properties are the inlets, two levels below the node
  obtain ⟨id, t, body, buffer⟩ := n
  cases body with
  | input values => exact meets_properties (.properties _) (List.forall_mem_singleton.mpr houtlet)
  | constant values =>
    exact meets_properties (.properties _) (List.forall_mem_cons.mpr
      ⟨hvalues values rfl, List.forall_mem_singleton.mpr houtlet⟩)
  | output source =>
    exact meets_properties (.properties _) (List.forall_mem_cons.mpr
      ⟨Inlet.meets_toArchive _, List.forall_mem_singleton.mpr houtlet⟩)
  | operation numeric op left right =>
    exact meets_properties (.properties _) (List.forall_mem_cons.mpr
      ⟨meets_text _ 8, List.forall_mem_cons.mpr ⟨Inlet.meets_toArchive _, List.forall_mem_cons.mpr
        ⟨Inlet.meets_toArchive _, List.forall_mem_singleton.mpr houtlet⟩⟩⟩)

/-- The archive of a model is no deeper than this, however much there is of everything. -/
theorem Model.meets_toArchive (m : Model) : m.toArchive.toValue.Meets m.StoredPart 17 := by
  have hentries : ∀ n ∈ m.nodes, n.toEntry.toValue.Meets m.StoredPart 13 := by
    intro n hn
    refine meets_properties (.properties _) ?_
    exact List.forall_mem_cons.mpr ⟨meets_text _ 10, List.forall_mem_cons.mpr
      ⟨meets_number _ 10, List.forall_mem_singleton.mpr (n.meets_toArchive hn)⟩⟩
  have hnodes : (Archive.Value.ofList (Archive.toValue ∘ Node.toEntry) m.nodes).Meets
      m.StoredPart 15 := meets_list (.list _) hentries
  exact meets_properties (.properties _) (List.forall_mem_cons.mpr
    ⟨meets_number _ 14, List.forall_mem_singleton.mpr hnodes⟩)

end Parts

section Archives

variable {m : Model}

theorem Model.StoredPart.namesAscend {w : Archive.Value} (h : m.StoredPart w) :
    w.NamesAscend := by
  cases h with
  | properties properties => exact Archive.ascending_ofList properties
  | @constant n _ _ _ v _ => exact (n.type.scalar_toStored v).2.2
  | _ => trivial

theorem Model.StoredPart.floatIsFinite {w : Archive.Value} (h : m.StoredPart w)
    (hfinite : m.FiniteConstants) : w.FloatIsFinite := by
  cases h with
  | @constant n hn values hvalues v hv =>
    have hn := hfinite n hn
    rw [Node.FiniteConstants, hvalues] at hn
    exact (n.type.floatIsFinite_toStored v).mpr (hn v hv)
  | _ => trivial

theorem Archive.finite_of_get? {a : Archive} {name : String} {v : Value} (h : a.Finite)
    (hget : a.get? name = some v) : v.Finite := by
  obtain ⟨before, after, hsplit, -⟩ := List.lookup_eq_some_iff.mp hget
  have hmem : (name, v) ∈ a.properties := by
    rw [hsplit]
    exact List.mem_append_right _ List.mem_cons_self
  exact finite_object.mp h _ hmem

/-- The constants are all there in the archive, and are the only numbers in it that may not be
finite. -/
theorem Model.finite_toArchive (m : Model) : m.toArchive.Finite ↔ m.FiniteConstants := by
  constructor
  · intro hfinite n hn
    have hnodes : m.toArchive.get? "nodes" =
        some (.ofList (Archive.toValue ∘ Node.toEntry) m.nodes) := by
      rw [toArchive, Archive.get?_ofList]
      rfl
    have hentry : n.toEntry.Finite :=
      Archive.finite_array.mp (Archive.finite_of_get? hfinite hnodes) _ (List.mem_map_of_mem hn)
    have hstate : n.toEntry.get? "state" = some n.toArchive.toValue := by
      rw [Node.toEntry, Archive.get?_ofList]
      rfl
    have hnode : n.toArchive.Finite := Archive.finite_of_get? hentry hstate
    unfold Node.FiniteConstants
    split
    next values hvalues =>
      have hlist : n.toArchive.get? "values" = some (.ofList n.type.toStored values) := by
        simp only [Node.toArchive, hvalues, Node.inlets, Archive.get?_ofList]
        rfl
      intro v hv
      have hvalue := Archive.finite_array.mp (Archive.finite_of_get? hnode hlist) _
        (List.mem_map_of_mem hv)
      rw [Archive.Value.Finite, (n.type.scalar_toStored v).1, List.forall_mem_singleton] at hvalue
      exact (n.type.floatIsFinite_toStored v).mp hvalue
    next => trivial
  · intro hfinite w hw
    exact (m.meets_toArchive.1 w hw).floatIsFinite hfinite

theorem Model.ordered_toArchive (m : Model) : m.toArchive.Ordered :=
  fun w hw => (m.meets_toArchive.1 w hw).namesAscend

theorem Model.nesting_toArchive (m : Model) : m.toArchive.nesting ≤ 16 :=
  Nat.le_of_succ_le_succ m.meets_toArchive.2

end Archives

section Codecs

open Archive (Codec Codecs Format)
open Json (Library)

/-- The models that come back from the bytes of a format: JSON has no numbers that are not
finite. -/
def Archive.Format.Keeps (format : Format) (m : Model) : Prop :=
  format = .json → m.FiniteConstants

variable {codecs : Codecs} {lib : Library} {m : Model} {format : Format}

theorem Model.toBytes_ok {bytes : List UInt8} :
    m.toBytes codecs format = .ok bytes ↔ (codecs format).write m.toArchive = some bytes :=
  Codecs.encode_ok

theorem Model.toBytes_unbounded (h : m.toArchive.LengthsFit) (format : Format) :
    m.toBytes .unbounded format = m.toBytes .native format := by
  rw [toBytes, toBytes, Codecs.encode, Codecs.encode, Codecs.unbounded_write h]

theorem Model.ofBytes_of_read {bytes : List UInt8} {a : Archive}
    (h : (codecs format).read bytes = some a) (s : Supply) :
    (Model.ofBytes codecs format bytes).runWith s = (Registry.builtin.load a).runWith s := by
  rw [Model.ofBytes, Codecs.decode_ok.mpr h]
  rfl

theorem Model.ofBytes_of_not_read {bytes : List UInt8} (h : (codecs format).read bytes = none)
    (s : Supply) :
    (Model.ofBytes codecs format bytes).runWith s = (.error (.archive format.readError), s) := by
  rw [Model.ofBytes, Codecs.decode, h]
  rfl

theorem Model.toBytes_json (h : (codecs .json).Prints lib) (m : Model) :
    m.toBytes codecs .json = .ok ((m.toArchive.toJson lib.digits).write 0) :=
  toBytes_ok.mpr (h.write m.toArchive)

/-- The text of a model is read if and only if all its constants are finite. -/
theorem Model.read_json (h : (codecs .json).Prints lib) {m : Model} {a : Archive} :
    (codecs .json).read ((m.toArchive.toJson lib.digits).write 0) = some a ↔
      m.FiniteConstants ∧ a = m.toArchive := by
  have hdepth : m.toArchive.nesting ≤ Archive.jsonDepth := m.nesting_toArchive.trans (by decide)
  rw [Archive.read_write h m.ordered_toArchive, m.finite_toArchive, and_iff_left hdepth]

theorem Model.ofBytes_json_error (h : (codecs .json).Prints lib) {m : Model}
    (hinfinite : ¬m.FiniteConstants) (s : Supply) :
    (Model.ofBytes codecs .json ((m.toArchive.toJson lib.digits).write 0)).runWith s =
      (.error (.archive .json), s) :=
  Model.ofBytes_of_not_read
    (Option.eq_none_iff_forall_ne_some.mpr fun _ ha => hinfinite ((read_json h).mp ha).1) s

/-- The bytes of a model in a format that keeps it are read as its archive. -/
theorem Model.exists_bytes (h : codecs.Faithful lib) (hkeeps : format.Keeps m) :
    ∃ bytes, m.toBytes codecs format = .ok bytes ∧
      (codecs format).read bytes = some m.toArchive := by
  cases format with
  | json => exact ⟨_, m.toBytes_json h.json, (read_json h.json).mpr ⟨hkeeps rfl, rfl⟩⟩
  | messagePack =>
    have hdepth : m.toArchive.nesting ≤ Archive.messagePackDepth :=
      m.nesting_toArchive.trans (by decide)
    obtain ⟨bytes, hwrite, hread⟩ := h.exists_packed m.ordered_toArchive hdepth
    exact ⟨bytes, toBytes_ok.mpr hwrite, hread⟩

end Codecs

end FlowGraph
