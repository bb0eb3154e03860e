import FlowGraph.Proofs.Elements
import FlowGraph.Proofs.Loading
import FlowGraph.Proofs.Widening

/-! What is written can be read: values, spans, selections and nodes, each by its own reader. -/
namespace FlowGraph

namespace Archive

/-- A property is found where it was inserted last. -/
theorem get?_ofList (properties : List (String × Value)) (name : String) :
    (ofList properties).get? name = properties.reverse.lookup name := by
  have hall : ∀ a : Archive,
      (properties.foldl (fun a property => a.insert property.1 property.2) a).get? name =
        (properties.reverse.lookup name).or (a.get? name) := by
    induction properties with
    | nil => exact fun a => rfl
    | cons property rest ih =>
      rcases property with ⟨other, v⟩
      intro a
      rw [List.foldl_cons, ih, List.reverse_cons, List.lookup_append, Option.or_assoc]
      congr 1
      -- the property counts only if none of the others has its name
      by_cases hname : name = other
      · subst hname
        rw [List.lookup_cons_self, Option.some_or]
        exact lookup_insertNamed_self _ _ _
      · rw [List.lookup_cons, beq_false_of_ne hname]
        exact lookup_insertNamed_of_ne hname _ _
  exact (hall empty).trans Option.or_none

end Archive

namespace Archive.Value

theorem asInt32_ofInt32 (n : Int32) : (ofInt32 n).asInt32 = .ok n := by
  have hlow : Int32.minValue.toInt ≤ n.toInt := n.le_toInt
  have hhigh : n.toInt ≤ Int32.maxValue.toInt := n.toInt_le
  -- every word of 32 bits is one of 64 bits
  have hword : (Int64.ofInt n.toInt).toInt = n.toInt := by
    have hlow := n.le_toInt
    have hhigh := n.toInt_lt
    exact Int64.toInt_ofInt_of_le (by omega) (by omega)
  show (if Int32.minValue.toInt ≤ (Int64.ofInt n.toInt).toInt ∧ _ then _ else _) = _
  rw [hword, if_pos ⟨hlow, hhigh⟩, Int32.ofInt_toInt]

/-- A list comes back item by item. -/
theorem asList_ofList {α : Type} {read : Value → Except Error α} {write : α → Value} {keep : α → α}
    (h : ∀ x, read (write x) = .ok (keep x)) (xs : List α) :
    asList read (ofList write xs) = .ok (xs.map keep) := by
  show (xs.map write).mapM read = _
  rw [mapM_ok, List.forall₂_map_left_iff, List.forall₂_map_right_iff, List.forall₂_same]
  exact fun x _ => h x

/-- What comes back from storing a number of 32 bits is stored in the same way. -/
theorem ofSingle_narrow_widen (x : Binary .single) :
    ofSingle (if x.isNaN then x.quieten else x) = ofSingle x := by
  split
  case isTrue hnan =>
    exact congrArg float (Binary.widen_quieten Binary.single_widens.fraction (by decide) hnan).2
  case isFalse => rfl

end Archive.Value

namespace ElementType

/-- What a value is after it has been stored: the same, but that a NaN of 32 bits is quiet. -/
def persisted : (t : ElementType) → t.Value → t.Value
  | .float, x => if (x : Binary .single).isNaN then (x : Binary .single).quieten else x
  | _, v => v

theorem ofStored_toStored (t : ElementType) (v : t.Value) :
    t.ofStored (t.toStored v) = .ok (t.persisted v) := by
  cases t with
  | bool => rfl
  | int => exact Archive.Value.asInt32_ofInt32 v
  | int64 => rfl
  | float => exact Archive.Value.asSingle_ofSingle v
  | double => rfl

theorem toStored_persisted (t : ElementType) (v : t.Value) :
    t.toStored (t.persisted v) = t.toStored v := by
  cases t with
  | float => exact Archive.Value.ofSingle_narrow_widen v
  | _ => rfl

end ElementType

theorem Span.storedAs_toArchive (s : Span) : s.StoredAs s.toArchive where
  node := ⟨_, Archive.get?_ofList _ _, rfl⟩
  port := Archive.get?_ofList _ _
  start := ⟨_, Archive.get?_ofList _ _, rfl⟩
  count := ⟨_, Archive.get?_ofList _ _, rfl⟩

theorem Span.ofArchive_toArchive {s : Span} (h : s.Fits) : Span.ofArchive s.toArchive = .ok s :=
  Span.ofArchive_ok.mpr ⟨s.storedAs_toArchive, h⟩

namespace Selection

/-- Every span ends at a size, and so do all elements together. -/
def Bounded (e : Selection) : Prop :=
  e.Fits ∧ (e.spans.map (·.count.toNat)).sum ≤ sizeLimit

/-- The archived form of a selection: its spans as they are, each in a list item of its own. -/
def StoredAs (e : Selection) (a : Archive) : Prop :=
  ∃ items : List Archive, a.get? "ranges" = some (.array (items.map Archive.toValue)) ∧
    List.Forall₂ (fun item s => s.StoredAs item) items e.spans

theorem ofArchive_ok_iff {a : Archive} {e : Selection} :
    ofArchive a = .ok e ↔ e.StoredAs a ∧ e.Bounded := by
  simp only [ofArchive_ok, Span.ofArchive_ok, forall₂_and_right, StoredAs, Bounded]
  constructor
  · rintro ⟨items, hitems, ⟨hforall, hfits⟩, hsum⟩
    exact ⟨⟨items, hitems, hforall⟩, hfits, hsum⟩
  · rintro ⟨⟨items, hitems, hforall⟩, hfits, hsum⟩
    exact ⟨items, hitems, ⟨hforall, hfits⟩, hsum⟩

theorem storedAs_toArchive (e : Selection) : e.StoredAs e.toArchive := by
  refine ⟨e.spans.map Span.toArchive, ?_, ?_⟩
  · rw [toArchive, Archive.get?_ofList, List.map_map]
    rfl
  · rw [List.forall₂_map_left_iff, List.forall₂_same]
    exact fun s _ => s.storedAs_toArchive

theorem ofArchive_toArchive {e : Selection} (h : e.Bounded) : ofArchive e.toArchive = .ok e :=
  ofArchive_ok_iff.mpr ⟨e.storedAs_toArchive, h⟩

end Selection

theorem Inlet.selectionOfArchive_toArchive {i : Inlet} (hfits : i.selection.Fits)
    (hsize : i.size < sizeLimit) :
    Inlet.selectionOfArchive i.type i.toArchive = .ok i.selection := by
  have hsum : (i.selection.spans.map (·.count.toNat)).sum ≤ sizeLimit := by
    rw [← Selection.length_elements, ← Selection.size_of_lt hsize]
    exact hsize.le
  exact Inlet.selectionOfArchive_ok.mpr ⟨Archive.get?_ofList _ _, i.selection.toArchive,
    Archive.get?_ofList _ _, Selection.ofArchive_toArchive ⟨hfits, hsum⟩⟩

theorem Outlet.valuesOfArchive_toArchive {o : Outlet} (h : o.size ≤ storedSizeLimit) :
    Outlet.valuesOfArchive o.type o.toArchive = .ok (List.replicate o.size o.type.default) := by
  have hword := toNat_ofNat_of_le (Nat.le_trans h (Nat.le_of_lt storedSizeLimit_lt))
  refine Outlet.valuesOfArchive_ok.mpr
    ⟨Archive.get?_ofList _ _, ⟨_, Archive.get?_ofList _ _, ?_⟩, ?_, ?_⟩
  · rw [List.length_replicate]
    exact hword
  · rwa [List.length_replicate]
  · rw [List.length_replicate]

theorem Operation.ofName?_name (op : Operation) : Operation.ofName? op.name = some op := by
  cases op <;> decide

/-- The span on the node that is in the place of its own. -/
def Span.relabel (place : NodeId → NodeId) (s : Span) : Span :=
  { s with source := { s.source with node := place s.source.node } }

def Selection.relabel (place : NodeId → NodeId) (e : Selection) : Selection :=
  ⟨e.spans.map (Span.relabel place)⟩

theorem Selection.elements_relabel (place : NodeId → NodeId) (e : Selection) :
    (e.relabel place).elements = e.elements.map fun x => (⟨place x.1.node, x.1.name⟩, x.2) := by
  rw [elements, relabel, List.flatMap_map, elements, List.map_flatMap]
  refine List.flatMap_congr fun s _ => ?_
  rw [Span.elements, Span.elements, List.map_map]
  rfl

/-- What persists of a body: its constants, its operation, and what it reads, under the ids that
are in the place of those before. -/
def Body.persisted {t : ElementType} (place : NodeId → NodeId) (size : Nat) : Body t → Body t
  | .input _ => .input (List.replicate size t.default)
  | .constant values => .constant (values.map t.persisted)
  | .output source => .output (source.relabel place)
  | .operation numeric op left right =>
    .operation numeric op (left.relabel place) (right.relabel place)

/-- What persists of a node. -/
def Node.persisted (place : NodeId → NodeId) (id : NodeId) (n : Node) : Node :=
  ⟨id, n.type, n.body.persisted place n.size, List.replicate n.size n.type.default⟩

theorem Selection.relabel_id (e : Selection) : e.relabel (fun id => id) = e := by
  have hspan : Span.relabel (fun id => id) = id := rfl
  rw [relabel, hspan, List.map_id]

theorem Selection.size_relabel (place : NodeId → NodeId) (e : Selection) :
    (e.relabel place).size = e.size := by
  rw [Selection.size, Selection.size, relabel, List.foldl_map]
  rfl

namespace Node

variable {n : Node} {place : NodeId → NodeId}

theorem size_persisted (place : NodeId → NodeId) (id : NodeId) (n : Node) :
    (n.persisted place id).size = n.size :=
  List.length_replicate

theorem fresh_persisted (place : NodeId → NodeId) (id : NodeId) (n : Node) :
    (n.persisted place id).Fresh := by
  rw [Fresh, size_persisted]
  rcases n with ⟨oldId, t, body, buffer⟩
  cases body <;> exact ⟨rfl, by trivial⟩

theorem nodeType_persisted (place : NodeId → NodeId) (id : NodeId) (n : Node) :
    (n.persisted place id).nodeType = n.nodeType := by
  rcases n with ⟨oldId, t, body, buffer⟩
  cases body <;> rfl

theorem sized_persisted (h : n.Sized) (id : NodeId) : (n.persisted place id).Sized := by
  rcases n with ⟨oldId, t, body, buffer⟩
  have hsize : (List.replicate buffer.length t.default).length = buffer.length :=
    List.length_replicate
  cases body with
  | input values => rfl
  | constant values => exact (List.length_map _).trans (h.trans hsize.symm)
  | output source => exact (source.size_relabel place).trans (h.trans hsize.symm)
  | operation numeric op left right =>
    exact ⟨(left.size_relabel place).trans (h.1.trans hsize.symm),
      (right.size_relabel place).trans (h.2.trans hsize.symm)⟩

/-- The buffer of a stored node comes back in its size, with default values. -/
theorem readBuffer_toArchive (h : n.size ≤ storedSizeLimit) :
    readBuffer n.toArchive n.type = .ok (List.replicate n.size n.type.default) := by
  -- the outlet is stored last, so its name is found first
  have hstored : n.toArchive.get? outletName = some n.outlet.toArchive.toValue := by
    rw [toArchive, Archive.get?_ofList, List.reverse_append]
    exact List.lookup_cons_self
  exact Archive.readObject_ok.mpr ⟨_, hstored, Outlet.valuesOfArchive_toArchive (o := n.outlet) h⟩

/-- What a stored node reads comes back as it was. -/
theorem readInlet_toArchive {i : Inlet} (hi : i ∈ n.inlets) (hfits : i.selection.Fits)
    (hsize : i.size < sizeLimit) : readInlet n.toArchive n.type i.name = .ok i.selection := by
  have hstored : n.toArchive.get? i.name = some i.toArchive.toValue := by
    rw [toArchive, Archive.get?_ofList]
    rcases n with ⟨id, t, body, buffer⟩
    cases body with
    | input values => cases hi
    | constant values => cases hi
    | output source =>
      obtain rfl := List.mem_singleton.mp hi
      rfl
    | operation numeric op left right =>
      rcases List.mem_cons.mp hi with rfl | hi
      · rfl
      · obtain rfl := List.mem_singleton.mp hi
        rfl
  rw [← inlet_type hi]
  exact Archive.readObject_ok.mpr ⟨_, hstored, Inlet.selectionOfArchive_toArchive hfits hsize⟩

theorem readOperation_toArchive {op : Operation} (h : n.operator? = some op) :
    readOperation n.toArchive = .ok op := by
  have hstored : n.toArchive.get? "operation" = some (.string op.name) := by
    rw [toArchive, Archive.get?_ofList]
    rcases n with ⟨id, t, body, buffer⟩
    cases body <;> simp only [operator?, reduceCtorEq, Option.some.injEq] at h
    subst h
    rfl
  have hread : n.toArchive.read Archive.Value.asString "operation" = .ok op.name :=
    Archive.read_ok.mpr ⟨_, hstored, rfl⟩
  refine bind_ok.mpr ⟨op.name, hread, ?_⟩
  rw [op.ofName?_name]
  rfl

theorem readValues_toArchive {values : List n.type.Value} (h : n.body = .constant values) :
    n.toArchive.read (Archive.Value.asList n.type.ofStored) "values" =
      .ok (values.map n.type.persisted) := by
  have hstored : n.toArchive.get? "values" = some (.ofList n.type.toStored values) := by
    simp only [toArchive, h, inlets, Archive.get?_ofList]
    rfl
  exact Archive.read_ok.mpr ⟨_, hstored, Archive.Value.asList_ofList n.type.ofStored_toStored _⟩

/-- The state of a stored node describes what persists of it. -/
theorem readFrom_toArchive (hsized : n.Sized) (hsize : n.size < sizeLimit)
    (hfits : ∀ s ∈ n.spans, s.Fits) (id : NodeId) :
    (n.persisted (fun id => id) id).ReadFrom n.toArchive := by
  -- sizes agree, so that no inlet has too many elements to be read
  have hinlet : ∀ i ∈ n.inlets, i.size = n.size →
      readInlet n.toArchive n.type i.name = .ok i.selection := by
    intro i hi heq
    refine readInlet_toArchive hi (fun s hs => hfits s ?_) (heq ▸ hsize)
    exact mem_spans.mpr ⟨i, hi, hs⟩
  have hvalues : ∀ values, n.body = .constant values →
      n.toArchive.read (Archive.Value.asList n.type.ofStored) "values" =
        .ok (values.map n.type.persisted) := fun values h => readValues_toArchive h
  have hoperator : ∀ op, n.operator? = some op → readOperation n.toArchive = .ok op :=
    fun op h => readOperation_toArchive h
  rcases n with ⟨oldId, t, body, buffer⟩
  cases body with
  | input values => rfl
  | constant values => exact hvalues values rfl
  | output source =>
    show readInlet _ t "input" = .ok (source.relabel fun id => id)
    rw [source.relabel_id]
    exact hinlet ⟨oldId, "input", t, source⟩ List.mem_cons_self hsized
  | operation numeric op left right =>
    show readOperation _ = .ok op ∧ readInlet _ t "input1" = .ok (left.relabel fun id => id) ∧
      readInlet _ t "input2" = .ok (right.relabel fun id => id)
    rw [left.relabel_id, right.relabel_id]
    exact ⟨hoperator op rfl, hinlet ⟨oldId, "input1", t, left⟩ List.mem_cons_self hsized.1,
      hinlet ⟨oldId, "input2", t, right⟩ (List.mem_cons_of_mem _ List.mem_cons_self) hsized.2⟩

/-- Reading the entry of a node gives what persists of it, on the ids as they were. -/
theorem loadsEntry_toEntry (hsized : n.Sized) (hlimit : n.size ≤ storedSizeLimit)
    (hfits : ∀ s ∈ n.spans, s.Fits) (id : NodeId) :
    Registry.builtin.LoadsEntry n.toEntry (n.id.value, n.persisted (fun id => id) id) where
  key := ⟨_, Archive.get?_ofList _ _, rfl⟩
  type := ⟨_, Archive.get?_ofList _ _,
    Registry.lookup_builtin.mpr (congrArg NodeType.name (nodeType_persisted _ _ n))⟩
  state := by
    have hsize := Nat.lt_of_le_of_lt hlimit storedSizeLimit_lt
    exact ⟨n.toArchive, Archive.get?_ofList _ _, readFrom_toArchive hsized hsize hfits id,
      readBuffer_toArchive hlimit⟩
  sized := sized_persisted hsized id

end Node

end FlowGraph
