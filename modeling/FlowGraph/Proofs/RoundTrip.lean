import FlowGraph.Proofs.Computing
import FlowGraph.Proofs.Storing

/-! Storing a model and loading it again: what persists is all there, under new ids. -/
namespace FlowGraph

/-- What persists of a model, under the ids that are in the place of those before. -/
def Model.persisted (place : NodeId → NodeId) (m : Model) : Model :=
  ⟨m.nodes.map fun n => n.persisted place (place n.id)⟩

namespace Node

variable {place : NodeId → NodeId} {n : Node}

theorem spans_persisted (place : NodeId → NodeId) (id : NodeId) (n : Node) :
    (n.persisted place id).spans = n.spans.map (Span.relabel place) := by
  rcases n with ⟨oldId, t, body, buffer⟩
  cases body <;> simp [spans, inlets, persisted, Body.persisted, Selection.relabel]

theorem isInput_persisted (place : NodeId → NodeId) (id : NodeId) (n : Node) :
    (n.persisted place id).isInput = n.isInput := by
  rcases n with ⟨oldId, t, body, buffer⟩
  cases body <;> rfl

theorem isOutput_persisted (place : NodeId → NodeId) (id : NodeId) (n : Node) :
    (n.persisted place id).isOutput = n.isOutput := by
  rcases n with ⟨oldId, t, body, buffer⟩
  cases body <;> rfl

theorem sameEdges_persisted (place : NodeId → NodeId) (n : Node) :
    n.SameEdges place (n.persisted place (place n.id)) := by
  refine ⟨rfl, fun id => ?_⟩
  simp only [mem_dependencies, spans_persisted, List.mem_map]
  constructor
  · intro h
    obtain ⟨_, ⟨s, hs, rfl⟩, rfl⟩ := h
    exact ⟨_, ⟨s, hs, rfl⟩, rfl⟩
  · intro h
    obtain ⟨_, ⟨s, hs, rfl⟩, rfl⟩ := h
    exact ⟨_, ⟨s, hs, rfl⟩, rfl⟩

end Node

theorem Selection.renamed_relabel {rename : NodeId → Option NodeId} {place : NodeId → NodeId}
    {e : Selection} (h : ∀ s ∈ e.spans, rename s.source.node = some (place s.source.node))
    (name : String) : e.renamed rename name = .ok (e.relabel place) := by
  refine Selection.renamed_ok.mpr ?_
  rw [RenamedBy, relabel, List.forall₂_map_right_iff, List.forall₂_same]
  exact fun s hs => ⟨_, h s hs, rfl⟩

/-- Every selection is renamed if every node that it reads has another name. -/
theorem Node.renameInlets_persisted {rename : NodeId → Option NodeId} {place : NodeId → NodeId}
    {n : Node} (h : ∀ s ∈ n.spans, rename s.source.node = some (place s.source.node))
    (id : NodeId) :
    (n.persisted (fun id => id) id).renameInlets rename = .ok (n.persisted place id) := by
  -- a selection of the node is renamed as a whole, whichever inlet it belongs to
  have hchange : ∀ (name : String) (e : Selection), (∀ s ∈ e.spans, s ∈ n.spans) →
      (e.relabel fun id => id).renamed rename name = .ok (e.relabel place) := by
    intro name e he
    rw [e.relabel_id]
    exact Selection.renamed_relabel (fun s hs => h s (he s hs)) name
  rcases n with ⟨oldId, t, body, buffer⟩
  cases body with
  | input values => rfl
  | constant values => rfl
  | output source =>
    have hsource := hchange "input" source fun s hs => by rwa [spans_output rfl]
    simp only [persisted, Body.persisted, renameInlets, bind_ok, pure_ok]
    exact ⟨source.relabel place, hsource, rfl⟩
  | operation numeric op left right =>
    have hspans : spans ⟨oldId, t, .operation numeric op left right, buffer⟩ =
        left.spans ++ right.spans := spans_operation rfl
    have hleft := hchange "input1" left fun s hs => by simp [hspans, hs]
    have hright := hchange "input2" right fun s hs => by simp [hspans, hs]
    simp only [persisted, Body.persisted, renameInlets, bind_ok, pure_ok]
    exact ⟨left.relabel place, hleft, right.relabel place, hright, rfl⟩

namespace Model

variable {m : Model} {place : NodeId → NodeId}

theorem ids_persisted (place : NodeId → NodeId) (m : Model) :
    (m.persisted place).ids = m.ids.map place := by
  simp only [ids, persisted, List.map_map]
  rfl

theorem node?_persisted (hinj : ∀ a ∈ m.ids, ∀ b ∈ m.ids, place a = place b → a = b) {id : NodeId}
    (hid : id ∈ m.ids) : (m.persisted place).node? (place id) =
      (m.node? id).map fun n => n.persisted place (place n.id) := by
  simp only [node?, persisted, List.find?_map]
  congr 1
  refine List.find?_congr fun n hn => ?_
  simp only [Function.comp_def, Node.persisted, decide_eq_decide]
  exact ⟨fun h => hinj _ (mem_ids.mpr ⟨n, hn, rfl⟩) _ hid h, fun h => congrArg place h⟩

theorem order_persisted (hinj : ∀ a ∈ m.ids, ∀ b ∈ m.ids, place a = place b → a = b)
    {ids : List NodeId} (ho : m.order = .ok ids) :
    (m.persisted place).order = .ok (ids.map place) :=
  order_renamed place _ hinj (fun n _ => n.sameEdges_persisted place) ho

theorem resolves_persisted (hinj : ∀ a ∈ m.ids, ∀ b ∈ m.ids, place a = place b → a = b)
    {t : ElementType} {s : Span} (h : s.Resolves m t) :
    (s.relabel place).Resolves (m.persisted place) t := by
  have hid := resolves_mem h
  obtain ⟨n, hn, hname, htype, hstop⟩ := h
  refine ⟨n.persisted place (place n.id), ?_, hname, htype, ?_⟩
  · show (m.persisted place).node? (place s.source.node) = _
    rw [node?_persisted hinj hid, hn, Option.map_some]
  · rw [Node.size_persisted]
    exact hstop

/-- The nodes of a kind that persists keep their positions in the order. -/
theorem filter_persisted (hinj : ∀ a ∈ m.ids, ∀ b ∈ m.ids, place a = place b → a = b)
    {kind : Node → Bool} (hkind : ∀ (n : Node) (id : NodeId), kind (n.persisted place id) = kind n)
    {ids : List NodeId} (hids : ids ⊆ m.ids) :
    (ids.map place).filter (fun id => ((m.persisted place).node? id).any kind) =
      (ids.filter fun id => (m.node? id).any kind).map place := by
  rw [List.filter_map]
  congr 1
  refine List.filter_congr fun id hid => ?_
  rw [Function.comp_apply, node?_persisted hinj (hids hid), Option.any_map]
  simp only [hkind]

theorem nodup_keys (hd : m.ids.Nodup) : (m.nodes.map fun n => n.id.value).Nodup := by
  refine List.Nodup.map_on (fun a ha b hb hab => ?_) (List.Nodup.of_map Node.id hd)
  exact List.inj_on_of_nodup_map hd ha hb (congrArg NodeId.mk hab)

/-- Every node is found under its stored id. -/
theorem idOfKey_stored (hd : m.ids.Nodup) (f : Node → Node) {id : NodeId} (hid : id ∈ m.ids)
    (hf : ∀ n ∈ m.nodes, (f n).id = place n.id) :
    Registry.idOfKey (m.nodes.map fun n => (n.id.value, f n)) id = some (place id) := by
  obtain ⟨n, hn, rfl⟩ := mem_ids.mp hid
  -- the stored ids are the keys, and they are different
  have hkeys : ((m.nodes.map fun n => (n.id.value, f n)).map Prod.fst).Nodup := by
    rw [List.map_map]
    exact nodup_keys hd
  rw [Registry.idOfKey, lookup_of_mem hkeys (List.mem_map_of_mem hn), Option.map_some, hf n hn]

/-- Loading a stored model gives what persists of it. -/
theorem WellFormed.load_stored (h : m.WellFormed)
    (hstored : ∀ n ∈ m.nodes, n.size ≤ storedSizeLimit) (s : Supply) :
    (Registry.builtin.load m.toArchive).runWith s =
      (.ok (m.persisted (s.place m.ids)), ⟨s.drawn + m.size⟩) := by
  have hinj : ∀ a ∈ m.ids, ∀ b ∈ m.ids, s.place m.ids a = s.place m.ids b → a = b :=
    fun a ha b hb hab => s.place_inj h.distinct ha hb hab
  have hsize : m.ids.length = m.size := m.length_ids
  have hallocatable : m.Allocatable :=
    fun n hn => Nat.lt_of_le_of_lt (hstored n hn) storedSizeLimit_lt
  have hentries : m.toArchive.get? "nodes" =
      some (.array ((m.nodes.map Node.toEntry).map Archive.toValue)) := by
    rw [toArchive, Archive.get?_ofList, List.map_map]
    rfl
  have hversion : m.toArchive.get? "format_version" = some (.uint storedVersion) := by
    rw [toArchive, Archive.get?_ofList]
    rfl
  -- before they are renamed, the loaded nodes read from the ids they were stored with
  refine Registry.load_ok.mpr ⟨⟨_, hversion, rfl⟩, _, m.nodes.map fun n =>
    (n.id.value, n.persisted (fun id => id) (s.place m.ids n.id)), hentries,
    ?_, ?_, ?_, ?_, ?_, ?_, ?_⟩
  · rw [List.forall₂_map_left_iff, List.forall₂_map_right_iff, List.forall₂_same]
    intro n hn
    exact n.loadsEntry_toEntry (h.sized n hn) (hstored n hn)
      (fun s hs => fits_of_resolves hallocatable (h.resolves n hn s hs)) _
  · rw [List.map_map, List.length_map, ← size, ← hsize, ← s.map_place h.distinct, ids, List.map_map]
    rfl
  · rw [List.map_map]
    exact Model.nodup_keys h.distinct
  · rw [List.length_map]
    rfl
  · rw [List.forall₂_map_left_iff]
    show List.Forall₂ _ m.nodes (m.nodes.map _)
    rw [List.forall₂_map_right_iff, List.forall₂_same]
    intro n hn
    refine mapError_ok.mpr (Node.renameInlets_persisted (fun span hspan => ?_) _)
    exact idOfKey_stored h.distinct _ (resolves_mem (h.resolves n hn span hspan)) fun _ _ => rfl
  -- there are fewer nodes than words, so the new ids do not repeat
  · rw [ids_persisted, s.map_place h.distinct]
    exact Supply.nodup_next (NodeId.length_le_of_nodup h.distinct)
  · obtain ⟨ids, ho⟩ := h.ordered
    refine validate_ok.mpr ⟨?_, _, order_persisted hinj ho⟩
    intro n' hn' span hspan
    obtain ⟨n, hn, rfl⟩ := List.mem_map.mp hn'
    rw [Node.spans_persisted] at hspan
    obtain ⟨old, hold, rfl⟩ := List.mem_map.mp hspan
    exact resolves_persisted hinj (h.resolves n hn old hold)

end Model

namespace Archive

mutual

/-- The value with the ids in the place of those that nodes have and that spans name. -/
def Value.relabel (place : NodeId → NodeId) (name : String) : Value → Value
  | .uint n => .uint (if name = "id" ∨ name = "node" then (place ⟨n⟩).value else n)
  | .array items => .array (relabelItems place items)
  | .object properties => .object (relabelProperties place properties)
  | v => v

def relabelItems (place : NodeId → NodeId) : List Value → List Value
  | [] => []
  | item :: rest => item.relabel place "" :: relabelItems place rest

def relabelProperties (place : NodeId → NodeId) : List (String × Value) → List (String × Value)
  | [] => []
  | (name, v) :: rest => (name, v.relabel place name) :: relabelProperties place rest

end

def relabel (place : NodeId → NodeId) (a : Archive) : Archive :=
  ⟨relabelProperties place a.properties⟩

variable (place : NodeId → NodeId)

theorem relabelItems_eq (items : List Value) :
    relabelItems place items = items.map (Value.relabel place "") := by
  induction items with
  | nil => rfl
  | cons item rest ih => rw [relabelItems, ih, List.map_cons]

theorem relabelProperties_insertNamed (name : String) (v : Value)
    (properties : List (String × Value)) :
    relabelProperties place (insertNamed name v properties) =
      insertNamed name (v.relabel place name) (relabelProperties place properties) := by
  induction properties with
  | nil => rfl
  | cons property rest ih =>
    rcases property with ⟨other, old⟩
    rw [insertNamed, relabelProperties, insertNamed]
    split
    case isTrue => rfl
    case isFalse =>
      split
      case isTrue => rfl
      case isFalse => rw [relabelProperties, ih]

theorem relabel_ofList (properties : List (String × Value)) :
    (ofList properties).relabel place =
      ofList (properties.map fun property =>
        (property.1, property.2.relabel place property.1)) := by
  -- for any start, since inserting goes on from what is there
  have hall : ∀ a : Archive,
      (properties.foldl (fun a property => a.insert property.1 property.2) a).relabel place =
        (properties.map fun property => (property.1, property.2.relabel place property.1)).foldl
          (fun a property => a.insert property.1 property.2) (a.relabel place) := by
    induction properties with
    | nil => exact fun a => rfl
    | cons property rest ih =>
      intro a
      rw [List.foldl_cons, ih, List.map_cons, List.foldl_cons]
      congr 1
      exact congrArg Archive.mk (relabelProperties_insertNamed place _ _ _)
  exact hall empty

end Archive

variable (place : NodeId → NodeId)

theorem Span.toArchive_relabel (s : Span) :
    (s.relabel place).toArchive = s.toArchive.relabel place := by
  rw [toArchive, toArchive, Archive.relabel_ofList]
  rfl

theorem Selection.toArchive_relabel (e : Selection) :
    (e.relabel place).toArchive = e.toArchive.relabel place := by
  rw [toArchive, toArchive, Archive.relabel_ofList]
  simp only [List.map_cons, List.map_nil, Archive.Value.ofList, Archive.Value.relabel,
    Archive.relabelItems_eq, relabel, List.map_map]
  congr 4
  refine List.map_congr_left fun s _ => ?_
  exact congrArg Archive.toValue (s.toArchive_relabel place)

theorem Outlet.relabel_toArchive (o : Outlet) : o.toArchive.relabel place = o.toArchive := by
  rw [toArchive, Archive.relabel_ofList]
  rfl

theorem ElementType.relabel_toStored (t : ElementType) (v : t.Value) (name : String) :
    (t.toStored v).relabel place name = t.toStored v := by
  cases t <;> rfl

theorem Inlet.toArchive_relabel (i : Inlet) (node : NodeId) :
    (Inlet.mk node i.name i.type (i.selection.relabel place)).toArchive =
      i.toArchive.relabel place := by
  rw [toArchive, toArchive, Archive.relabel_ofList, Selection.toArchive_relabel]
  rfl

theorem Node.outlet_persisted (id : NodeId) (n : Node) :
    (n.persisted place id).outlet.toArchive = n.outlet.toArchive := by
  have hsize : (n.persisted place id).outlet.size = n.outlet.size := n.size_persisted place id
  rw [Outlet.toArchive, Outlet.toArchive, hsize]
  rfl

/-- What persists is all that is stored. -/
theorem Node.toArchive_persisted (id : NodeId) (n : Node) :
    (n.persisted place id).toArchive = n.toArchive.relabel place := by
  have houtlet : (n.persisted place id).outlet.toArchive.toValue =
      n.outlet.toArchive.toValue.relabel place outletName := by
    rw [outlet_persisted]
    exact congrArg Archive.toValue (n.outlet.relabel_toArchive place).symm
  rw [toArchive, toArchive, Archive.relabel_ofList, houtlet]
  rcases n with ⟨oldId, t, body, buffer⟩
  cases body with
  | input values => rfl
  | constant values =>
    -- constants hold no ids, and are stored as before when they come back
    have hvalues : (Archive.Value.ofList t.toStored values).relabel place "values" =
        .ofList t.toStored (values.map t.persisted) := by
      simp only [Archive.Value.ofList, Archive.Value.relabel, Archive.relabelItems_eq, List.map_map]
      congr 1
      refine List.map_congr_left fun v _ => ?_
      exact (t.relabel_toStored place v "").trans (t.toStored_persisted v).symm
    simp only [persisted, Body.persisted, inlets, List.map_nil, List.nil_append, List.append_nil,
      List.map_cons, List.cons_append, hvalues]
  | output source =>
    have hinput := Inlet.toArchive_relabel place ⟨oldId, "input", t, source⟩ id
    simp only [persisted, Body.persisted, inlets, List.map_cons, List.map_nil, List.nil_append,
      List.cons_append, hinput]
    rfl
  | operation numeric op left right =>
    have hleft := Inlet.toArchive_relabel place ⟨oldId, "input1", t, left⟩ id
    have hright := Inlet.toArchive_relabel place ⟨oldId, "input2", t, right⟩ id
    simp only [persisted, Body.persisted, inlets, List.map_cons, List.map_nil, List.nil_append,
      List.cons_append, hleft, hright]
    rfl

theorem Node.toEntry_persisted (n : Node) :
    (n.persisted place (place n.id)).toEntry = n.toEntry.relabel place := by
  rw [toEntry, toEntry, Archive.relabel_ofList, nodeType_persisted, toArchive_persisted]
  rfl

theorem Model.toArchive_persisted (m : Model) :
    (m.persisted place).toArchive = m.toArchive.relabel place := by
  have hentries : (Archive.Value.ofList (Archive.toValue ∘ Node.toEntry) m.nodes).relabel place
      "nodes" = .ofList (Archive.toValue ∘ Node.toEntry) (m.persisted place).nodes := by
    simp only [Archive.Value.ofList, Archive.Value.relabel, Archive.relabelItems_eq, List.map_map,
      persisted]
    congr 1
    refine List.map_congr_left fun n _ => ?_
    exact congrArg Archive.toValue (n.toEntry_persisted place).symm
  rw [toArchive, toArchive, Archive.relabel_ofList, ← hentries]
  rfl

/-- Storing and loading keeps what is meant to persist. Every node comes back in its place, of its
type, with its constants, its operation and its spans, on the new ids in the place of the old ones
and with default values everywhere else; the orders are the same, and so is what is stored again. -/
theorem Reachable.load_toArchive {s₀ : Supply} {m : Model} (h : Reachable s₀ m)
    (hstored : ∀ n ∈ m.nodes, n.size ≤ storedSizeLimit) (s : Supply) :
    ∃ (place : NodeId → NodeId) (m' : Model) (ids inputs outputs : List NodeId),
      (Registry.builtin.load m.toArchive).runWith s = (.ok m', ⟨s.drawn + m.size⟩) ∧
      m'.nodes = m.nodes.map (fun n => n.persisted place (place n.id)) ∧
      m'.ids = s.next m.size ∧ m'.ids.Nodup ∧
      (s.drawn + m.size ≤ 2 ^ 64 → ∀ id ∈ m'.ids, ¬ s.Issued id) ∧
      m.order = .ok ids ∧ m'.order = .ok (ids.map place) ∧
      m.inputs = .ok inputs ∧ m'.inputs = .ok (inputs.map place) ∧
      m.outputs = .ok outputs ∧ m'.outputs = .ok (outputs.map place) ∧
      m'.toArchive = m.toArchive.relabel place := by
  obtain ⟨hwf, -⟩ := h.wellFormed
  obtain ⟨ids, ho⟩ := hwf.ordered
  have hinj : ∀ a ∈ m.ids, ∀ b ∈ m.ids, s.place m.ids a = s.place m.ids b → a = b :=
    fun a ha b hb hab => s.place_inj hwf.distinct ha hb hab
  have hids : (m.persisted (s.place m.ids)).ids = s.next m.size := by
    rw [Model.ids_persisted, s.map_place hwf.distinct, Model.ids, List.length_map, Model.size]
  have horder := Model.order_persisted hinj ho
  have hlisted : ids ⊆ m.ids := (Model.order_perm ho).subset
  have hinputs : (m.persisted (s.place m.ids)).inputs =
      .ok ((ids.filter fun id => (m.node? id).any Node.isInput).map (s.place m.ids)) := by
    rw [Model.inputs, horder, ← Model.filter_persisted hinj
      (fun n id => n.isInput_persisted _ id) hlisted]
    rfl
  have houtputs : (m.persisted (s.place m.ids)).outputs =
      .ok ((ids.filter fun id => (m.node? id).any Node.isOutput).map (s.place m.ids)) := by
    rw [Model.outputs, horder, ← Model.filter_persisted hinj
      (fun n id => n.isOutput_persisted _ id) hlisted]
    rfl
  refine ⟨s.place m.ids, m.persisted (s.place m.ids), ids, _, _, hwf.load_stored hstored s, rfl,
    hids, ?_, ?_, ho, horder, ?_, hinputs, ?_, houtputs, m.toArchive_persisted _⟩
  · rw [Model.ids_persisted, s.map_place hwf.distinct]
    exact Supply.nodup_next (NodeId.length_le_of_nodup hwf.distinct)
  · intro hroom id hid
    rw [hids] at hid
    exact Supply.next_not_issued hroom hid
  · rw [Model.inputs, ho]
    rfl
  · rw [Model.outputs, ho]
    rfl

theorem load_toArchive_quotientModel :
    Reachable ⟨4⟩ quotientModel ∧ (∀ n ∈ quotientModel.nodes, n.size ≤ storedSizeLimit) ∧
      ∃ (place : NodeId → NodeId) (m' : Model),
        (Registry.builtin.load quotientModel.toArchive).runWith ⟨4⟩ = (.ok m', ⟨8⟩) ∧
          m'.nodes = quotientModel.nodes.map (fun n => n.persisted place (place n.id)) := by
  have hstored : ∀ n ∈ quotientModel.nodes, n.size ≤ storedSizeLimit := by decide
  obtain ⟨place, m', _, _, _, hrun, hnodes, -⟩ :=
    quotientModel_reachable.load_toArchive hstored ⟨4⟩
  exact ⟨quotientModel_reachable, hstored, place, m', hrun, hnodes⟩

end FlowGraph
