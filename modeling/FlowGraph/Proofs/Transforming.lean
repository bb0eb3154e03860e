import FlowGraph.Proofs.Pipeline
import FlowGraph.Proofs.Quieting
import FlowGraph.Proofs.Saving

/-! Models from files, through passes, to files again. -/
namespace FlowGraph

/-- Storing leaves the constants of the node as they are. -/
def Node.SteadyConstants (n : Node) : Prop :=
  match n.body with
  | .constant values => ∀ v ∈ values, n.type.persisted v = v
  | _ => True

/-- What holds of every model from a file, and passes keep. -/
structure Model.Storable (m : Model) : Prop where
  wellFormed : m.WellFormed
  bounded : ∀ n ∈ m.nodes, n.size ≤ storedSizeLimit
  steady : ∀ n ∈ m.nodes, n.SteadyConstants

namespace Node.SteadyConstants

theorem of_matches {R : Selection → Selection → Prop} {n n' : Node} (h : n.SteadyConstants)
    (hm : n.Matches R n') : n'.SteadyConstants := by
  rcases n with ⟨id, t, body, buffer⟩
  cases hm with
  | intro id' body' buffer' hbody hsize =>
    cases body <;> cases body' <;> simp only [Body.Matches] at hbody <;> try trivial
    case constant.constant values values' =>
      rw [hbody]
      exact h

/-- What an operation on constants comes to is computed. -/
theorem of_foldsTo {place : NodeId → NodeId} {m : Model} {n n' : Node}
    (h : n.FoldsTo place m n') : n'.SteadyConstants := by
  cases h with
  | intro _ _ _ _ _ hfolded =>
    simp only [Model.folded?, Option.bind_eq_bind, Option.bind_eq_some_iff] at hfolded
    obtain ⟨xs, -, ys, -, hvalues⟩ := hfolded
    intro v hv
    obtain ⟨p, -, happly⟩ := forall₂_mem_right (mapM_some.mp hvalues) hv
    exact ElementType.persisted_of_apply happly

theorem of_loadsEntry {r : Registry} {entry : Archive} {loaded : UInt64 × Node}
    (h : r.LoadsEntry entry loaded) : loaded.2.SteadyConstants := by
  obtain ⟨state, -, hread, -⟩ := h.state
  rcases loaded with ⟨key, id, t, body, buffer⟩
  cases body with
  | constant values =>
    obtain ⟨w, -, hlist⟩ := Archive.read_ok.mp hread
    cases w <;> try cases hlist
    case array items =>
      intro v hv
      obtain ⟨item, -, hitem⟩ := forall₂_mem_right (mapM_ok.mp hlist) hv
      exact ElementType.persisted_of_ofStored hitem
  | _ => trivial

end Node.SteadyConstants

theorem Registry.load_storable {r : Registry} {a : Archive} {m : Model} {s s' : Supply}
    (h : (r.load a).runWith s = (.ok m, s')) : m.Storable := by
  obtain ⟨hwf, hnodes, -, -⟩ := load_wellFormed h
  obtain ⟨-, entries, loaded, -, hforall, -, -, -, hresolved, -, -⟩ := load_ok.mp h
  have hsteady : List.Forall₂ (fun _ n => n.SteadyConstants) entries m.nodes := by
    refine forall₂_comp (fun entry p n hentry hn => ?_) hforall hresolved
    exact (Node.SteadyConstants.of_loadsEntry hentry).of_matches (resolve_ok hn).1
  refine ⟨hwf, fun n hn => (hnodes n hn).1, fun n hn => ?_⟩
  obtain ⟨entry, -, hn⟩ := forall₂_mem_right hsteady hn
  exact hn

theorem Model.storable_of_ofBytes {codecs : Archive.Codecs} {format : Archive.Format}
    {bytes : List UInt8} {m : Model} {s s' : Supply}
    (h : (Model.ofBytes codecs format bytes).runWith s = (.ok m, s')) : m.Storable := by
  obtain ⟨a, s₁, -, hload⟩ := Drawing.runWith_bind_ok.mp h
  exact Registry.load_storable hload

namespace Model

variable {m r : Model} {place : NodeId → NodeId} {pairs : List (Node × Node)}

theorem Storable.allocatable (h : m.Storable) : m.Allocatable :=
  fun n hn => (h.bounded n hn).trans_lt storedSizeLimit_lt

theorem CarriedPart.storable (h : CarriedPart place m r pairs) (hm : m.Storable) : r.Storable := by
  have hall : ∀ n' ∈ r.nodes, ∃ n ∈ m.nodes, n'.size = n.size ∧ n.KeptOrFolded place r n' := by
    intro n' hn'
    obtain ⟨p, hp, rfl⟩ := h.exists_pair_result hn'
    exact ⟨p.1, h.source p hp, (h.stands p hp).2.2, h.kept p hp⟩
  refine ⟨h.wellFormed_result, fun n' hn' => ?_, fun n' hn' => ?_⟩
  · obtain ⟨n, hn, hsize, -⟩ := hall n' hn'
    rw [hsize]
    exact hm.bounded n hn
  · obtain ⟨n, hn, -, ⟨hmatches, -⟩ | hfolds⟩ := hall n' hn'
    · exact (hm.steady n hn).of_matches hmatches
    · exact .of_foldsTo hfolds

end Model

/-- One pass: what it builds is storable. -/
theorem Pass.run_storable {p : Pass} {m r : Model} {s s' : Supply} (h : m.Storable)
    (hrun : (p.run m).runWith s = (.ok r, s')) : r.Storable := by
  obtain ⟨place, live, pairs, r', s₁, hrun', hlive⟩ := p.run_carries h.wellFormed h.allocatable s
  cases hrun.symm.trans hrun'
  exact hlive.storable h

/-- The run, by induction on the passes. -/
theorem Pass.runAll_storable {passes : List Pass} {m r : Model} {s s' : Supply} (h : m.Storable)
    (hrun : (Pass.runAll passes m).runWith s = (.ok r, s')) : r.Storable := by
  induction passes generalizing m s with
  | nil =>
    obtain ⟨rfl, -⟩ := Drawing.runWith_pure_ok.mp hrun
    exact h
  | cons p rest ih =>
    rw [runAll, List.foldlM_cons] at hrun
    obtain ⟨m₁, s₁, hpass, hrest⟩ := Drawing.runWith_bind_ok.mp hrun
    exact ih (run_storable h hpass) hrest

section Persisting

variable {m : Model} {place : NodeId → NodeId}

/-- What persists of a node with steady constants does what the node does. -/
theorem Node.SteadyConstants.matches_persisted {n : Node} (h : n.SteadyConstants)
    (hsized : n.Sized) (place : NodeId → NodeId) (id : NodeId) :
    n.Matches (Selection.WiredBy place) (n.persisted place id) := by
  refine .intro id (n.body.persisted place n.size) _ ?_ List.length_replicate
  rcases n with ⟨oldId, t, body, buffer⟩
  cases body with
  | input values => exact List.length_replicate.trans hsized.symm
  | constant values => exact (List.map_congr_left h).trans (List.map_id values)
  | output source => exact source.elements_relabel place
  | operation numeric op left right =>
    exact ⟨rfl, left.elements_relabel place, right.elements_relabel place⟩

/-- A model and what persists of it stand for one another, node by node. -/
theorem Model.Storable.carriedPart_persisted (h : m.Storable)
    (hwf : (m.persisted place).WellFormed) :
    CarriedPart place m (m.persisted place)
      (m.nodes.map fun n => (n, n.persisted place (place n.id))) where
  closed := by
    rw [List.map_map]
    exact List.forall_mem_map.mpr fun n hn => h.wellFormed.dependencies hn
  nodes := by
    rw [List.map_map]
    rfl
  wellFormed := h.wellFormed
  wellFormed_result := hwf
  source := List.forall_mem_map.mpr fun n hn => hn
  stands := List.forall_mem_map.mpr fun n _ => ⟨rfl, rfl, n.size_persisted place _⟩
  kept := List.forall_mem_map.mpr fun n hn =>
    have hmatches := (h.steady n hn).matches_persisted (h.wellFormed.sized n hn) place (place n.id)
    .inl ⟨hmatches, n.fresh_persisted place _⟩

/-- The bytes of the model load, whichever ids come next. The input nodes and the output nodes that
are loaded stand for those of the model, position by position, and fed the same values the output
nodes mean the same. -/
def Model.Restores (codecs : Archive.Codecs) (format : Archive.Format) (m : Model) : Prop :=
  ∃ bytes, m.toBytes codecs format = .ok bytes ∧
    ∀ s : Supply, ∃ (place : NodeId → NodeId) (m' : Model) (inputs outputs : List NodeId),
      (Model.ofBytes codecs format bytes).runWith s = (.ok m', ⟨s.drawn + m.size⟩) ∧
      m.inputs = .ok inputs ∧ m'.inputs = .ok (inputs.map place) ∧
      m.outputs = .ok outputs ∧ m'.outputs = .ok (outputs.map place) ∧
      ∀ a b, m.Accepts a →
        (∀ n ∈ m.nodes, n.isInput = true → b (place n.id) n.type = a n.id n.type) →
        m'.Accepts b ∧ ∀ id ∈ outputs, ∀ t,
          (m'.feed b).reference t (place id) = (m.feed a).reference t id

theorem Model.Storable.restores {codecs : Archive.Codecs} {lib : Json.Library}
    (hcodecs : codecs.Faithful lib) {format : Archive.Format} (h : m.Storable)
    (hkeeps : format.Keeps m) : m.Restores codecs format := by
  obtain ⟨bytes, hbytes, hread⟩ := exists_bytes hcodecs hkeeps
  refine ⟨bytes, hbytes, fun s => ?_⟩
  have hwf := h.wellFormed
  -- what is loaded is what persists, and that is a part carried over like any other
  have hload := hwf.load_stored h.bounded s
  have hpart := h.carriedPart_persisted (Registry.load_wellFormed hload).1
  have hinj : ∀ a ∈ m.ids, ∀ b ∈ m.ids, s.place m.ids a = s.place m.ids b → a = b :=
    fun a ha b hb hab => s.place_inj hwf.distinct ha hb hab
  obtain ⟨ids, ho⟩ := hwf.ordered
  have horder := order_persisted hinj ho
  have hids : ids ⊆ m.ids := (order_perm ho).subset
  refine ⟨s.place m.ids, m.persisted (s.place m.ids), _, _, ?_, inputs_of_order ho, ?_,
    outputs_of_order ho, ?_, fun a b haccepts hfed => ?_⟩
  · rw [ofBytes_of_read hread, hload]
  · rw [inputs_of_order horder, filter_persisted hinj (fun n id => n.isInput_persisted _ id) hids]
  · rw [outputs_of_order horder, filter_persisted hinj (fun n id => n.isOutput_persisted _ id) hids]
  · have hfed : FedAlike (m.nodes.map fun n => (n, n.persisted (s.place m.ids) _)) a b :=
      List.forall_mem_map.mpr hfed
    refine ⟨hpart.accepts haccepts hfed, fun id hid t => ?_⟩
    obtain ⟨n, hn, rfl⟩ := mem_ids.mp (hids (List.mem_filter.mp hid).1)
    exact hpart.reference_eq haccepts hfed (List.mem_map_of_mem hn) t

end Persisting

theorem ElementType.isNumeric_double : ElementType.double.isNumeric = true := rfl

namespace Tool

open Job

variable {codecs : Archive.Codecs} {lib : Json.Library}

/-- One, to be divided by zero. -/
def oneByZeroModel : Model :=
  ⟨[.constant ⟨1⟩ .double [(⟨0x3FF0000000000000⟩ : Binary .double)],
    .constant ⟨2⟩ .double [(⟨0⟩ : Binary .double)],
    ⟨⟨3⟩, .double, .operation ElementType.isNumeric_double .divide
      (.single ⟨⟨⟨1⟩, "output"⟩, 0, 1⟩) (.single ⟨⟨⟨2⟩, "output"⟩, 0, 1⟩),
      [(⟨0⟩ : Binary .double)]⟩,
    .output ⟨4⟩ .double (.single ⟨⟨⟨3⟩, "output"⟩, 0, 1⟩)]⟩

/-- The quotient is a constant now. -/
def infiniteModel : Model :=
  ⟨[.constant ⟨5⟩ .double [(⟨0x3FF0000000000000⟩ : Binary .double)],
    .constant ⟨6⟩ .double [(⟨0⟩ : Binary .double)],
    .constant ⟨7⟩ .double [(.infinity false : Binary .double)],
    .output ⟨8⟩ .double (.single ⟨⟨⟨7⟩, "output"⟩, 0, 1⟩)]⟩

/-- A directory with one model in it. -/
def modelDirectory (text : List UInt8) : Directory := ⟨[(["m.json"], text)]⟩

theorem load_oneByZeroModel :
    (Registry.builtin.load oneByZeroModel.toArchive).runWith {} = (.ok oneByZeroModel, ⟨4⟩) := rfl

theorem fold_oneByZeroModel :
    (Pass.runAll [.foldConstants] oneByZeroModel).runWith ⟨4⟩ = (.ok infiniteModel, ⟨8⟩) := rfl

theorem formatFor_json : ({} : Settings).formatFor "m.json" = .json := by decide +kernel

/-- The text of the quotient, and the model that is loaded from it. -/
theorem exists_oneByZeroModel (hjson : (codecs .json).Prints lib) :
    ∃ text, oneByZeroModel.toBytes codecs .json = .ok text ∧
      (Model.ofBytes codecs (({} : Settings).formatFor "m.json") text).runWith {} =
        (.ok oneByZeroModel, ⟨4⟩) := by
  have hfinite : oneByZeroModel.FiniteConstants := by decide
  have hread := (Model.read_json hjson).mpr ⟨hfinite, rfl⟩
  refine ⟨_, oneByZeroModel.toBytes_json hjson, ?_⟩
  rw [formatFor_json, Model.ofBytes_of_read hread, load_oneByZeroModel]

theorem read_modelDirectory (text : List UInt8) :
    (modelDirectory text).read? "m.json" = some text := by
  have hnames : Directory.locate? "m.json" = some ["m.json"] := by decide +kernel
  rw [Directory.read?, hnames]
  rfl

theorem write_modelDirectory {output : String} (text bytes : List UInt8)
    (hnames : Directory.locate? output = some [output]) (hnew : output ≠ "m.json") :
    (modelDirectory text).write? output bytes =
      some ⟨([output], bytes) :: (modelDirectory text).files⟩ := by
  rw [Directory.write?, hnames]
  simp [modelDirectory, Directory.isDirectory, hnew, hnew.symm]

/-- Folding the quotient and saving it succeeds wherever a file can be written. -/
theorem run_oneByZeroModel {text bytes : List UInt8} {output : String} {d : Directory}
    (hload : (Model.ofBytes codecs (({} : Settings).formatFor "m.json") text).runWith {} =
      (.ok oneByZeroModel, ⟨4⟩))
    (hbytes : infiniteModel.toBytes codecs (({} : Settings).formatFor output) = .ok bytes)
    (hwrite : (modelDirectory text).write? output bytes = some d) :
    ∃ s printed, (transform (World.host codecs) {} "m.json" output ["fold-constants"]).runIn {}
      { directory := modelDirectory text } = (.ok (), s, ⟨d, printed⟩) := by
  have hpasses : ({} : Settings).choosePasses ["fold-constants"] = .ok [.foldConstants] := rfl
  exact transform_of (w := { directory := modelDirectory text }) hpasses (read_modelDirectory text)
    hload fold_oneByZeroModel hbytes hwrite rfl

end Tool

end FlowGraph
