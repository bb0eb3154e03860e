import FlowGraph.Proofs.Transforming

/-! A model that was loaded is written in one form only, from whatever file it came. -/
namespace FlowGraph

theorem Selection.relabel_eq_self {place : NodeId → NodeId} {e : Selection}
    (h : ∀ s ∈ e.spans, place s.source.node = s.source.node) : e.relabel place = e := by
  have hsame : e.relabel place = e.relabel fun id => id := by
    refine congrArg Selection.mk (List.map_congr_left fun s hs => ?_)
    rw [Span.relabel, h s hs]
    rfl
  rw [hsame, e.relabel_id]

namespace Node

variable {n : Node} {place : NodeId → NodeId}

theorem body_persisted (hfresh : n.Fresh) (hsteady : n.SteadyConstants)
    (hsame : ∀ s ∈ n.spans, place s.source.node = s.source.node) :
    n.body.persisted place n.size = n.body := by
  rcases n with ⟨id, t, body, buffer⟩
  cases body with
  | input values => exact congrArg Body.input hfresh.2.symm
  | constant values =>
    exact congrArg Body.constant ((List.map_congr_left hsteady).trans (List.map_id values))
  | output source =>
    refine congrArg Body.output (Selection.relabel_eq_self fun s hs => hsame s ?_)
    rwa [spans_output rfl]
  | operation numeric op left right =>
    rw [spans_operation rfl] at hsame
    have hleft : left.relabel place = left :=
      Selection.relabel_eq_self fun s hs => hsame s (List.mem_append_left _ hs)
    have hright : right.relabel place = right :=
      Selection.relabel_eq_self fun s hs => hsame s (List.mem_append_right _ hs)
    rw [Body.persisted, hleft, hright]

/-- All of a node persists if nothing of it has been set or computed. -/
theorem persisted_eq_self (hfresh : n.Fresh) (hsteady : n.SteadyConstants)
    (hsame : ∀ s ∈ n.spans, place s.source.node = s.source.node) : n.persisted place n.id = n := by
  rw [persisted, body_persisted hfresh hsteady hsame, ← hfresh.1]

end Node

theorem Model.typeNames_persisted (place : NodeId → NodeId) (m : Model) :
    (m.persisted place).typeNames = m.typeNames := by
  rw [typeNames, persisted, List.map_map]
  exact List.map_congr_left fun n _ => congrArg NodeType.name (n.nodeType_persisted place _)

/-- A model as it is loaded before any other: its nodes have the first ids there are, and nothing
has been set or computed. -/
structure Model.Pristine (m : Model) : Prop extends m.Storable where
  numbered : m.ids = ({} : Supply).next m.size
  fresh : ∀ n ∈ m.nodes, n.Fresh

namespace Model

variable {codecs : Archive.Codecs} {lib : Json.Library} {m : Model} {format : Archive.Format}

theorem pristine_of_ofBytes {bytes : List UInt8} {s : Supply}
    (h : (Model.ofBytes codecs format bytes).runWith {} = (.ok m, s)) :
    m.Pristine ∧ s = ⟨m.size⟩ := by
  obtain ⟨a, s₁, harchive, hload⟩ := Drawing.runWith_bind_ok.mp h
  obtain ⟨-, rfl⟩ := Registry.ofArchive_ok.mp harchive
  obtain ⟨-, hnodes, hids, hs⟩ := Registry.load_wellFormed hload
  refine ⟨⟨storable_of_ofBytes h, hids, fun n hn => (hnodes n hn).2⟩, ?_⟩
  rw [hs, Nat.zero_add]

/-- What persists of a model that is loaded first is all of it. -/
theorem Pristine.persisted_eq_self (h : m.Pristine) :
    m.persisted (({} : Supply).place m.ids) = m := by
  have hdistinct := h.wellFormed.distinct
  -- the new ids, in their order, are those of the nodes
  have hplaces : m.ids.map (({} : Supply).place m.ids) = m.ids.map id := by
    rw [Supply.map_place _ hdistinct, length_ids, ← h.numbered, List.map_id]
  have hsame : ∀ id ∈ m.ids, ({} : Supply).place m.ids id = id := List.map_inj_left.mp hplaces
  have hnodes : m.nodes.map (fun n => n.persisted (({} : Supply).place m.ids)
      (({} : Supply).place m.ids n.id)) = m.nodes := by
    refine (List.map_congr_left fun n hn => ?_).trans (List.map_id m.nodes)
    rw [hsame n.id (mem_ids.mpr ⟨n, hn, rfl⟩)]
    exact n.persisted_eq_self (h.fresh n hn) (h.steady n hn) fun s hs =>
      hsame _ (resolves_mem (h.wellFormed.resolves n hn s hs))
  rw [persisted, hnodes]

theorem Storable.ofBytes_written (h : m.Storable) {bytes : List UInt8}
    (hread : (codecs format).read bytes = some m.toArchive) (s : Supply) :
    (Model.ofBytes codecs format bytes).runWith s =
      (.ok (m.persisted (s.place m.ids)), ⟨s.drawn + m.size⟩) := by
  rw [ofBytes_of_read hread, h.wellFormed.load_stored h.bounded s]

/-- The bytes of such a model are those of the model that is loaded from them. -/
theorem Pristine.ofBytes_written (h : m.Pristine) {bytes : List UInt8}
    (hread : (codecs format).read bytes = some m.toArchive) :
    (Model.ofBytes codecs format bytes).runWith {} = (.ok m, ⟨m.size⟩) := by
  rw [h.toStorable.ofBytes_written hread, h.persisted_eq_self, Nat.zero_add]

end Model

namespace Tool

open Job

variable {codecs : Archive.Codecs} {lib : Json.Library}

/-- Converting a file that holds `given` writes `written`, for files of these formats: whatever the
settings are, the run, with ids that start anew, succeeds wherever the output file can be written,
and does nothing else. -/
def Converts (codecs : Archive.Codecs) (source output : Archive.Format)
    (given written : List UInt8) : Prop :=
  ∀ (d d' : Directory) (settings : Settings) (sourcePath outputPath : String),
    settings.formatFor sourcePath = source → settings.formatFor outputPath = output →
    d.read? sourcePath = some given →
    ((∃ s printed, (convert (World.host codecs) settings sourcePath outputPath).runIn {}
        { directory := d } = (.ok (), s, ⟨d', printed⟩)) ↔
      d.write? outputPath written = some d')

theorem converts_toBytes {source output : Archive.Format} {given written : List UInt8} {m : Model}
    {s : Supply} (hload : (Model.ofBytes codecs source given).runWith {} = (.ok m, s))
    (hwritten : m.toBytes codecs output = .ok written)
    (hread : (codecs output).read written = some m.toArchive) :
    Converts codecs source output given written := by
  intro d d' settings sourcePath outputPath hsource houtput hgiven
  subst hsource houtput
  constructor
  · rintro ⟨_, _, hconvert⟩
    -- the run has read the same bytes, and so has the same model to save
    obtain ⟨_, _, _, _, hgiven', hload', hwritten', hwrite⟩ := convert_ok hconvert
    cases hgiven.symm.trans hgiven'
    cases hload.symm.trans hload'
    cases hwritten.symm.trans hwritten'
    exact hwrite
  · intro hwrite
    have hm : m.Storable := Model.storable_of_ofBytes hload
    -- if it is read back, then under other ids, but with the same types
    have hsave := saveModel_of (s := s) (w := { directory := d }) hwritten hwrite fun _ =>
      ⟨_, _, hm.ofBytes_written hread s, m.typeNames_persisted _⟩
    exact convert_of (w := { directory := d }) hgiven hload hsave

end Tool

end FlowGraph
