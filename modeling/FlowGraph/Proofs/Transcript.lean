import FlowGraph.Proofs.Elements
import FlowGraph.Proofs.Loading

/-! A loaded model against the archive it came from. The archive is read here by paths alone, with
none of its readers. -/
namespace FlowGraph

/-- The span is the archived one but for its node: that is the node of the entry with the archived
key, `keys` being those of all entries and `ids` the ids of their nodes. -/
structure Span.TranscribedFrom (keys : List UInt64) (ids : List NodeId) (item : Archive.Value)
    (s : Span) : Prop where
  node : ∃ v key, ∃ k : Nat, item.at? ["node"] = some v ∧ v.Holds key.toNat ∧
    keys[k]? = some key ∧ ids[k]? = some s.source.node
  port : item.at? ["port"] = some (.string s.source.name)
  start : ∃ v, item.at? ["start"] = some v ∧ v.Holds s.start.toNat
  count : ∃ v, item.at? ["count"] = some v ∧ v.Holds s.count.toNat

/-- The node has the archived type, spans, constants and operation. -/
structure Node.TranscribedFrom (keys : List UInt64) (ids : List NodeId) (entry : Archive.Value)
    (n : Node) : Prop where
  type : entry.at? ["type"] = some (.string n.nodeType.name)
  spans : ∀ i ∈ n.inlets, ∃ items,
    entry.at? ["state", i.name, "elements", "ranges"] = some (.array items) ∧
      List.Forall₂ (Span.TranscribedFrom keys ids) items i.selection.spans
  constants : ∀ t values, n.constants? t = some values → ∃ items,
    entry.at? ["state", "values"] = some (.array items) ∧
      List.Forall₂ (fun v x => t.ofStored v = .ok x) items values
  operator : ∀ op, n.operator? = some op → ∃ name,
    entry.at? ["state", "operation"] = some (.string name) ∧ Operation.ofName? name = some op

/-- One node for each entry, in the order of the entries, which have different keys. -/
def Model.TranscribedFrom (a : Archive) (m : Model) : Prop :=
  ∃ (entries : List Archive.Value) (keys : List UInt64),
    a.get? "nodes" = some (.array entries) ∧ keys.Nodup ∧
      List.Forall₂ (fun entry key => ∃ v, entry.at? ["id"] = some v ∧ v.Holds key.toNat)
        entries keys ∧
      List.Forall₂ (Node.TranscribedFrom keys m.ids) entries m.nodes

namespace Registry

/-- The spans of an archived inlet, after they have been renamed. -/
theorem spans_transcribed {loaded : List (UInt64 × Node)} {state : Archive} {t : ElementType}
    {name : String} {e e' : Selection} (hread : Node.readInlet state t name = .ok e)
    (hrenamed : e.RenamedBy (idOfKey loaded) e') :
    ∃ items, state.toValue.at? [name, "elements", "ranges"] = some (.array items) ∧
      List.Forall₂ (Span.TranscribedFrom (loaded.map Prod.fst) (loaded.map fun p => p.2.id))
        items e'.spans := by
  obtain ⟨inlet, hinlet, hselection⟩ := Archive.readObject_ok.mp hread
  obtain ⟨-, elements, helements, he⟩ := Inlet.selectionOfArchive_ok.mp hselection
  obtain ⟨items, hitems, hspans, -⟩ := Selection.ofArchive_ok.mp he
  refine ⟨items.map Archive.toValue, ?_, ?_⟩
  · rw [Archive.at?_cons hinlet, Archive.at?_cons helements, Archive.at?_single hitems]
  · refine List.forall₂_map_left_iff.mpr (forall₂_comp (fun item s s' hs hs' => ?_) hspans hrenamed)
    obtain ⟨⟨⟨v, hv, hnode⟩, hport, ⟨v₁, hv₁, hstart⟩, ⟨v₂, hv₂, hcount⟩⟩, -⟩ :=
      Span.ofArchive_ok.mp hs
    obtain ⟨id, hid, rfl⟩ := hs'
    obtain ⟨k, hkey, hk⟩ := idOfKey_eq_some hid
    exact ⟨⟨v, _, k, Archive.at?_single hv, hnode, hkey, hk⟩, Archive.at?_single hport,
      ⟨v₁, Archive.at?_single hv₁, hstart⟩, ⟨v₂, Archive.at?_single hv₂, hcount⟩⟩

theorem node_transcribed {loaded : List (UInt64 × Node)} {entry : Archive} {p : UInt64 × Node}
    {n : Node} (hentry : builtin.LoadsEntry entry p) (hn : resolve loaded p.2 = .ok n) :
    n.TranscribedFrom (loaded.map Prod.fst) (loaded.map fun p => p.2.id) entry.toValue := by
  obtain ⟨hm, -, -⟩ := resolve_ok hn
  obtain ⟨name, hname, htype⟩ := hentry.type
  obtain ⟨state, hstate, hread, -⟩ := hentry.state
  have htypeName : name = n.nodeType.name := by rw [hm.nodeType, lookup_builtin.mp htype]
  refine ⟨by rw [Archive.at?_single hname, htypeName], ?_, ?_, ?_⟩
  · rcases p with ⟨key, id, t, body, buffer⟩
    cases hm with
    | intro id' body' buffer' hbody hsize =>
      cases body <;> cases body' <;> simp only [Body.Matches] at hbody
      case input.input => simp [Node.inlets]
      case constant.constant => simp [Node.inlets]
      case output.output source source' =>
        intro i hi
        obtain rfl := List.mem_singleton.mp hi
        rw [Archive.at?_cons hstate]
        exact spans_transcribed hread hbody
      case operation.operation numeric op left right numeric' op' left' right' =>
        obtain ⟨-, hleft, hright⟩ := hread
        obtain ⟨-, hleft', hright'⟩ := hbody
        intro i hi
        rw [Archive.at?_cons hstate]
        rcases List.mem_cons.mp hi with rfl | hi
        · exact spans_transcribed hleft hleft'
        · obtain rfl := List.mem_singleton.mp hi
          exact spans_transcribed hright hright'
  · intro t values hvalues
    rw [hm.constants?] at hvalues
    rcases p with ⟨key, id, u, body, buffer⟩
    cases body <;> simp only [Node.constants?, reduceCtorEq] at hvalues
    case constant stored =>
      split at hvalues
      case isFalse => cases hvalues
      case isTrue same =>
        subst same
        obtain rfl := Option.some.inj hvalues
        obtain ⟨v, hv, hlist⟩ := Archive.read_ok.mp hread
        cases v <;> simp only [Archive.Value.asList, Archive.Value.wrongType, reduceCtorEq] at hlist
        case array items =>
          exact ⟨items, by rw [Archive.at?_cons hstate, Archive.at?_single hv], mapM_ok.mp hlist⟩
  · intro op hop
    rw [hm.operator?] at hop
    rcases p with ⟨key, id, t, body, buffer⟩
    cases body <;> simp only [Node.operator?, Option.some.injEq, reduceCtorEq] at hop
    subst hop
    obtain ⟨hop, -, -⟩ := hread
    simp only [Node.readOperation, bind_ok, Archive.read_ok, Archive.Value.asString_ok] at hop
    obtain ⟨text, ⟨v, hv, rfl⟩, hfound⟩ := hop
    refine ⟨text, by rw [Archive.at?_cons hstate, Archive.at?_single hv], ?_⟩
    split at hfound
    case h_1 op hsome => rw [hsome, pure_ok.mp hfound]
    case h_2 => exact (throw_ok.mp hfound).elim

/-- Whatever the archive, a model that is loaded from it says what the archive says, and can be
computed: names are unique, every span resolves to existing elements of its own type, nothing
depends on itself, and the sizes in every node agree. -/
theorem load_faithful {a : Archive} {m : Model} {s s' : Supply}
    (h : (builtin.load a).runWith s = (.ok m, s')) :
    m.ids.Nodup ∧ m.TranscribedFrom a ∧
      (∀ n ∈ m.nodes, ∀ i ∈ n.inlets, ∀ s ∈ i.selection.spans, ∃ target,
        m.node? s.source.node = some target ∧ s.source.name = Node.outletName ∧
          target.type = i.type ∧ s.start.toNat + s.count.toNat ≤ target.size) ∧
      m.Acyclic ∧ ∀ n ∈ m.nodes, n.Sized ∧ n.size ≤ storedSizeLimit := by
  obtain ⟨hwf, hfresh, -, -⟩ := load_wellFormed h
  obtain ⟨ids, ho⟩ := hwf.ordered
  refine ⟨hwf.distinct, ?_, ?_, Model.order_acyclic hwf.distinct ho, fun n hn =>
    ⟨hwf.sized n hn, (hfresh n hn).1⟩⟩
  · obtain ⟨-, entries, loaded, hentries, hforall, hids, hkeys, -, hnodes, -, -⟩ := load_ok.mp h
    have hsame : m.ids = loaded.map fun p => p.2.id := by
      rw [Model.ids, ← List.forall₂_eq_eq_eq, List.forall₂_map_left_iff, List.forall₂_map_right_iff]
      exact List.Forall₂.flip (hnodes.imp fun p n hn => (resolve_ok hn).2.1)
    refine ⟨_, _, hentries, hkeys, ?_, ?_⟩
    · refine List.forall₂_map_left_iff.mpr (List.forall₂_map_right_iff.mpr
        (hforall.imp fun entry p hentry => ?_))
      obtain ⟨v, hv, hholds⟩ := hentry.key
      exact ⟨v, Archive.at?_single hv, hholds⟩
    · rw [hsame]
      refine List.forall₂_map_left_iff.mpr (forall₂_comp ?_ hforall hnodes)
      intro entry p n hentry hn
      exact node_transcribed hentry hn
  · intro n hn i hi s hs
    have hspan := hwf.resolves n hn s (Node.mem_spans.mpr ⟨i, hi, hs⟩)
    obtain ⟨target, htarget, hname, htype, hstop⟩ := hspan
    have hlimit := (hfresh target (Model.node?_eq_some htarget).1).1
    have hfits : s.Fits := by
      apply Span.fits_of_stop_lt
      calc s.stop ≤ target.size := hstop
        _ ≤ storedSizeLimit := hlimit
        _ < sizeLimit := storedSizeLimit_lt
    refine ⟨target, htarget, hname, htype.trans (Node.inlet_type hi).symm, ?_⟩
    rwa [← Span.stop_of_fits hfits]

/-- Two entries under the keys two and one, while their nodes get the ids one and two. -/
def crossedKeys : Archive :=
  .ofList [("format_version", .uint 1), ("nodes", .array [
    .object [("id", .uint 2), ("state", .object [("output", .object [("size", .uint 3),
      ("type", .string "int")])]), ("type", .string "InputNode<int>")],
    .object [("id", .int 1), ("state", .object [
      ("input", .object [
        ("elements", .object [("ranges", .array [.object [("count", .uint 1), ("node", .uint 2),
          ("port", .string "output"), ("start", .int 2)]])]),
        ("type", .string "int")]),
      ("output", .object [("size", .uint 1), ("type", .string "int")])]),
      ("type", .string "OutputNode<int>")]])]

/-- The span of the second node follows the first one from key two to id one, and stays there. -/
def crossedModel : Model :=
  ⟨[.input ⟨1⟩ .int 3, .output ⟨2⟩ .int (.single ⟨⟨⟨1⟩, "output"⟩, 2, 1⟩)]⟩

theorem load_faithful_crossedKeys :
    (builtin.load crossedKeys).runWith {} = (.ok crossedModel, ⟨2⟩) ∧
      crossedModel.ids.Nodup ∧ crossedModel.TranscribedFrom crossedKeys ∧ crossedModel.Acyclic :=
  have h : (builtin.load crossedKeys).runWith {} = (.ok crossedModel, ⟨2⟩) := rfl
  ⟨h, (load_faithful h).1, (load_faithful h).2.1, (load_faithful h).2.2.2.1⟩

end Registry

end FlowGraph
