import FlowGraph.Proofs.Loading
import FlowGraph.Proofs.Locating
import FlowGraph.Proofs.Session
import FlowGraph.Proofs.Shapes

/-! Where loading a model goes wrong: the error leads to the culprit, from the archive as a whole
down to one number in a span. -/
namespace FlowGraph

theorem Span.blames_ofArchive (a : Archive) :
    FailsWith (·.Blames a.toValue) (Span.ofArchive a) := by
  refine (a.blames_read (by decide) Archive.Value.refused_asUInt64).bind fun node _ => ?_
  refine (a.blames_read (by decide) Archive.Value.refused_asString).bind fun name _ => ?_
  refine (a.blames_read (by decide) Archive.Value.refused_asUInt64).bind fun start _ => ?_
  refine (a.blames_read (by decide) Archive.Value.refused_asUInt64).bind fun count _ => ?_
  split
  · exact .error (Archive.Value.Refused.range _ _).blames
  · exact .ok _

theorem Selection.blames_spansOfArchive {a : Archive} (total : Nat) {before items : List Archive}
    (h : a.get? "ranges" = some (.array ((before ++ items).map Archive.toValue))) :
    FailsWith (·.Blames a.toValue) (spansOfArchive before.length total items) := by
  induction items generalizing total before with
  | nil => exact .ok _
  | cons item rest ih =>
    have hitem : ((before ++ item :: rest).map Archive.toValue)[before.length]? =
        some item.toValue := by simp
    have hspan := Archive.blames_within (Archive.step?_item (by decide) h hitem)
      (Span.blames_ofArchive item)
    refine hspan.bind fun s _ => ?_
    have hnext : a.get? "ranges" = some (.array (((before ++ [item]) ++ rest).map
        Archive.toValue)) := by simpa using h
    have hrest := fun total => ih total hnext
    simp only [List.length_append] at hrest
    split
    · exact .error (Archive.Value.Refused.range _ _).blames
    · exact (hrest _).bind fun others _ => .ok _

theorem Selection.blames_ofArchive (a : Archive) :
    FailsWith (·.Blames a.toValue) (Selection.ofArchive a) := by
  refine FailsWith.bind (Archive.blames_objects (by decide)) fun items hitems => ?_
  have hranges : a.get? "ranges" = some (.array (([] ++ items).map Archive.toValue)) :=
    Archive.objects_ok.mp hitems
  exact (blames_spansOfArchive 0 hranges).bind fun spans _ => .ok _

theorem blames_checkStoredType (t : ElementType) (a : Archive) :
    FailsWith (·.Blames a.toValue) (checkStoredType t a) := by
  refine (a.blames_read (by decide) Archive.Value.refused_asString).bind fun found _ => ?_
  split
  · exact .error (Archive.Error.blames_invalidValue _)
  · exact .ok _

theorem Inlet.blames_selectionOfArchive (t : ElementType) (a : Archive) :
    FailsWith (·.Blames a.toValue) (selectionOfArchive t a) :=
  (blames_checkStoredType t a).bind fun _ _ =>
    a.blames_readObject (by decide) Selection.blames_ofArchive

theorem Outlet.blames_valuesOfArchive (t : ElementType) (a : Archive) :
    FailsWith (·.Blames a.toValue) (valuesOfArchive t a) := by
  refine (blames_checkStoredType t a).bind fun _ _ => ?_
  refine (a.blames_read (by decide) Archive.Value.refused_asUInt64).bind fun size _ => ?_
  split
  · exact .error (Archive.Value.Refused.range _ _).blames
  · exact .ok _

theorem ElementType.refused_ofStored (t : ElementType) (v : Archive.Value) :
    FailsWith v.Refused (t.ofStored v) := by
  cases t with
  | bool => exact v.refused_asBool
  | int => exact v.refused_asInt32
  | int64 => exact v.refused_asInt64
  | float => exact v.refused_asSingle
  | double => exact v.refused_asDouble

namespace Archive.Error

variable {v w : Value} {path : List String} {listed : Prop}

/-- The error blames something in `v`. If the list at the path is `listed`, it may also be about one
of the items, and does not say about which. -/
inductive Accuses (v : Value) (path : List String) (listed : Prop) (e : Error) : Prop
  | value (blames : e.Blames v)
  | item {items : List Value} {expected found : Kind} (listed : listed) (path_eq : e.path = path)
    (follow_eq : v.follow? path = some (.array items))
    (innermost_eq : e.innermost = .wrongType expected found)
    (kind_eq : ∃ item ∈ items, item.kind = found)

theorem Accuses.imp {listed' : Prop} {e : Error} (h : e.Accuses v path listed)
    (hlisted : listed → listed') : e.Accuses v path listed' := by
  cases h with
  | value hblames => exact .value hblames
  | item h hpath hfollow hinnermost hkind =>
    exact .item (hlisted h) hpath hfollow hinnermost hkind

theorem Accuses.property {name : String} {cause : Error} (hstep : v.step? (.ofName name) = some w)
    (h : cause.Accuses w path listed) :
    (Error.property name cause).Accuses v (name :: path) listed := by
  cases h with
  | value hblames => exact .value (hblames.property hstep)
  | item hlisted hpath hfollow hinnermost hkind =>
    refine .item hlisted (congrArg _ hpath) ?_ hinnermost hkind
    rw [Value.follow?, hstep]
    exact hfollow

end Archive.Error

namespace Node

theorem accuses_readConstants (t : ElementType) (a : Archive) :
    FailsWith (·.Accuses a.toValue ["values"] True)
      (a.read (Archive.Value.asList t.ofStored) "values") := by
  refine (a.blames_value.imp fun e => .value).bind fun v hv e he => ?_
  have hstep := Archive.step?_property (by decide) (Archive.value_ok.mp hv)
  cases hread : Archive.Value.asList t.ofStored v with
  | ok values =>
    rw [hread] at he
    cases he
  | error cause =>
    rw [hread] at he
    obtain rfl := Except.error.inj he
    refine Archive.Error.Accuses.property hstep ?_
    rcases Archive.Value.asList_error.mp hread with ⟨-, rfl⟩ | ⟨before, item, after, rfl, -, hitem⟩
    · exact .value (Archive.Value.Refused.kind _).blames
    · cases t.refused_ofStored item _ hitem with
      | kind expected =>
        exact .item trivial rfl rfl rfl ⟨item, List.mem_append_right _ List.mem_cons_self, rfl⟩
      | range target text => exact .value ⟨_, rfl, trivial⟩

theorem blames_readOperation (a : Archive) : FailsWith (·.Blames a.toValue) (readOperation a) := by
  refine (a.blames_read (by decide) Archive.Value.refused_asString).bind fun name hname => ?_
  obtain ⟨v, hv, -⟩ := Archive.read_ok.mp hname
  split
  · exact .ok _
  · exact .error ((Archive.Error.blames_invalidValue _).property
      (Archive.step?_property (by decide) hv))

theorem blames_readInlet (a : Archive) (t : ElementType) {name : String}
    (hname : '[' ∉ name.toList) : FailsWith (·.Blames a.toValue) (readInlet a t name) :=
  a.blames_readObject hname (Inlet.blames_selectionOfArchive t)

theorem blames_readBuffer (a : Archive) (t : ElementType) :
    FailsWith (·.Blames a.toValue) (readBuffer a t) :=
  a.blames_readObject (by decide) (Outlet.blames_valuesOfArchive t)

theorem blames_agree (v : Archive.Value) (agreeing : Bool) (detail : String) :
    FailsWith (·.Blames v) (agree agreeing detail) := by
  unfold agree
  split
  · exact .ok _
  · exact .error (Archive.Error.blames_invalidValue _)

/-- An error stops the reading, and is that of the whole. -/
theorem failsWith_leaving {α : Type} {P : Archive.Error → Prop} (n : Node)
    {result : Except Archive.Error α} {next : α → Except Archive.Error Unit × Node}
    (h : FailsWith P result) (hnext : ∀ x, FailsWith P (next x).1) :
    FailsWith P (n.leaving result next).1 := by
  cases result with
  | ok x => exact hnext x
  | error e => exact .error (h e rfl)

/-- Only the values of a constant are read from a list. -/
theorem accuses_restore (n : Node) (a : Archive) :
    FailsWith (·.Accuses a.toValue ["values"] (∃ t, n.nodeType = .constant t)) (n.restore a).1 := by
  have hvalue : ∀ {α : Type} {result : Except Archive.Error α},
      FailsWith (·.Blames a.toValue) result →
        FailsWith (·.Accuses a.toValue ["values"] (∃ t, n.nodeType = .constant t)) result :=
    fun h => h.imp fun _ => .value
  rcases n with ⟨id, t, body, buffer⟩
  cases body with
  | input values => exact failsWith_leaving _ (hvalue (blames_readBuffer a t)) fun fresh => .ok _
  | constant values =>
    have hlisted : ∃ u, nodeType ⟨id, t, .constant values, buffer⟩ = .constant u := ⟨t, rfl⟩
    have hconstants := (accuses_readConstants t a).imp fun _ he => he.imp fun _ => hlisted
    refine failsWith_leaving _ hconstants fun values => ?_
    refine failsWith_leaving _ (hvalue (blames_readBuffer a t)) fun fresh => ?_
    exact hvalue (blames_agree _ _ _)
  | output source =>
    refine failsWith_leaving _ (hvalue (blames_readInlet a t (by decide))) fun source => ?_
    refine failsWith_leaving _ (hvalue (blames_readBuffer a t)) fun fresh => ?_
    exact hvalue (blames_agree _ _ _)
  | operation numeric op left right =>
    refine failsWith_leaving _ (hvalue (blames_readOperation a)) fun op => ?_
    refine failsWith_leaving _ (hvalue (blames_readInlet a t (by decide))) fun left => ?_
    refine failsWith_leaving _ (hvalue (blames_readInlet a t (by decide))) fun right => ?_
    refine failsWith_leaving _ (hvalue (blames_readBuffer a t)) fun fresh => ?_
    exact hvalue (blames_agree _ _ _)

theorem accuses_restored (n : Node) (a : Archive) :
    FailsWith (·.Accuses a.toValue ["values"] (∃ t, n.nodeType = .constant t)) (n.restored a) := by
  have hrestore := n.accuses_restore a
  unfold restored
  generalize n.restore a = outcome at hrestore
  rcases outcome with ⟨e | ⟨⟩, n'⟩
  · exact .error (hrestore e rfl)
  · exact .ok n'

end Node

theorem Drawing.failsWith_bind {α β : Type} {P : GraphError → Prop} {d : Drawing α}
    {f : α → Drawing β} {s : Supply} (h : FailsWith P (d.runWith s).1)
    (hnext : ∀ x s', d.runWith s = (.ok x, s') → FailsWith P ((f x).runWith s').1) :
    FailsWith P ((d >>= f).runWith s).1 := by
  rw [runWith_bind]
  rcases hrun : d.runWith s with ⟨e | x, s'⟩
  · rw [hrun] at h
    exact .error (h e rfl)
  · exact hnext x s' hrun

/-- If the error is one of reading an archive, `P` holds of that. -/
def GraphError.FromArchive (P : Archive.Error → Prop) (e : GraphError) : Prop :=
  ∀ cause, e = .archive cause → P cause

namespace Registry

variable {a : Archive}

/-- The entry at `index` is that of a constant. -/
def ListsConstant (r : Registry) (a : Archive) (index : Nat) : Prop :=
  ∃ name t, a.toValue.follow? [Archive.itemName "nodes" index, "type"] = some (.string name) ∧
    r.entries.lookup name = some (.constant t)

theorem failsWith_ofArchive {α : Type} {P : Archive.Error → Prop} {result : Except Archive.Error α}
    (h : FailsWith P result) (s : Supply) :
    FailsWith (GraphError.FromArchive P) ((ofArchive result).runWith s).1 := by
  cases result with
  | ok x => exact .ok x
  | error e =>
    refine .error fun cause hcause => ?_
    obtain rfl := GraphError.archive.inj hcause
    exact h e rfl

/-- The node that reads the state of an entry is the one that the type of the entry names. -/
theorem accuses_readState (r : Registry) {index : Nat} {entry : Archive}
    (hstep : a.toValue.step? (.ofName (Archive.itemName "nodes" index)) = some entry.toValue)
    {name : String} (hname : entry.get? "type" = some (.string name)) {type : NodeType}
    (htype : r.entries.lookup name = some type) (id : NodeId) :
    FailsWith (·.Accuses a.toValue
      [Archive.itemName "nodes" index, "state", "values"] (r.ListsConstant a index))
      (Archive.within (Archive.itemName "nodes" index)
        (entry.readObject "state" (Node.blank id type).restored)) := by
  have hconstant : (∃ t, (Node.blank id type).nodeType = .constant t) →
      r.ListsConstant a index := by
    rintro ⟨t, ht⟩
    refine ⟨name, t, ?_, ?_⟩
    · rw [Archive.Value.follow?, hstep, Option.bind_some, Archive.Value.follow?,
        Archive.step?_property (by decide) hname]
      rfl
    · rw [htype, ← ht, Node.nodeType_blank]
  refine Archive.failsWith_within (entry.failsWith_readObject (by decide) ?_ fun state hstate => ?_)
  · exact fun e he => .value (he.property hstep)
  · refine (Node.accuses_restored _ state).imp fun e he => ?_
    have hstate := he.property (Archive.step?_property (by decide) hstate)
    exact (hstate.property hstep).imp hconstant

theorem accuses_loadEntry (r : Registry) {index : Nat} {entry : Archive}
    (hstep : a.toValue.step? (.ofName (Archive.itemName "nodes" index)) = some entry.toValue)
    (s : Supply) :
    FailsWith (GraphError.FromArchive (·.Accuses a.toValue
      [Archive.itemName "nodes" index, "state", "values"] (r.ListsConstant a index)))
      ((r.loadEntry index entry).runWith s).1 := by
  refine Drawing.failsWith_bind (failsWith_ofArchive ?_ s) fun name s₁ hname => ?_
  · exact (Archive.blames_within hstep
      (entry.blames_read (by decide) Archive.Value.refused_asString)).imp fun _ => .value
  refine Drawing.failsWith_bind (failsWith_ofArchive ?_ s₁) fun stored s₂ _ => ?_
  · exact (Archive.blames_within hstep
      (entry.blames_read (by decide) Archive.Value.refused_asUInt64)).imp fun _ => .value
  refine Drawing.failsWith_bind ?_ fun blank s₃ hblank => ?_
  · unfold create
    cases r.entries.lookup name with
    | some type => exact .ok _
    | none => exact .error fun cause hcause => nomatch hcause
  refine Drawing.failsWith_bind (failsWith_ofArchive ?_ s₃) fun node s₄ _ => .ok _
  obtain ⟨type, htype, rfl, -⟩ := create_ok.mp hblank
  obtain ⟨v, hv, hstring⟩ := Archive.read_ok.mp (Archive.within_ok.mp (ofArchive_ok.mp hname).1)
  rw [Archive.Value.asString_ok.mp hstring] at hv
  exact r.accuses_readState hstep hv htype _

/-- One entry after the other: the first error is that of its entry. -/
theorem accuses_loadEntries (r : Registry) {before entries : List Archive}
    (h : a.get? "nodes" = some (.array ((before ++ entries).map Archive.toValue)))
    (known : List UInt64) (s : Supply) :
    FailsWith (GraphError.FromArchive fun cause => ∃ index, cause.Accuses a.toValue
      [Archive.itemName "nodes" index, "state", "values"] (r.ListsConstant a index))
      ((r.loadEntries before.length known entries).runWith s).1 := by
  induction entries generalizing before known s with
  | nil => exact .ok _
  | cons entry rest ih =>
    have hentry : ((before ++ entry :: rest).map Archive.toValue)[before.length]? =
        some entry.toValue := by simp
    have hstep := Archive.step?_item (by decide) h hentry
    refine Drawing.failsWith_bind ((r.accuses_loadEntry hstep s).imp fun e he cause hcause =>
      ⟨_, he cause hcause⟩) fun loaded s₁ _ => ?_
    have hnext : a.get? "nodes" = some (.array (((before ++ [entry]) ++ rest).map
        Archive.toValue)) := by simpa using h
    have hrest := fun known => ih hnext known s₁
    simp only [List.length_append] at hrest
    dsimp only
    split
    · exact .error fun cause hcause => nomatch hcause
    · exact Drawing.failsWith_bind (hrest _) fun others s₂ _ => .ok _

end Registry

/-- Checking a whole model finds nothing wrong with an archive. -/
theorem Model.validate_notArchive (m : Model) :
    FailsWith (GraphError.FromArchive fun _ => False) m.validate := by
  have hnodes : FailsWith (GraphError.FromArchive fun _ => False) (m.nodes.forM m.checkNode) := by
    intro e he cause hcause
    obtain ⟨n, -, hnode⟩ := forM_error he
    obtain ⟨i, hi, hinlet⟩ := forM_error hnode
    obtain ⟨s, hs, hspan⟩ := forM_error hinlet
    subst hcause
    cases rejects_of_checkSpan hi hs hspan
  have horder : FailsWith (GraphError.FromArchive fun _ => False) m.order := by
    unfold order
    split
    · exact .error fun cause hcause => nomatch hcause
    · split
      · exact .ok _
      · exact .error fun cause hcause => nomatch hcause
  exact hnodes.bind fun _ _ => horder.bind fun _ _ => .ok _

namespace Registry

theorem assemble_notArchive (nodes : List Node) :
    FailsWith (GraphError.FromArchive fun _ => False) (assemble nodes) := by
  have hadd : ∀ m : Model, FailsWith (GraphError.FromArchive fun _ => False)
      (nodes.foldlM Model.addUnchecked m) := by
    induction nodes with
    | nil => exact fun m => .ok m
    | cons n rest ih =>
      intro m
      refine FailsWith.bind ?_ fun m' _ => ih m'
      unfold Model.addUnchecked
      split
      · exact .error fun cause hcause => nomatch hcause
      · exact .ok _
  exact (hadd _).bind fun m _ => m.validate_notArchive.bind fun _ _ => .ok _

theorem resolve_notArchive (loaded : List (UInt64 × Node)) (n : Node) :
    FailsWith (GraphError.FromArchive fun _ => False) (resolve loaded n) := by
  unfold resolve
  dsimp only
  generalize n.renameInlets _ = result
  cases result with
  | ok n' => exact .ok _
  | error e => exact .error fun cause hcause => nomatch hcause

theorem accuses_load (r : Registry) (a : Archive) (s : Supply) :
    FailsWith (GraphError.FromArchive fun cause => ∃ index, cause.Accuses a.toValue
      [Archive.itemName "nodes" index, "state", "values"] (r.ListsConstant a index))
      ((r.load a).runWith s).1 := by
  -- what is wrong outside all entries has nothing to do with any list
  have hvalue : ∀ {cause : Archive.Error}, cause.Blames a.toValue →
      ∃ index, cause.Accuses a.toValue [Archive.itemName "nodes" index, "state", "values"]
        (r.ListsConstant a index) := fun h => ⟨0, .value h⟩
  have hversion : FailsWith (·.Blames a.toValue)
      (a.read Archive.Value.asUInt64 "format_version") :=
    a.blames_read (by decide) Archive.Value.refused_asUInt64
  refine Drawing.failsWith_bind (failsWith_ofArchive (hversion.imp fun _ => hvalue) s)
    fun version s₁ _ => ?_
  split
  · refine .error fun cause hcause => hvalue ?_
    obtain rfl := GraphError.archive.inj hcause
    exact ⟨a.toValue, rfl, trivial⟩
  have hobjects : FailsWith (·.Blames a.toValue) (a.objects "nodes") :=
    Archive.blames_objects (by decide)
  refine Drawing.failsWith_bind (failsWith_ofArchive (hobjects.imp fun _ => hvalue) s₁)
    fun entries s₂ hentries => ?_
  have hnodes : a.get? "nodes" = some (.array (([] ++ entries).map Archive.toValue)) :=
    Archive.objects_ok.mp (ofArchive_ok.mp hentries).1
  refine Drawing.failsWith_bind (r.accuses_loadEntries hnodes [] s₂)
    fun loaded s₃ _ => ?_
  have hresolve : FailsWith (GraphError.FromArchive fun _ => False)
      (loaded.mapM fun p => resolve loaded p.2) := by
    intro e he
    obtain ⟨-, p, -, -, -, hp⟩ := mapM_error.mp he
    exact resolve_notArchive loaded p.2 e hp
  refine Drawing.failsWith_bind ?_ fun nodes s₄ _ => ?_
  · exact hresolve.imp fun _ h cause hcause => (h cause hcause).elim
  · exact (assemble_notArchive nodes).imp fun _ h cause hcause => (h cause hcause).elim

/-- Errors of loading point at the culprit. If the archive is to blame, the names in the error lead
from the archive, name after name, to a value of it. Where a property is said to be missing, that is
an object, and it has no such property; where something is said to be of the wrong kind, it is of
the kind that is said to have been found. Only of the values of a constant the error names the list,
and then one of its items is of that kind. -/
theorem load_blames_culprit {r : Registry} {a : Archive} {s s' : Supply} {e : Archive.Error}
    (h : (r.load a).runWith s = (.error (.archive e), s')) :
    ∃ v, a.toValue.follow? e.path = some v ∧
      (∀ name, e.innermost = .missingProperty name →
        ∃ inner : Archive, v = inner.toValue ∧ inner.get? name = none) ∧
      ∀ expected found, e.innermost = .wrongType expected found →
        v.kind = found ∨ ∃ index items,
          e.path = [Archive.itemName "nodes" index, "state", "values"] ∧
            r.ListsConstant a index ∧ v = .array items ∧ ∃ item ∈ items, item.kind = found := by
  obtain ⟨index, haccuses⟩ := r.accuses_load a s _ (congrArg Prod.fst h) e rfl
  cases haccuses with
  | value hblames =>
    obtain ⟨v, hfollow, hdescribes⟩ := hblames
    refine ⟨v, hfollow, fun name hname => ?_, fun expected found hfound => .inl ?_⟩
    · rwa [hname] at hdescribes
    · rwa [hfound] at hdescribes
  | item hlisted hpath hfollow hinnermost hkind =>
    refine ⟨_, hpath ▸ hfollow, fun name hname => ?_, fun expected found hfound => .inr ?_⟩
    · rw [hinnermost] at hname
      cases hname
    · obtain ⟨-, rfl⟩ := Archive.Error.wrongType.inj (hinnermost.symm.trans hfound)
      exact ⟨index, _, hpath, hlisted, rfl, hkind⟩

/-- An input node, and an output node whose second span has no port. -/
def portlessSpan : Archive :=
  .ofList [("format_version", .uint 1), ("nodes", .array [
    .object [("id", .uint 4), ("state", .object [("output", .object [("size", .uint 2),
      ("type", .string "int")])]), ("type", .string "InputNode<int>")],
    .object [("id", .uint 5), ("state", .object [
      ("input", .object [
        ("elements", .object [("ranges", .array [
          .object [("count", .uint 1), ("node", .uint 4), ("port", .string "output"),
            ("start", .uint 0)],
          .object [("count", .uint 1), ("node", .uint 4), ("start", .uint 1)]])]),
        ("type", .string "int")]),
      ("output", .object [("size", .uint 2), ("type", .string "int")])]),
      ("type", .string "OutputNode<int>")]])]

theorem load_blames_culprit_portlessSpan :
    (builtin.load portlessSpan).runWith {} =
      (.error (.archive (.property "nodes[1]" (.property "state" (.property "input"
        (.property "elements" (.property "ranges[1]" (.missingProperty "port"))))))), ⟨2⟩) ∧
      ∃ inner : Archive, portlessSpan.toValue.follow?
        ["nodes[1]", "state", "input", "elements", "ranges[1]"] = some inner.toValue ∧
          inner.get? "port" = none := by
  have hload : (builtin.load portlessSpan).runWith {} =
      (.error (.archive (.property "nodes[1]" (.property "state" (.property "input"
        (.property "elements" (.property "ranges[1]" (.missingProperty "port"))))))), ⟨2⟩) := rfl
  obtain ⟨v, hfollow, hmissing, -⟩ := load_blames_culprit hload
  obtain ⟨inner, rfl, hnone⟩ := hmissing "port" rfl
  exact ⟨hload, inner, hfollow, hnone⟩

/-- The list of constants is named, but not the item in it that is no integer. -/
example : (builtin.load (.ofList [("format_version", .uint 1), ("nodes", .array [
    .object [("id", .uint 1), ("state", .object [("output", .object [("size", .uint 2),
      ("type", .string "int")]), ("values", .array [.int 1, .bool true])]),
      ("type", .string "ConstantNode<int>")]])])).runWith {} =
    (.error (.archive (.property "nodes[0]" (.property "state" (.property "values"
      (.wrongType .int .bool))))), ⟨1⟩) := rfl

end Registry

end FlowGraph
