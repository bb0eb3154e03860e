import FlowGraph.Proofs.Cycles
import FlowGraph.Proofs.Storing
import FlowGraph.Proofs.Transcript

/-! Archives under other keys. What is loaded depends on which ids of an archive are the same, and
on nothing else about them; an id that is the key of two entries is refused. -/
namespace FlowGraph

namespace Archive

/-- The properties of these names with their values changed, and the others as they are. -/
def mapAt (names : List String) (g : Value → Value) (a : Archive) : Archive :=
  ⟨a.properties.map fun p => (p.1, if p.1 ∈ names then g p.2 else p.2)⟩

/-- What is an object, changed as one. -/
def Value.mapObject (g : Archive → Archive) : Value → Value
  | .object properties => (g ⟨properties⟩).toValue
  | v => v

/-- What is an array of objects, with each of them changed. -/
def Value.mapObjects (g : Archive → Archive) : Value → Value
  | .array items => .array (items.map (mapObject g))
  | v => v

/-- The image of a stored id, which may be an integer of either kind. -/
def Value.rekey (f : UInt64 → UInt64) (v : Value) : Value :=
  match v.asUInt64 with
  | .ok key => .uint (f key)
  | .error _ => v

variable (f : UInt64 → UInt64)

def rekeySpan (a : Archive) : Archive := a.mapAt ["node"] (Value.rekey f)

def rekeySelection (a : Archive) : Archive := a.mapAt ["ranges"] (Value.mapObjects (rekeySpan f))

def rekeyInlet (a : Archive) : Archive := a.mapAt ["elements"] (Value.mapObject (rekeySelection f))

def rekeyState (a : Archive) : Archive :=
  a.mapAt ["input", "input1", "input2"] (Value.mapObject (rekeyInlet f))

def rekeyEntry (a : Archive) : Archive :=
  (a.mapAt ["id"] (Value.rekey f)).mapAt ["state"] (Value.mapObject (rekeyState f))

/-- The archive of a model with the id of every entry, and the node of every span, replaced by its
image under `f`. -/
def rekey (a : Archive) : Archive := a.mapAt ["nodes"] (Value.mapObjects (rekeyEntry f))

/-- The ids of the entries. In an archive that is accepted, spans name no others. -/
def keys (a : Archive) : List UInt64 :=
  ((a.objects "nodes").toOption.getD []).filterMap fun entry =>
    (entry.read Value.asUInt64 "id").toOption

variable {f} {a : Archive} {names : List String} {name : String} {g : Value → Value}

theorem get?_mapAt (a : Archive) (names : List String) (g : Value → Value) (name : String) :
    (a.mapAt names g).get? name = (a.get? name).map fun v => if name ∈ names then g v else v := by
  rcases a with ⟨properties⟩
  simp only [get?, mapAt]
  induction properties with
  | nil => rfl
  | cons property rest ih =>
    rcases property with ⟨other, v⟩
    rw [List.map_cons]
    by_cases hname : name = other
    · subst hname
      rw [List.lookup_cons_self, List.lookup_cons_self, Option.map_some]
    · rw [List.lookup_cons, List.lookup_cons, beq_false_of_ne hname]
      exact ih

theorem get?_mapAt_of_mem (h : name ∈ names) :
    (a.mapAt names g).get? name = (a.get? name).map g := by
  simp only [get?_mapAt, if_pos h]

theorem get?_mapAt_of_not_mem (h : name ∉ names) : (a.mapAt names g).get? name = a.get? name := by
  simp only [get?_mapAt, if_neg h, Option.map_id']

theorem Value.mapObjects_array (g : Archive → Archive) (items : List Archive) :
    mapObjects g (.array (items.map toValue)) = .array ((items.map g).map toValue) := by
  rw [mapObjects, List.map_map, List.map_map]
  rfl

theorem Value.Holds.rekey {v : Value} {key : UInt64} (h : v.Holds key.toNat) :
    (v.rekey f).Holds (f key).toNat := by
  rw [Value.rekey, asUInt64_ok.mpr h]
  rfl

/-- A stored id is found replaced by its image. -/
theorem get?_rekey {key : UInt64} (hname : name ∈ names)
    (h : ∃ v, a.get? name = some v ∧ v.Holds key.toNat) :
    ∃ v, (a.mapAt names (Value.rekey f)).get? name = some v ∧ v.Holds (f key).toNat := by
  obtain ⟨v, hv, hholds⟩ := h
  exact ⟨v.rekey f, by rw [get?_mapAt_of_mem hname, hv]; rfl, hholds.rekey⟩

end Archive

def NodeId.rekey (f : UInt64 → UInt64) (id : NodeId) : NodeId := ⟨f id.value⟩

/-- The node as it is read under the replaced keys: it reads from what those stand for. -/
def Node.rekey (f : UInt64 → UInt64) (n : Node) : Node :=
  n.rewire fun i => i.selection.relabel (NodeId.rekey f)

variable {f : UInt64 → UInt64}

theorem Span.StoredAs.rekey {s : Span} {a : Archive} (h : s.StoredAs a) :
    (s.relabel (NodeId.rekey f)).StoredAs (a.rekeySpan f) where
  node := Archive.get?_rekey (by decide) h.node
  port := by
    rw [Archive.rekeySpan, Archive.get?_mapAt_of_not_mem (by decide)]
    exact h.port
  start := by
    rw [Archive.rekeySpan, Archive.get?_mapAt_of_not_mem (by decide)]
    exact h.start
  count := by
    rw [Archive.rekeySpan, Archive.get?_mapAt_of_not_mem (by decide)]
    exact h.count

theorem Selection.ofArchive_rekey {e : Selection} {a : Archive} (h : ofArchive a = .ok e) :
    ofArchive (a.rekeySelection f) = .ok (e.relabel (NodeId.rekey f)) := by
  obtain ⟨items, hitems, hspans, hsum⟩ := ofArchive_ok.mp h
  refine ofArchive_ok.mpr ⟨items.map (Archive.rekeySpan f), ?_, ?_, ?_⟩
  · rw [Archive.rekeySelection, Archive.get?_mapAt_of_mem (by decide), hitems, Option.map_some,
      Archive.Value.mapObjects_array]
  · refine List.forall₂_map_left_iff.mpr (List.forall₂_map_right_iff.mpr (hspans.imp ?_))
    intro item s hs
    obtain ⟨hstored, hfits⟩ := Span.ofArchive_ok.mp hs
    exact Span.ofArchive_ok.mpr ⟨hstored.rekey, hfits⟩
  · rw [relabel, List.map_map]
    exact hsum

theorem Inlet.selectionOfArchive_rekey {t : ElementType} {e : Selection} {a : Archive}
    (h : selectionOfArchive t a = .ok e) :
    selectionOfArchive t (a.rekeyInlet f) = .ok (e.relabel (NodeId.rekey f)) := by
  obtain ⟨htype, inner, hinner, he⟩ := selectionOfArchive_ok.mp h
  refine selectionOfArchive_ok.mpr ⟨?_, inner.rekeySelection f, ?_, Selection.ofArchive_rekey he⟩
  · rw [Archive.rekeyInlet, Archive.get?_mapAt_of_not_mem (by decide), htype]
  · rw [Archive.rekeyInlet, Archive.get?_mapAt_of_mem (by decide), hinner]
    rfl

namespace Node

variable {n n' : Node} {a : Archive}

theorem readInlet_rekey {t : ElementType} {name : String} {e : Selection}
    (hname : name ∈ ["input", "input1", "input2"]) (h : readInlet a t name = .ok e) :
    readInlet (a.rekeyState f) t name = .ok (e.relabel (NodeId.rekey f)) := by
  obtain ⟨inner, hinner, he⟩ := Archive.readObject_ok.mp h
  refine Archive.readObject_ok.mpr ⟨inner.rekeyInlet f, ?_, Inlet.selectionOfArchive_rekey he⟩
  rw [Archive.rekeyState, Archive.get?_mapAt_of_mem hname, hinner]
  rfl

/-- Nothing but the inlets of a state has ids. -/
theorem read_rekeyState {α : Type} {as : Archive.Value → Except Archive.Error α} {name : String}
    (hname : name ∉ ["input", "input1", "input2"]) :
    (a.rekeyState f).read as name = a.read as name := by
  rw [Archive.read, Archive.value, Archive.rekeyState, Archive.get?_mapAt_of_not_mem hname]
  rfl

theorem readBuffer_rekey (t : ElementType) : readBuffer (a.rekeyState f) t = readBuffer a t := by
  rw [readBuffer, Archive.readObject, Archive.object, Archive.value, Archive.rekeyState,
    Archive.get?_mapAt_of_not_mem (by decide)]
  rfl

theorem ReadFrom.rekey (h : n.ReadFrom a) : (n.rekey f).ReadFrom (a.rekeyState f) := by
  rcases n with ⟨id, t, body, buffer⟩
  cases body with
  | input values => exact h
  | constant values => exact (read_rekeyState (by decide)).trans h
  | output source => exact readInlet_rekey (by decide) h
  | operation numeric op left right =>
    obtain ⟨hop, hleft, hright⟩ := h
    refine ⟨?_, readInlet_rekey (by decide) hleft, readInlet_rekey (by decide) hright⟩
    rw [readOperation, read_rekeyState (by decide)]
    exact hop

theorem Sized.rekey (h : n.Sized) : (n.rekey f).Sized := by
  rcases n with ⟨id, t, body, buffer⟩
  cases body with
  | input values => exact h
  | constant values => exact h
  | output source => exact (source.size_relabel _).trans h
  | operation numeric op left right =>
    exact ⟨(left.size_relabel _).trans h.1, (right.size_relabel _).trans h.2⟩

theorem nodeType_rekey (n : Node) : (n.rekey f).nodeType = n.nodeType := by
  rcases n with ⟨id, t, body, buffer⟩
  cases body <;> rfl

theorem id_rekey (n : Node) : (n.rekey f).id = n.id := by
  rcases n with ⟨id, t, body, buffer⟩
  cases body <;> rfl

theorem readBuffer_of_rekey (h : readBuffer a n.type = .ok n.buffer) :
    readBuffer (a.rekeyState f) (n.rekey f).type = .ok (n.rekey f).buffer := by
  rcases n with ⟨id, t, body, buffer⟩
  cases body <;> exact (readBuffer_rekey t).trans h

end Node

theorem Selection.renamed_rekey {rename rename' : NodeId → Option NodeId}
    (hrename : ∀ key id, rename key = some id → rename' (key.rekey f) = some id)
    {e e' : Selection} {name : String} (h : e.renamed rename name = .ok e') :
    (e.relabel (NodeId.rekey f)).renamed rename' name = .ok e' := by
  refine renamed_ok.mpr (List.forall₂_map_left_iff.mpr ((renamed_ok.mp h).imp ?_))
  intro s s' hs
  obtain ⟨id, hid, rfl⟩ := hs
  exact ⟨id, hrename _ id hid, rfl⟩

theorem Node.renameInlets_rekey {rename rename' : NodeId → Option NodeId}
    (hrename : ∀ key id, rename key = some id → rename' (key.rekey f) = some id)
    {n n' : Node} (h : n.renameInlets rename = .ok n') :
    (n.rekey f).renameInlets rename' = .ok n' := by
  rcases n with ⟨id, t, body, buffer⟩
  cases body with
  | input values => exact h
  | constant values => exact h
  | output source =>
    simp only [renameInlets, bind_ok, pure_ok] at h
    obtain ⟨source', hsource, rfl⟩ := h
    simp only [rekey, rewire, renameInlets, bind_ok, pure_ok]
    exact ⟨source', Selection.renamed_rekey hrename hsource, rfl⟩
  | operation numeric op left right =>
    simp only [renameInlets, bind_ok, pure_ok] at h
    obtain ⟨left', hleft, right', hright, rfl⟩ := h
    simp only [rekey, rewire, renameInlets, bind_ok, pure_ok]
    exact ⟨left', Selection.renamed_rekey hrename hleft, right',
      Selection.renamed_rekey hrename hright, rfl⟩

namespace Registry

variable {r : Registry} {a : Archive} {s : Supply}

/-- An archive of which every entry can be read on its own. -/
structure Readable (r : Registry) (a : Archive) : Prop where
  version : ∃ v, a.get? "format_version" = some v ∧ v.Holds storedVersion.toNat
  entries : ∃ entries : List Archive, a.get? "nodes" = some (.array (entries.map Archive.toValue)) ∧
    ∀ entry ∈ entries, ∃ p, r.LoadsEntry entry p

/-- What is read of an entry under replaced keys. -/
def rekeyLoaded (f : UInt64 → UInt64) (p : UInt64 × Node) : UInt64 × Node := (f p.1, p.2.rekey f)

theorem LoadsEntry.rekey {entry : Archive} {p : UInt64 × Node} (h : r.LoadsEntry entry p) :
    r.LoadsEntry (entry.rekeyEntry f) (rekeyLoaded f p) where
  key := by
    rw [Archive.rekeyEntry, Archive.get?_mapAt_of_not_mem (by decide)]
    exact Archive.get?_rekey (by decide) h.key
  type := by
    rw [Archive.rekeyEntry, Archive.get?_mapAt_of_not_mem (by decide),
      Archive.get?_mapAt_of_not_mem (by decide), rekeyLoaded, Node.nodeType_rekey]
    exact h.type
  state := by
    obtain ⟨state, hstate, hread, hbuffer⟩ := h.state
    refine ⟨state.rekeyState f, ?_, hread.rekey, Node.readBuffer_of_rekey hbuffer⟩
    rw [Archive.rekeyEntry, Archive.get?_mapAt_of_mem (by decide),
      Archive.get?_mapAt_of_not_mem (by decide), hstate]
    rfl
  sized := h.sized.rekey

/-- The keys of an archive are those under which its entries are read. -/
theorem keys_eq {entries : List Archive} {loaded : List (UInt64 × Node)}
    (hentries : a.get? "nodes" = some (.array (entries.map Archive.toValue)))
    (hforall : List.Forall₂ r.LoadsEntry entries loaded) : a.keys = loaded.map Prod.fst := by
  rw [Archive.keys, Archive.objects_ok.mpr hentries]
  show entries.filterMap _ = _
  clear hentries
  induction hforall with
  | nil => rfl
  | cons hentry _ ih =>
    obtain ⟨v, hv, hholds⟩ := hentry.key
    have hkey := Archive.read_ok.mpr ⟨v, hv, Archive.Value.asUInt64_ok.mpr hholds⟩
    rw [List.filterMap_cons_some (by rw [hkey]; rfl), List.map_cons, ih]

theorem get?_rekey_nodes {entries : List Archive}
    (h : a.get? "nodes" = some (.array (entries.map Archive.toValue))) :
    (a.rekey f).get? "nodes" =
      some (.array ((entries.map (Archive.rekeyEntry f)).map Archive.toValue)) := by
  rw [Archive.rekey, Archive.get?_mapAt_of_mem (by decide), h, Option.map_some,
    Archive.Value.mapObjects_array]

theorem get?_rekey_version : (a.rekey f).get? "format_version" = a.get? "format_version" :=
  Archive.get?_mapAt_of_not_mem (by decide)

/-- Of an archive from which a model was loaded, the nodes of the model were read. -/
theorem Reads.of_load {m : Model} {s' : Supply} (h : (r.load a).runWith s = (.ok m, s')) :
    r.Reads a s m.nodes := by
  obtain ⟨hversion, entries, loaded, hentries, hforall, hids, hkeys, -, hnodes, -, -⟩ :=
    load_ok.mp h
  exact ⟨hversion, entries, loaded, hentries, hforall, hkeys, hids, hnodes⟩

theorem Reads.readable {nodes : List Node} (h : r.Reads a s nodes) : r.Readable a := by
  obtain ⟨entries, loaded, hentries, hforall, -⟩ := h.entries
  exact ⟨h.version, entries, hentries, exists_forall₂.mp ⟨loaded, hforall⟩⟩

/-- Whatever the keys are replaced by, every entry can still be read. -/
theorem Readable.rekey (h : r.Readable a) (f : UInt64 → UInt64) : r.Readable (a.rekey f) := by
  obtain ⟨entries, hentries, hreadable⟩ := h.entries
  refine ⟨by rw [get?_rekey_version]; exact h.version, _, get?_rekey_nodes hentries, ?_⟩
  rw [List.forall_mem_map]
  intro entry hentry
  obtain ⟨p, hp⟩ := hreadable entry hentry
  exact ⟨_, hp.rekey⟩

theorem Readable.keys_rekey (h : r.Readable a) (f : UInt64 → UInt64) :
    (a.rekey f).keys = a.keys.map f := by
  obtain ⟨entries, hentries, hreadable⟩ := h.entries
  obtain ⟨loaded, hforall⟩ := exists_forall₂.mpr hreadable
  have hrekeyed : List.Forall₂ r.LoadsEntry (entries.map (Archive.rekeyEntry f))
      (loaded.map (rekeyLoaded f)) :=
    List.forall₂_map_left_iff.mpr
      (List.forall₂_map_right_iff.mpr (hforall.imp fun _ _ hentry => hentry.rekey))
  rw [keys_eq (get?_rekey_nodes hentries) hrekeyed, keys_eq hentries hforall, List.map_map,
    List.map_map]
  rfl

/-- A key stands for the same id as its image does. -/
theorem idOfKey_rekey {loaded : List (UInt64 × Node)}
    (hkeys : ((loaded.map (rekeyLoaded f)).map Prod.fst).Nodup) {key id : NodeId}
    (h : idOfKey loaded key = some id) :
    idOfKey (loaded.map (rekeyLoaded f)) (key.rekey f) = some id := by
  obtain ⟨n, hn, rfl⟩ := Option.map_eq_some_iff.mp h
  obtain ⟨before, after, hsplit, -⟩ := List.lookup_eq_some_iff.mp hn
  have hmem : (key.value, n) ∈ loaded := by simp [hsplit]
  have hfound := lookup_of_mem hkeys (List.mem_map_of_mem hmem)
  rw [idOfKey]
  show Option.map Node.id (List.lookup (f key.value) _) = _
  rw [hfound, Option.map_some, Node.id_rekey]

/-- Under replaced keys the same nodes are read. -/
theorem Reads.rekey {nodes : List Node} (h : r.Reads a s nodes)
    (hinj : Set.InjOn f {key | key ∈ a.keys}) : r.Reads (a.rekey f) s nodes := by
  obtain ⟨entries, loaded, hentries, hforall, hkeys, hids, hnodes⟩ := h.entries
  have hrekeyed : List.Forall₂ r.LoadsEntry (entries.map (Archive.rekeyEntry f))
      (loaded.map (rekeyLoaded f)) :=
    List.forall₂_map_left_iff.mpr
      (List.forall₂_map_right_iff.mpr (hforall.imp fun _ _ hentry => hentry.rekey))
  have hkeys' : ((loaded.map (rekeyLoaded f)).map Prod.fst).Nodup := by
    rw [← keys_eq hentries hforall] at hkeys
    rw [← keys_eq (get?_rekey_nodes hentries) hrekeyed, h.readable.keys_rekey]
    exact List.Nodup.map_on (fun _ hk _ hk' heq => hinj hk hk' heq) hkeys
  refine ⟨by rw [get?_rekey_version]; exact h.version, _, _, get?_rekey_nodes hentries, hrekeyed,
    hkeys', ?_, ?_⟩
  · rw [List.map_map, List.length_map, ← hids]
    exact List.map_congr_left fun p _ => p.2.id_rekey
  · refine List.forall₂_map_left_iff.mpr (hnodes.imp fun p n hn => mapError_ok.mpr ?_)
    exact Node.renameInlets_rekey (fun key id => idOfKey_rekey hkeys') (mapError_ok.mp hn)

/-- An entry is read in the same way whatever id its node gets. -/
theorem LoadsEntry.withId {entry : Archive} {p : UInt64 × Node} (h : r.LoadsEntry entry p)
    (id : NodeId) : r.LoadsEntry entry (p.1, { p.2 with id := id }) := by
  rcases p with ⟨key, old, t, body, buffer⟩
  cases body <;> exact ⟨h.key, h.type, h.state, h.sized⟩

theorem runWith_loadEntry {index : Nat} {entry : Archive} {p : UInt64 × Node}
    (h : r.LoadsEntry entry p) (s : Supply) :
    (r.loadEntry index entry).runWith s = (.ok (p.1, { p.2 with id := s.draw.1 }), s.draw.2) :=
  loadEntry_ok.mpr ⟨h.withId s.draw.1, rfl, rfl⟩

/-- The first key that is known already ends the reading, after its entry has been read. By
induction on the entries before it. -/
theorem loadEntries_duplicate {entries : List Archive} {loaded before after : List (UInt64 × Node)}
    {p : UInt64 × Node} (hforall : List.Forall₂ r.LoadsEntry entries loaded)
    (hsplit : loaded = before ++ p :: after) (index : Nat) {known : List UInt64}
    (hnodup : (before.map Prod.fst).Nodup) (hnew : ∀ q ∈ before, q.1 ∉ known)
    (hkey : p.1 ∈ known ∨ p.1 ∈ before.map Prod.fst) (s : Supply) :
    (r.loadEntries index known entries).runWith s =
      (.error (.duplicateNode ⟨p.1⟩), ⟨s.drawn + (before.length + 1)⟩) := by
  induction before generalizing index known entries loaded s with
  | nil =>
    subst hsplit
    cases hforall with
    | cons hentry _ =>
      have hknown : known.contains p.1 = true := by simpa using hkey
      rw [loadEntries, Drawing.runWith_bind_of_ok (runWith_loadEntry hentry s)]
      simp only [hknown, if_true]
      rfl
  | cons q before ih =>
    subst hsplit
    cases hforall with
    | cons hentry hforall =>
      obtain ⟨hfresh, hnodup⟩ := List.nodup_cons.mp hnodup
      have hunknown : known.contains q.1 = false := by simpa using hnew q List.mem_cons_self
      have hrest : ∀ q' ∈ before, q'.1 ∉ q.1 :: known := by
        intro q' hq' hmem
        rcases List.mem_cons.mp hmem with heq | hmem
        · exact hfresh (heq ▸ List.mem_map_of_mem hq')
        · exact hnew q' (List.mem_cons_of_mem _ hq') hmem
      have hkey' : p.1 ∈ q.1 :: known ∨ p.1 ∈ before.map Prod.fst := by
        simp only [List.map_cons, List.mem_cons] at hkey ⊢
        tauto
      have hrun := ih hforall rfl (index + 1) hnodup hrest hkey' s.draw.2
      rw [loadEntries, Drawing.runWith_bind_of_ok (runWith_loadEntry hentry s)]
      simp only [hunknown, Bool.false_eq_true, if_false]
      rw [Drawing.runWith_bind, hrun]
      simp only [Supply.draw_eq, List.length_cons, Prod.mk.injEq, Supply.mk.injEq, true_and]
      omega

/-- In a list with repetitions there is a first element that was there before. -/
theorem exists_first_repeated {α : Type} {xs : List α} (h : ¬ xs.Nodup) :
    ∃ before x after, xs = before ++ x :: after ∧ before.Nodup ∧ x ∈ before := by
  induction xs using List.reverseRecOn with
  | nil => exact absurd List.nodup_nil h
  | append_singleton xs x ih =>
    by_cases hnodup : xs.Nodup
    · refine ⟨xs, x, [], rfl, hnodup, ?_⟩
      by_contra hx
      exact h (by simpa [List.nodup_append] using ⟨hnodup, fun a ha => fun heq => hx (heq ▸ ha)⟩)
    · obtain ⟨before, y, after, rfl, hbefore, hy⟩ := ih hnodup
      exact ⟨before, y, after ++ [x], by simp, hbefore, hy⟩

theorem Readable.load_duplicate (h : r.Readable a) (hkeys : ¬ a.keys.Nodup) (s : Supply) :
    ∃ before key after, a.keys = before ++ key :: after ∧ before.Nodup ∧ key ∈ before ∧
      (r.load a).runWith s =
        (.error (.duplicateNode ⟨key⟩), ⟨s.drawn + (before.length + 1)⟩) := by
  obtain ⟨entries, hentries, hreadable⟩ := h.entries
  obtain ⟨loaded, hforall⟩ := exists_forall₂.mpr hreadable
  obtain ⟨v, hv, hholds⟩ := h.version
  rw [keys_eq hentries hforall] at hkeys ⊢
  obtain ⟨before, key, after, hsplit, hbefore, hkey⟩ := exists_first_repeated hkeys
  refine ⟨before, key, after, hsplit, hbefore, hkey, ?_⟩
  -- the keys are split where the entries are
  obtain ⟨first, rest, rfl, rfl, hrest⟩ := List.map_eq_append_iff.mp hsplit
  obtain ⟨p, others, rfl, rfl, rfl⟩ := List.map_eq_cons_iff.mp hrest
  have hversion : (ofArchive (a.read Archive.Value.asUInt64 "format_version")).runWith s =
      (.ok storedVersion, s) :=
    ofArchive_ok.mpr ⟨Archive.read_ok.mpr ⟨v, hv, Archive.Value.asUInt64_ok.mpr hholds⟩, rfl⟩
  have hobjects : (ofArchive (a.objects "nodes")).runWith s = (.ok entries, s) :=
    ofArchive_ok.mpr ⟨Archive.objects_ok.mpr hentries, rfl⟩
  have hrun := loadEntries_duplicate hforall rfl 0 hbefore (fun _ _ => List.not_mem_nil)
    (.inr hkey) s
  rw [Registry.load, Drawing.runWith_bind_of_ok hversion, if_neg (by simp),
    Drawing.runWith_bind_of_ok hobjects, Drawing.runWith_bind, hrun, List.length_map]

/-- Stored ids are only keys. Replacing them by others changes nothing about the model that is
loaded, as long as different ids of the archive stay different, and whatever the new ones are; but
an id that two entries have is refused, with the first entry that repeats one. -/
theorem load_rekey (r : Registry) (a : Archive) (s : Supply) :
    (∀ (f : UInt64 → UInt64) (m : Model) (s' : Supply), Set.InjOn f {key | key ∈ a.keys} →
      (r.load a).runWith s = (.ok m, s') →
        (a.rekey f).keys = a.keys.map f ∧ (r.load (a.rekey f)).runWith s = (.ok m, s')) ∧
    (r.Readable a → ¬ a.keys.Nodup →
      ∃ before key after, a.keys = before ++ key :: after ∧ before.Nodup ∧ key ∈ before ∧
        (r.load a).runWith s =
          (.error (.duplicateNode ⟨key⟩), ⟨s.drawn + (before.length + 1)⟩)) := by
  refine ⟨fun f m s' hinj hload => ?_, fun h hkeys => h.load_duplicate hkeys s⟩
  have hreads := Reads.of_load hload
  refine ⟨hreads.readable.keys_rekey f, ?_⟩
  -- the same nodes are read, so that the same is put together
  rw [(hreads.rekey hinj).load, ← hreads.load, hload]

/-- The keys two and one are exchanged, so that each becomes that of the other entry and the id of
its own node; where both become the same, the second entry is refused. -/
theorem load_rekey_crossedKeys :
    (builtin.load (crossedKeys.rekey fun key => if key = 2 then 1 else 2)).runWith {} =
        (.ok crossedModel, ⟨2⟩) ∧
      (builtin.load (crossedKeys.rekey fun _ => 7)).runWith {} =
        (.error (.duplicateNode ⟨7⟩), ⟨2⟩) := by
  have hload : (builtin.load crossedKeys).runWith {} = (.ok crossedModel, ⟨2⟩) := rfl
  have hkeys : crossedKeys.keys = [2, 1] := rfl
  have hinj : Set.InjOn (fun key : UInt64 => if key = 2 then (1 : UInt64) else 2)
      {key | key ∈ crossedKeys.keys} := by
    rw [hkeys]
    intro x hx y hy
    simp only [Set.mem_ofPred_eq, List.mem_cons, List.not_mem_nil, or_false] at hx hy
    rcases hx with rfl | rfl <;> rcases hy with rfl | rfl <;> decide
  refine ⟨((load_rekey builtin crossedKeys {}).1 _ _ _ hinj hload).2, ?_⟩
  have hreadable := (Reads.of_load hload).readable
  have hsame : (crossedKeys.rekey fun _ => 7).keys = [7, 7] :=
    (hreadable.keys_rekey _).trans (by rw [hkeys]; rfl)
  obtain ⟨before, key, after, hsplit, hnodup, hmem, hrun⟩ :=
    (load_rekey builtin (crossedKeys.rekey fun _ => 7) {}).2 (hreadable.rekey _)
      (by rw [hsame]; decide)
  rw [hsame] at hsplit
  -- the one entry before the repeated key has it too
  have hlength := congrArg List.length hsplit
  simp only [List.length_cons, List.length_nil, List.length_append] at hlength
  have hone : before.length = 1 := by
    have hpos := List.length_pos_of_mem hmem
    omega
  have hkey : key ∈ ([7, 7] : List UInt64) := hsplit ▸ List.mem_append_right _ List.mem_cons_self
  obtain rfl : key = 7 := by simpa using hkey
  rw [hrun, hone]

/-- Exchanged are the ids of the entries and what the one span names, and nothing else. -/
example : crossedKeys.rekey (fun key => if key = 2 then 1 else 2) =
    .ofList [("format_version", .uint 1), ("nodes", .array [
      .object [("id", .uint 1), ("state", .object [("output", .object [("size", .uint 3),
        ("type", .string "int")])]), ("type", .string "InputNode<int>")],
      .object [("id", .uint 2), ("state", .object [
        ("input", .object [
          ("elements", .object [("ranges", .array [.object [("count", .uint 1), ("node", .uint 1),
            ("port", .string "output"), ("start", .int 2)]])]),
          ("type", .string "int")]),
        ("output", .object [("size", .uint 1), ("type", .string "int")])]),
        ("type", .string "OutputNode<int>")]])] := rfl

end Registry

end FlowGraph
