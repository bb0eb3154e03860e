import FlowGraph.Model.Stored
import FlowGraph.Proofs.Drawing
import FlowGraph.Proofs.Restoring

/-! Loading a model from an archive: what the archive says of every node of the model, and that the
model is well formed whatever the archive is. -/
namespace FlowGraph

/-- The entry of an archive from which a node was read, before its selections were renamed. -/
structure Registry.LoadsEntry (r : Registry) (entry : Archive) (loaded : UInt64 × Node) : Prop where
  key : ∃ v, entry.get? "id" = some v ∧ v.Holds loaded.1.toNat
  type : ∃ name, entry.get? "type" = some (.string name) ∧
    r.entries.lookup name = some loaded.2.nodeType
  state : ∃ state : Archive, entry.get? "state" = some state.toValue ∧ loaded.2.ReadFrom state ∧
    Node.readBuffer state loaded.2.type = .ok loaded.2.buffer
  sized : loaded.2.Sized

namespace Registry

theorem create_ok {r : Registry} {name : String} {n : Node} {s s' : Supply} :
    (r.create name).runWith s = (.ok n, s') ↔
      ∃ type, r.entries.lookup name = some type ∧ n = .blank s.draw.1 type ∧ s' = s.draw.2 := by
  unfold create
  cases r.entries.lookup name with
  | none => simp [Drawing.runWith_throw_ok]
  | some type =>
    simp only [Drawing.runWith_bind_ok, Drawing.runWith_drawId_ok, Drawing.runWith_pure_ok,
      Option.some.injEq, exists_eq_left']
    constructor
    · intro h
      obtain ⟨id, s₁, ⟨rfl, rfl⟩, rfl, rfl⟩ := h
      exact ⟨rfl, rfl⟩
    · intro h
      obtain ⟨rfl, rfl⟩ := h
      exact ⟨_, _, ⟨rfl, rfl⟩, rfl, rfl⟩

theorem ofArchive_ok {α : Type} {result : Except Archive.Error α} {x : α} {s s' : Supply} :
    (ofArchive result).runWith s = (.ok x, s') ↔ result = .ok x ∧ s' = s := by
  rw [ofArchive, Drawing.runWith_ofExcept_ok, mapError_ok]

theorem loadEntry_ok {r : Registry} {index : Nat} {entry : Archive} {loaded : UInt64 × Node}
    {s s' : Supply} :
    (r.loadEntry index entry).runWith s = (.ok loaded, s') ↔
      r.LoadsEntry entry loaded ∧ loaded.2.id = s.draw.1 ∧ s' = s.draw.2 := by
  simp only [loadEntry, Drawing.runWith_bind_ok, ofArchive_ok, Archive.within_ok, Archive.read_ok,
    Archive.Value.asString_ok, Archive.Value.asUInt64_ok, create_ok, Archive.readObject_ok,
    Drawing.runWith_pure_ok]
  constructor
  · intro h
    obtain ⟨name, _, ⟨⟨_, hname, rfl⟩, rfl⟩, stored, _, ⟨hkey, rfl⟩, _, _, ⟨type, htype, rfl, rfl⟩,
      n, _, ⟨⟨state, hstate, hn⟩, rfl⟩, rfl, rfl⟩ := h
    obtain ⟨hid, hnodeType, hread, hbuffer, hsized⟩ := Node.restore_ok.mp (Node.restored_ok.mp hn)
    rw [Node.id_blank] at hid
    rw [Node.nodeType_blank] at hnodeType
    exact ⟨⟨hkey, ⟨name, hname, by rw [htype, hnodeType]⟩, ⟨state, hstate, hread, hbuffer⟩, hsized⟩,
      hid, rfl⟩
  · rcases loaded with ⟨stored, n⟩
    intro h
    obtain ⟨⟨hkey, ⟨name, hname, htype⟩, ⟨state, hstate, hread, hbuffer⟩, hsized⟩, hid, rfl⟩ := h
    have hn := Node.restore_ok.mpr ⟨hid.trans (Node.id_blank _ _).symm,
      (Node.nodeType_blank _ _).symm, hread, hbuffer, hsized⟩
    exact ⟨name, s, ⟨⟨_, hname, rfl⟩, rfl⟩, stored, s, ⟨hkey, rfl⟩, _, _,
      ⟨_, htype, rfl, rfl⟩, n, _, ⟨⟨state, hstate, Node.restored_ok.mpr hn⟩, rfl⟩, rfl, rfl⟩

/-- Entry after entry, each under the next id. No key may come twice. -/
theorem loadEntries_ok {r : Registry} {index : Nat} {known : List UInt64} {entries : List Archive}
    {loaded : List (UInt64 × Node)} {s s' : Supply} :
    (r.loadEntries index known entries).runWith s = (.ok loaded, s') ↔
      List.Forall₂ r.LoadsEntry entries loaded ∧
        loaded.map (fun p => p.2.id) = s.next entries.length ∧
          (loaded.map Prod.fst).Nodup ∧ (∀ p ∈ loaded, p.1 ∉ known) ∧
            s' = ⟨s.drawn + entries.length⟩ := by
  induction entries generalizing index known loaded s with
  | nil =>
    simp only [loadEntries, Drawing.runWith_pure_ok, List.forall₂_nil_left_iff]
    constructor
    · intro h
      obtain ⟨rfl, rfl⟩ := h
      exact ⟨rfl, rfl, List.nodup_nil, by simp, rfl⟩
    · intro h
      obtain ⟨rfl, -, -, -, rfl⟩ := h
      exact ⟨rfl, rfl⟩
  | cons entry rest ih =>
    simp only [loadEntries, Drawing.runWith_bind_ok, loadEntry_ok, List.forall₂_cons_left_iff,
      List.length_cons, Supply.next_succ]
    constructor
    · intro h
      obtain ⟨⟨stored, n⟩, _, ⟨hentry, hid, rfl⟩, hcheck⟩ := h
      split at hcheck
      case isTrue =>
        exact (Drawing.runWith_throw_ok.mp hcheck).elim
      case isFalse hnew =>
        obtain ⟨others, s₂, hothers, hpure⟩ := Drawing.runWith_bind_ok.mp hcheck
        obtain ⟨rfl, rfl⟩ := Drawing.runWith_pure_ok.mp hpure
        obtain ⟨hforall, hids, hnodup, hunknown, rfl⟩ := ih.mp hothers
        -- the rest knows the new key, and so has others
        refine ⟨⟨_, others, hentry, hforall, rfl⟩, ?_, ?_, ?_, ?_⟩
        · rw [List.map_cons, hid, hids]
        · refine List.nodup_cons.mpr ⟨fun hmem => ?_, hnodup⟩
          obtain ⟨p, hp, hkey⟩ := List.mem_map.mp hmem
          exact hunknown p hp (hkey ▸ List.mem_cons_self)
        · intro p hp
          rcases List.mem_cons.mp hp with rfl | hp
          · simpa using hnew
          · exact fun hknown => hunknown p hp (List.mem_cons_of_mem _ hknown)
        · simp only [Supply.draw_eq, Supply.mk.injEq]
          omega
    · intro h
      obtain ⟨⟨⟨stored, n⟩, others, hentry, hforall, rfl⟩, hids, hnodup, hunknown, rfl⟩ := h
      rw [List.map_cons, List.cons.injEq] at hids
      obtain ⟨hfresh, hnodup⟩ := List.nodup_cons.mp hnodup
      refine ⟨(stored, n), _, ⟨hentry, hids.1, rfl⟩, ?_⟩
      have hnew := hunknown _ List.mem_cons_self
      rw [if_neg (by simpa using hnew)]
      have hdrawn : (⟨s.drawn + (rest.length + 1)⟩ : Supply) =
          ⟨s.draw.2.drawn + rest.length⟩ := by
        simp only [Supply.draw_eq, Supply.mk.injEq]
        omega
      refine Drawing.runWith_bind_ok.mpr
        ⟨others, _, ih.mpr ⟨hforall, hids.2, hnodup, ?_, hdrawn⟩, ?_⟩
      · intro p hp hmem
        rcases List.mem_cons.mp hmem with hkey | hknown
        · exact hfresh (List.mem_map.mpr ⟨p, hp, hkey⟩)
        · exact hunknown p (List.mem_cons_of_mem _ hp) hknown
      · exact Drawing.runWith_pure_ok.mpr ⟨rfl, rfl⟩

/-- The id of the node that was read under a key. -/
def idOfKey (loaded : List (UInt64 × Node)) (id : NodeId) : Option NodeId :=
  (loaded.lookup id.value).map Node.id

theorem resolve_ok {loaded : List (UInt64 × Node)} {n n' : Node} (h : resolve loaded n = .ok n') :
    n.Matches (Selection.RenamedBy (idOfKey loaded)) n' ∧ n'.id = n.id ∧ (n.Fresh → n'.Fresh) :=
  Node.renameInlets_ok (mapError_ok.mp h)

theorem idOfKey_eq_some {loaded : List (UInt64 × Node)} {key id : NodeId}
    (h : idOfKey loaded key = some id) :
    ∃ k : Nat, (loaded.map Prod.fst)[k]? = some key.value ∧
      (loaded.map fun p => p.2.id)[k]? = some id := by
  obtain ⟨n, hn, rfl⟩ := Option.map_eq_some_iff.mp h
  obtain ⟨before, after, rfl, -⟩ := List.lookup_eq_some_iff.mp hn
  exact ⟨before.length, by simp, by simp⟩

theorem foldlM_addUnchecked_ok {nodes : List Node} {m₀ m : Model} (hd : m₀.ids.Nodup) :
    nodes.foldlM Model.addUnchecked m₀ = .ok m ↔ m = ⟨m₀.nodes ++ nodes⟩ ∧ m.ids.Nodup := by
  induction nodes generalizing m₀ with
  | nil =>
    simp only [List.foldlM_nil, pure_ok, List.append_nil]
    constructor
    · rintro rfl
      exact ⟨rfl, hd⟩
    · intro h
      obtain ⟨rfl, -⟩ := h
      rfl
  | cons n rest ih =>
    rw [List.foldlM_cons, bind_ok]
    constructor
    · intro h
      obtain ⟨m₁, hadd, hrest⟩ := h
      rw [Model.addUnchecked] at hadd
      split at hadd
      case isTrue => cases hadd
      case isFalse hnew =>
        obtain rfl := Except.ok.inj hadd
        have hfresh : n.id ∉ m₀.ids := by rwa [← Model.contains_iff]
        have hnodup : (m₀.insert n).ids.Nodup := Model.nodup_insert.mpr ⟨hd, hfresh⟩
        simpa [Model.insert] using (ih hnodup).mp hrest
    · intro h
      obtain ⟨rfl, hnodup⟩ := h
      -- the ids so far are some of all the ids in the end
      have hprefix : (m₀.insert n).ids.Nodup := by
        refine List.Nodup.sublist ?_ hnodup
        simp only [Model.ids, Model.insert]
        exact List.Sublist.map _ (by simp)
      have hfresh : n.id ∉ m₀.ids := (Model.nodup_insert.mp hprefix).2
      refine ⟨m₀.insert n, ?_, (ih hprefix).mpr ⟨by simp [Model.insert], hnodup⟩⟩
      rw [Model.addUnchecked, if_neg (by rwa [Model.contains_iff])]

theorem assemble_ok {nodes : List Node} {m : Model} :
    assemble nodes = .ok m ↔ m = ⟨nodes⟩ ∧ m.ids.Nodup ∧ m.validate = .ok () := by
  have hempty : Model.empty.ids.Nodup := List.nodup_nil
  simp only [assemble, bind_ok, pure_ok, foldlM_addUnchecked_ok hempty]
  constructor
  · intro h
    obtain ⟨m, ⟨rfl, hnodup⟩, ⟨⟩, hvalid, rfl⟩ := h
    exact ⟨rfl, hnodup, hvalid⟩
  · intro h
    obtain ⟨rfl, hnodup, hvalid⟩ := h
    exact ⟨_, ⟨rfl, hnodup⟩, (), hvalid, rfl⟩

/-- Loading succeeds with exactly the models that come about entry by entry, renamed and valid. -/
theorem load_ok {r : Registry} {a : Archive} {m : Model} {s s' : Supply} :
    (r.load a).runWith s = (.ok m, s') ↔
      (∃ v, a.get? "format_version" = some v ∧ v.Holds storedVersion.toNat) ∧
        ∃ (entries : List Archive) (loaded : List (UInt64 × Node)),
          a.get? "nodes" = some (.array (entries.map Archive.toValue)) ∧
            List.Forall₂ r.LoadsEntry entries loaded ∧
              loaded.map (fun p => p.2.id) = s.next entries.length ∧
                (loaded.map Prod.fst).Nodup ∧ s' = ⟨s.drawn + entries.length⟩ ∧
                  List.Forall₂ (fun p n => resolve loaded p.2 = .ok n) loaded m.nodes ∧
                    m.ids.Nodup ∧ m.validate = .ok () := by
  simp only [load, Drawing.runWith_bind_ok, ofArchive_ok, Archive.read_ok,
    Archive.Value.asUInt64_ok]
  constructor
  · intro h
    obtain ⟨version, _, ⟨hversion, rfl⟩, hcheck⟩ := h
    split at hcheck
    case isTrue => exact (Drawing.runWith_throw_ok.mp hcheck).elim
    case isFalse hsupported =>
      simp only [Drawing.runWith_bind_ok, ofArchive_ok, Archive.objects_ok, loadEntries_ok,
        Drawing.runWith_ofExcept_ok, mapM_ok, assemble_ok] at hcheck
      obtain ⟨entries, _, ⟨hentries, rfl⟩, loaded, _, ⟨hforall, hids, hkeys, -, rfl⟩, nodes, _,
        ⟨hnodes, rfl⟩, ⟨rfl, hnodup, hvalid⟩, rfl⟩ := hcheck
      rw [Decidable.not_not.mp hsupported] at hversion
      exact ⟨hversion, entries, loaded, hentries, hforall, hids, hkeys, rfl, hnodes, hnodup, hvalid⟩
  · intro h
    obtain ⟨hversion, entries, loaded, hentries, hforall, hids, hkeys, rfl, hnodes, hnodup,
      hvalid⟩ := h
    refine ⟨storedVersion, s, ⟨hversion, rfl⟩, ?_⟩
    rw [if_neg (by simp)]
    simp only [Drawing.runWith_bind_ok, ofArchive_ok, Archive.objects_ok, loadEntries_ok,
      Drawing.runWith_ofExcept_ok, mapM_ok, assemble_ok]
    exact ⟨entries, s, ⟨hentries, rfl⟩, loaded, _, ⟨hforall, hids, hkeys, by simp, rfl⟩, m.nodes, _,
      ⟨hnodes, rfl⟩, ⟨rfl, hnodup, hvalid⟩, rfl⟩

end Registry

theorem Node.readBuffer_ok {a : Archive} {t : ElementType} {values : List t.Value} :
    Node.readBuffer a t = .ok values →
      values.length ≤ storedSizeLimit ∧ values = List.replicate values.length t.default := by
  intro h
  obtain ⟨o, -, ho⟩ := Archive.readObject_ok.mp h
  exact (Outlet.valuesOfArchive_ok.mp ho).2.2

/-- A loaded node has only default values, and not too many of them. -/
theorem Registry.LoadsEntry.fresh {r : Registry} {entry : Archive} {loaded : UInt64 × Node}
    (h : r.LoadsEntry entry loaded) : loaded.2.size ≤ storedSizeLimit ∧ loaded.2.Fresh := by
  obtain ⟨state, -, hread, hbuffer⟩ := h.state
  obtain ⟨hlimit, hdefault⟩ := Node.readBuffer_ok hbuffer
  refine ⟨hlimit, hdefault, ?_⟩
  rcases loaded with ⟨key, id, t, body, buffer⟩
  cases body with
  | input values => exact Eq.trans hread hdefault
  | constant values => trivial
  | output source => trivial
  | operation numeric op left right => trivial

/-- Sizes that agree still agree when the nodes that are read have other names. -/
theorem Node.Sized.renamed {rename : NodeId → Option NodeId} {n n' : Node} (h : n.Sized)
    (hm : n.Matches (Selection.RenamedBy rename) n') : n'.Sized := by
  rcases n with ⟨id, t, body, buffer⟩
  cases hm with
  | intro id' body' buffer' hbody hsize =>
    cases body <;> cases body' <;> simp only [Body.Matches] at hbody
    · exact hbody.trans (h.trans hsize.symm)
    · rw [hbody]
      exact Eq.trans h hsize.symm
    · exact hbody.size.trans (h.trans hsize.symm)
    · exact ⟨hbody.2.1.size.trans (h.1.trans hsize.symm),
        hbody.2.2.size.trans (h.2.trans hsize.symm)⟩

/-- Whatever the archive, a model that is loaded from it is well formed. -/
theorem Registry.load_wellFormed {r : Registry} {a : Archive} {m : Model} {s s' : Supply}
    (h : (r.load a).runWith s = (.ok m, s')) :
    m.WellFormed ∧ (∀ n ∈ m.nodes, n.size ≤ storedSizeLimit ∧ n.Fresh) ∧
      m.ids = s.next m.size ∧ s' = ⟨s.drawn + m.size⟩ := by
  obtain ⟨-, entries, loaded, -, hforall, hids, -, rfl, hnodes, hnodup, hvalid⟩ := load_ok.mp h
  obtain ⟨hresolves, hordered⟩ := Model.validate_ok.mp hvalid
  -- every node is one of an entry, after its selections were renamed
  have hnode : List.Forall₂ (fun _ n => n.Sized ∧ n.size ≤ storedSizeLimit ∧ n.Fresh) entries
      m.nodes := by
    refine forall₂_comp (fun entry p n hentry hn => ?_) hforall hnodes
    obtain ⟨hm, -, hfresh⟩ := resolve_ok hn
    exact ⟨hentry.sized.renamed hm, hm.size ▸ hentry.fresh.1, hfresh hentry.fresh.2⟩
  have hall : ∀ n ∈ m.nodes, n.Sized ∧ n.size ≤ storedSizeLimit ∧ n.Fresh := by
    intro n hn
    obtain ⟨entry, -, hn⟩ := forall₂_mem_right hnode hn
    exact hn
  have hsize : m.size = entries.length := hnode.length_eq.symm
  refine ⟨⟨hnodup, fun n hn => (hall n hn).1, hresolves, hordered⟩, fun n hn => (hall n hn).2,
    ?_, ?_⟩
  · rw [hsize, ← hids, Model.ids, ← List.forall₂_eq_eq_eq, List.forall₂_map_left_iff,
      List.forall₂_map_right_iff]
    exact List.Forall₂.flip (hnodes.imp fun p n hn => (resolve_ok hn).2.1)
  · rw [hsize]

end FlowGraph
