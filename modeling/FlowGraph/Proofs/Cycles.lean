import FlowGraph.Proofs.Greedy
import FlowGraph.Proofs.Loading

/-! Models without an order. The nodes that are left over are those that are on a cycle or depend on
one, no more and no less; a model that is loaded with a cycle is refused for them. -/
namespace FlowGraph

namespace Model

/-- The node is on a cycle, or reads from one through others. -/
def ReachesCycle (m : Model) (id : NodeId) : Prop :=
  ∃ c, Relation.ReflTransGen m.DependsOn id c ∧ Relation.TransGen m.DependsOn c c

/-- What is said of a model with cycles: exactly the nodes that reach one, each once, in the order
in which they were added. -/
structure CycleReport (m : Model) (stuck : List NodeId) : Prop where
  sublist : stuck.Sublist m.ids
  nodup : stuck.Nodup
  mem_iff : ∀ id, id ∈ stuck ↔ m.ReachesCycle id

variable {m : Model} {ids : List NodeId} {id : NodeId}

theorem DependsOn.mem_ids {d : NodeId} (h : m.DependsOn id d) : id ∈ m.ids := by
  obtain ⟨n, hn, hid, -⟩ := h
  exact Model.mem_ids.mpr ⟨n, hn, hid⟩

theorem ReachesCycle.mem_ids (h : m.ReachesCycle id) : id ∈ m.ids := by
  obtain ⟨c, hpath, hcycle⟩ := h
  -- the path to the cycle followed by the cycle has a first step
  have hround := Relation.TransGen.trans_right hpath hcycle
  obtain ⟨d, hstep, -⟩ := Relation.TransGen.head'_iff.mp hround
  exact hstep.mem_ids

theorem ReachesCycle.of_step {d : NodeId} (hstep : m.DependsOn id d) (h : m.ReachesCycle d) :
    m.ReachesCycle id := by
  obtain ⟨c, hpath, hcycle⟩ := h
  exact ⟨c, .head hstep hpath, hcycle⟩

theorem acyclic_iff : m.Acyclic ↔ ∀ id, ¬ m.ReachesCycle id := by
  constructor
  · intro h id hreach
    obtain ⟨c, -, hcycle⟩ := hreach
    exact h c hcycle
  · intro h id hcycle
    exact h id ⟨id, .refl, hcycle⟩

namespace Listing

/-- From a listed node only listed ones are reached, and their positions fall on the way: no cycle
is among them. -/
theorem not_reachesCycle (h : m.Listing [] ids) (hd : m.ids.Nodup) (hid : id ∈ ids) :
    ¬ m.ReachesCycle id := by
  have hstep : ∀ {a b}, a ∈ ids → m.DependsOn a b → b ∈ ids ∧ ids.idxOf b < ids.idxOf a := by
    intro a b ha hab
    obtain ⟨n, hn, rfl, hdep⟩ := hab
    exact h.idxOf_lt hd hn ha hdep
  have hreach : ∀ {a b}, a ∈ ids → Relation.ReflTransGen m.DependsOn a b → b ∈ ids := by
    intro a b ha hpath
    induction hpath with
    | refl => exact ha
    | tail _ hlast ih => exact (hstep ih hlast).1
  have hfall : ∀ {a b}, a ∈ ids → Relation.TransGen m.DependsOn a b →
      ids.idxOf b < ids.idxOf a := by
    intro a b ha hpath
    induction hpath with
    | single hlast => exact (hstep ha hlast).2
    | tail hfirst hlast ih =>
      exact Nat.lt_trans (hstep (hreach ha hfirst.to_reflTransGen) hlast).2 ih
  intro hcycle
  obtain ⟨c, hpath, hself⟩ := hcycle
  exact Nat.lt_irrefl _ (hfall (hreach hid hpath) hself)

/-- A node that reaches no cycle is listed, by induction along what it depends on: among finitely
many nodes that reach no cycle, depending on one another is well-founded. -/
theorem mem_of_not_reachesCycle (h : m.Listing [] ids)
    (hall : ∀ n ∈ m.nodes, n.dependencies ⊆ m.ids) (hid : id ∈ m.ids)
    (hclear : ¬ m.ReachesCycle id) : id ∈ ids := by
  let Clear := {a : NodeId // a ∈ m.ids ∧ ¬ m.ReachesCycle a}
  let below (b a : Clear) : Prop := Relation.TransGen m.DependsOn a.1 b.1
  have : Finite Clear := (m.ids.finite_toSet.subset fun _ ha => ha.1).to_subtype
  have : Std.Irrefl below := ⟨fun a ha => a.2.2 ⟨a.1, .refl, ha⟩⟩
  have : IsTrans Clear below := ⟨fun _ _ _ hab hbc => hbc.trans hab⟩
  have hwf : WellFounded below := Finite.wellFounded_of_trans_of_irrefl below
  have hlisted : ∀ a : Clear, a.1 ∈ ids := by
    intro a
    induction a using hwf.induction with
    | _ a ih =>
      by_contra hnot
      obtain ⟨n, hn, hkey⟩ := Model.mem_ids.mp a.2.1
      -- were it not listed, it would wait for another one that is not
      obtain ⟨d, hdep, hd⟩ := h.waits hn (hkey ▸ hnot)
      have hstep : m.DependsOn a.1 d := ⟨n, hn, hkey, hdep⟩
      exact hd (ih ⟨d, hall n hn hdep, fun hreach => a.2.2 (.of_step hstep hreach)⟩ (.single hstep))
  exact hlisted ⟨id, hid, hclear⟩

/-- What is not listed in the end is what reaches a cycle. -/
theorem cycleReport (h : m.Listing [] ids) (hd : m.ids.Nodup)
    (hall : ∀ n ∈ m.nodes, n.dependencies ⊆ m.ids) :
    m.CycleReport ((m.unlisted ids).map Node.id) := by
  have hsub : ((m.unlisted ids).map Node.id).Sublist m.ids := List.filter_sublist.map Node.id
  refine ⟨hsub, hd.sublist hsub, fun id => ?_⟩
  constructor
  · intro hmem
    obtain ⟨n, hn, rfl⟩ := List.mem_map.mp hmem
    obtain ⟨hnode, hnot⟩ := mem_unlisted.mp hn
    by_contra hclear
    exact hnot (h.mem_of_not_reachesCycle hall (Model.mem_ids.mpr ⟨n, hnode, rfl⟩) hclear)
  · intro hreach
    obtain ⟨n, hn, rfl⟩ := Model.mem_ids.mp hreach.mem_ids
    exact List.mem_map_of_mem
      (mem_unlisted.mpr ⟨hn, fun hmem => h.not_reachesCycle hd hmem hreach⟩)

end Listing

/-- A model in which nothing is missing has an order, or is refused for the nodes that reach a
cycle. -/
theorem order_cases (hd : m.ids.Nodup) (hall : ∀ n ∈ m.nodes, n.dependencies ⊆ m.ids) :
    (m.Acyclic ∧ ∃ ids, m.Listing [] ids ∧ m.order = .ok ids) ∨
    (¬ m.Acyclic ∧ ∃ stuck, m.order = .error (.cycleDetected stuck) ∧ m.CycleReport stuck) := by
  obtain ⟨ids, hlisting, horder⟩ := exists_listing hd
  have hrun := horder (missing?_eq_none.mpr hall)
  have hreport := hlisting.cycleReport hd hall
  cases hstuck : m.unlisted ids with
  | nil =>
    rw [hstuck] at hrun hreport
    refine .inl ⟨acyclic_iff.mpr fun id hreach => ?_, ids, hlisting, hrun⟩
    exact absurd ((hreport.mem_iff id).mpr hreach) List.not_mem_nil
  | cons n rest =>
    rw [hstuck] at hrun hreport
    refine .inr ⟨fun hacyclic => ?_, _, hrun, hreport⟩
    have hfirst : n.id ∈ (n :: rest).map Node.id := List.mem_map_of_mem List.mem_cons_self
    exact acyclic_iff.mp hacyclic _ ((hreport.mem_iff _).mp hfirst)

end Model

namespace Registry

/-- What a registry reads in an archive before it looks at the model as a whole: an entry for each
of the nodes, under its own key, where every key that is named is that of an entry. -/
structure Reads (r : Registry) (a : Archive) (s : Supply) (nodes : List Node) : Prop where
  version : ∃ v, a.get? "format_version" = some v ∧ v.Holds storedVersion.toNat
  entries : ∃ (entries : List Archive) (loaded : List (UInt64 × Node)),
    a.get? "nodes" = some (.array (entries.map Archive.toValue)) ∧
      List.Forall₂ r.LoadsEntry entries loaded ∧ (loaded.map Prod.fst).Nodup ∧
        loaded.map (fun p => p.2.id) = s.next entries.length ∧
          List.Forall₂ (fun p n => resolve loaded p.2 = .ok n) loaded nodes

/-- Nodes that are read get ids one after another, which are different as their keys are. -/
theorem Reads.nodup {r : Registry} {a : Archive} {s : Supply} {nodes : List Node}
    (h : r.Reads a s nodes) : (Model.ids ⟨nodes⟩).Nodup := by
  obtain ⟨entries, loaded, -, hforall, hkeys, hids, hnodes⟩ := h.entries
  have hsame : Model.ids ⟨nodes⟩ = loaded.map fun p => p.2.id := by
    rw [Model.ids, ← List.forall₂_eq_eq_eq, List.forall₂_map_left_iff, List.forall₂_map_right_iff]
    exact List.Forall₂.flip (hnodes.imp fun p n hn => (resolve_ok hn).2.1)
  -- there are no more keys than words, hence no more nodes than ids
  have hwords : (loaded.map fun p => (⟨p.1⟩ : NodeId)).Nodup := by
    have hinj : Function.Injective NodeId.mk := fun _ _ hab => NodeId.mk.inj hab
    simpa [Function.comp_def] using hkeys.map hinj
  have hfew : entries.length ≤ 2 ^ 64 := by
    simpa [hforall.length_eq] using NodeId.length_le_of_nodup hwords
  rw [hsame, hids]
  exact Supply.nodup_next hfew

/-- What is read is put together at the end, whatever comes of it. -/
theorem Reads.load {r : Registry} {a : Archive} {s : Supply} {nodes : List Node}
    (h : r.Reads a s nodes) :
    (r.load a).runWith s = (assemble nodes, ⟨s.drawn + nodes.length⟩) := by
  obtain ⟨entries, loaded, hentries, hforall, hkeys, hids, hnodes⟩ := h.entries
  obtain ⟨v, hv, hholds⟩ := h.version
  have hversion : (ofArchive (a.read Archive.Value.asUInt64 "format_version")).runWith s =
      (.ok storedVersion, s) :=
    ofArchive_ok.mpr ⟨Archive.read_ok.mpr ⟨v, hv, Archive.Value.asUInt64_ok.mpr hholds⟩, rfl⟩
  have hobjects : (ofArchive (a.objects "nodes")).runWith s = (.ok entries, s) :=
    ofArchive_ok.mpr ⟨Archive.objects_ok.mpr hentries, rfl⟩
  have hloaded : (r.loadEntries 0 [] entries).runWith s =
      (.ok loaded, ⟨s.drawn + nodes.length⟩) := by
    rw [← hnodes.length_eq, ← hforall.length_eq]
    exact loadEntries_ok.mpr ⟨hforall, hids, hkeys, by simp, rfl⟩
  have hrenamed (s₁ : Supply) :
      (Drawing.ofExcept (loaded.mapM fun p => resolve loaded p.2)).runWith s₁ = (.ok nodes, s₁) :=
    Drawing.runWith_ofExcept_ok.mpr ⟨mapM_ok.mpr hnodes, rfl⟩
  rw [Registry.load, Drawing.runWith_bind_of_ok hversion, if_neg (by simp),
    Drawing.runWith_bind_of_ok hobjects, Drawing.runWith_bind_of_ok hloaded,
    Drawing.runWith_bind_of_ok (hrenamed _)]
  rfl

/-- Nodes under different ids, of which all that they read exists, are refused for what their order
is refused for. -/
theorem assemble_error {nodes : List Node} {e : GraphError} (hd : (Model.ids ⟨nodes⟩).Nodup)
    (hresolves : ∀ n ∈ nodes, ∀ s ∈ n.spans, s.Resolves ⟨nodes⟩ n.type)
    (ho : Model.order ⟨nodes⟩ = .error e) : assemble nodes = .error e := by
  have hempty : Model.empty.ids.Nodup := List.nodup_nil
  have hadded : nodes.foldlM Model.addUnchecked .empty = .ok ⟨nodes⟩ :=
    (foldlM_addUnchecked_ok hempty).mpr ⟨rfl, hd⟩
  have hchecked : nodes.forM (Model.checkNode ⟨nodes⟩) = .ok () :=
    forM_ok.mpr fun n hn => Model.checkNode_ok.mpr (hresolves n hn)
  have hvalidate : Model.validate ⟨nodes⟩ = .error e := by
    simp only [Model.validate, hchecked, ho]
    rfl
  simp only [assemble, hadded, bind, Except.bind, hvalidate]

/-- A model with cycles has no order: what is reported are the nodes that reach one. So is an
archive refused of which every entry is read, and in which all that is read from exists, if what is
read goes in a circle. -/
theorem cycles_reported :
    (∀ m : Model, m.ids.Nodup → (∀ n ∈ m.nodes, n.dependencies ⊆ m.ids) → ¬ m.Acyclic →
      ∃ stuck, m.order = .error (.cycleDetected stuck) ∧ m.CycleReport stuck) ∧
    ∀ (r : Registry) (a : Archive) (s : Supply) (nodes : List Node), r.Reads a s nodes →
      (∀ n ∈ nodes, ∀ s ∈ n.spans, s.Resolves ⟨nodes⟩ n.type) → ¬ Model.Acyclic ⟨nodes⟩ →
        ∃ stuck, (r.load a).runWith s =
          (.error (.cycleDetected stuck), ⟨s.drawn + nodes.length⟩) ∧
            Model.CycleReport ⟨nodes⟩ stuck := by
  have hreported : ∀ m : Model, m.ids.Nodup → (∀ n ∈ m.nodes, n.dependencies ⊆ m.ids) →
      ¬ m.Acyclic → ∃ stuck, m.order = .error (.cycleDetected stuck) ∧ m.CycleReport stuck := by
    intro m hd hall hcyclic
    rcases Model.order_cases hd hall with hordered | hstuck
    · exact absurd hordered.1 hcyclic
    · exact hstuck.2
  refine ⟨hreported, fun r a s nodes hreads hresolves hcyclic => ?_⟩
  have hd := hreads.nodup
  have hall : ∀ n ∈ nodes, n.dependencies ⊆ Model.ids ⟨nodes⟩ := by
    intro n hn id hid
    obtain ⟨span, hspan, rfl⟩ := Node.mem_dependencies.mp hid
    exact Model.resolves_mem (hresolves n hn span hspan)
  obtain ⟨stuck, hstuck, hreport⟩ := hreported ⟨nodes⟩ hd hall hcyclic
  refine ⟨stuck, ?_, hreport⟩
  rw [hreads.load, assemble_error hd hresolves hstuck]

/-- Two outputs that read from each other, an input, and an output that names one of the first two
to read nothing from it. -/
def tangled (a b c d : NodeId) : Model :=
  ⟨[.output a .int (.single ⟨⟨b, Node.outletName⟩, 0, 1⟩),
    .output b .int (.single ⟨⟨a, Node.outletName⟩, 0, 1⟩), .input c .int 3,
    .output d .int (.single ⟨⟨b, Node.outletName⟩, 1, 0⟩)]⟩

theorem tangled_cyclic (a b c d : NodeId) : ¬ (tangled a b c d).Acyclic := by
  have reads {x y : NodeId} (h : Node.output x .int (.single ⟨⟨y, Node.outletName⟩, 0, 1⟩) ∈
      (tangled a b c d).nodes) : (tangled a b c d).DependsOn x y :=
    ⟨_, h, rfl, Node.mem_dependencies.mpr ⟨_, List.mem_singleton_self _, rfl⟩⟩
  have hab := reads List.mem_cons_self
  have hba := reads (List.mem_cons_of_mem _ List.mem_cons_self)
  intro h
  exact h a (.tail (.single hab) hba)

theorem tangled_reads :
    builtin.Reads (tangled ⟨5⟩ ⟨7⟩ ⟨9⟩ ⟨4⟩).toArchive {} (tangled ⟨1⟩ ⟨2⟩ ⟨3⟩ ⟨4⟩).nodes := by
  -- before they are renamed, the selections name keys
  let read : List (UInt64 × Node) :=
    [(5, .output ⟨1⟩ .int (.single ⟨⟨⟨7⟩, Node.outletName⟩, 0, 1⟩)),
      (7, .output ⟨2⟩ .int (.single ⟨⟨⟨5⟩, Node.outletName⟩, 0, 1⟩)), (9, .input ⟨3⟩ .int 3),
      (4, .output ⟨4⟩ .int (.single ⟨⟨⟨7⟩, Node.outletName⟩, 1, 0⟩))]
  have hread : (builtin.loadEntries 0 []
      ((tangled ⟨5⟩ ⟨7⟩ ⟨9⟩ ⟨4⟩).nodes.map Node.toEntry)).runWith {} = (.ok read, ⟨4⟩) := rfl
  obtain ⟨hforall, hids, hkeys, -, -⟩ := loadEntries_ok.mp hread
  exact ⟨⟨_, rfl, rfl⟩, _, read, rfl, hforall, hkeys, hids, mapM_ok.mp rfl⟩

theorem cycles_reported_tangled :
    (tangled ⟨5⟩ ⟨7⟩ ⟨9⟩ ⟨4⟩).CycleReport [⟨5⟩, ⟨7⟩, ⟨4⟩] ∧
      (builtin.load (tangled ⟨5⟩ ⟨7⟩ ⟨9⟩ ⟨4⟩).toArchive).runWith {} =
        (.error (.cycleDetected [⟨1⟩, ⟨2⟩, ⟨4⟩]), ⟨4⟩) := by
  have hread : (tangled ⟨5⟩ ⟨7⟩ ⟨9⟩ ⟨4⟩).missing? = none := rfl
  obtain ⟨stuck, hstuck, hreport⟩ := cycles_reported.1 (tangled ⟨5⟩ ⟨7⟩ ⟨9⟩ ⟨4⟩) (by decide)
    (Model.missing?_eq_none.mp hread) (tangled_cyclic _ _ _ _)
  obtain rfl : [⟨5⟩, ⟨7⟩, ⟨4⟩] = stuck := GraphError.cycleDetected.inj (Except.error.inj hstuck)
  have hchecked : (tangled ⟨1⟩ ⟨2⟩ ⟨3⟩ ⟨4⟩).nodes.forM
      (Model.checkNode (tangled ⟨1⟩ ⟨2⟩ ⟨3⟩ ⟨4⟩)) = .ok () := rfl
  obtain ⟨stored, hstored, -⟩ := cycles_reported.2 builtin _ {} _ tangled_reads
    (fun n hn => Model.checkNode_ok.mp (forM_ok.mp hchecked n hn)) (tangled_cyclic _ _ _ _)
  refine ⟨hreport, hstored.trans ?_⟩
  have hsame := (congrArg Prod.fst hstored).symm
  obtain rfl : stored = [⟨1⟩, ⟨2⟩, ⟨4⟩] := GraphError.cycleDetected.inj (Except.error.inj hsame)
  rfl

end Registry

end FlowGraph
