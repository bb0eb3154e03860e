import FlowGraph.Proofs.Folding

/-! Copying nodes into a model of their own: the copies are wired as their sources are, and mean the
same. -/
namespace FlowGraph

/-- `n'` is `n` under the id that `place` gives it: of the same type, size, operation and constants,
reading at the places of what `n` reads, with default values only. -/
structure Node.CopiedTo (place : NodeId → NodeId) (n n' : Node) : Prop where
  id : n'.id = place n.id
  same : n.Matches (Selection.WiredBy place) n'
  fresh : n'.Fresh

namespace Workspace

/-- After a transform the transformer is idle again, whatever came of it. -/
theorem transformer_transform (visitor : Node → Visit Unit) (m : Model) (s : Supply) :
    (transform visitor m ⟨s, .idle⟩).2.transformer = .idle := by
  have hidle : Transformer.idle.isTransforming = false := rfl
  simp only [transform, transformWith, hidle, Bool.false_eq_true, if_false]
  cases m.order with
  | error e => rfl
  | ok ids => rfl

/-- What a transformer of its own builds is what one that is idle builds. -/
theorem transform_of_rebuild {visitor : Node → Visit Unit} {m r : Model} {s s' : Supply}
    (h : (m.rebuild visitor).runWith s = (.ok r, s')) :
    transform visitor m ⟨s, .idle⟩ = (.ok r, ⟨s', .idle⟩) := by
  have hidle := transformer_transform visitor m s
  have hrun : (m.rebuild visitor).runWith s =
      ((transform visitor m ⟨s, .idle⟩).1, (transform visitor m ⟨s, .idle⟩).2.supply) := rfl
  rw [hrun] at h
  rcases htransform : transform visitor m ⟨s, .idle⟩ with ⟨result, supply, transformer⟩
  rw [htransform] at h hidle
  obtain ⟨rfl, rfl⟩ := Prod.mk.inj h
  have hidle : transformer = .idle := hidle
  rw [hidle]

end Workspace

namespace Model

/-- Copying the `live` nodes, which read only from one another, builds a model of their copies, in
the order of the source. -/
theorem rebuild_copies {m : Model} (hwf : m.WellFormed) (ha : m.Allocatable) {ids : List NodeId}
    (ho : m.order = .ok ids) (live : NodeId → Bool)
    (hlive : ∀ n ∈ m.nodes, live n.id = true → ∀ d ∈ n.dependencies, live d = true) (s : Supply) :
    ∃ pairs r, (m.rebuild fun n => if live n.id then n.copy else pure ()).runWith s =
        (.ok r, ⟨s.drawn + (ids.filter live).length⟩) ∧
      ids.filter live = pairs.map (fun p => p.1.id) ∧ r.ids = s.next (ids.filter live).length ∧
      r.order = .ok r.ids ∧ r.Allocatable ∧
      CarriedPart (s.place (ids.filter live)) m r pairs ∧
      ∀ p ∈ pairs, p.1.CopiedTo (s.place (ids.filter live)) p.2 := by
  obtain ⟨pairs, r, hrun, hnodes, hpairs, -, hnext, horder, hrwf, hralloc, hall⟩ :=
    rebuild_live hwf ha ho live hlive s (Node.carries_copy _) fun _ _ _ _ h => h
  -- what a live node reads is live, and so is copied as well
  have hclosed : ∀ p ∈ pairs, p.1.dependencies ⊆ pairs.map fun p => p.1.id := by
    intro p hp d hd
    have hmem : p.1 ∈ m.nodes := (hall p hp).1
    have hkept : p.1.id ∈ ids.filter live := by
      rw [hpairs]
      exact List.mem_map_of_mem hp
    rw [← hpairs, List.mem_filter]
    exact ⟨(order_perm ho).mem_iff.mpr (hwf.dependencies hmem hd),
      hlive _ hmem (List.mem_filter.mp hkept).2 d hd⟩
  refine ⟨pairs, r, hrun, hpairs, hnext, horder, hralloc, ?_, fun p hp => ?_⟩
  · exact
      { closed := hclosed
        nodes := hnodes
        wellFormed := hwf
        wellFormed_result := hrwf
        source := fun p hp => (hall p hp).1
        stands := fun p hp => ⟨(hall p hp).2.1, (hall p hp).2.2.1, (hall p hp).2.2.2.1⟩
        kept := fun p hp => .inl (hall p hp).2.2.2.2 }
  · obtain ⟨-, hid, -, -, hmatches, hfresh⟩ := hall p hp
    exact ⟨hid, hmatches, hfresh⟩

theorem inputs_of_order {m : Model} {ids : List NodeId} (ho : m.order = .ok ids) :
    m.inputs = .ok (ids.filter fun id => (m.node? id).any Node.isInput) := by
  rw [inputs, ho]
  rfl

theorem outputs_of_order {m : Model} {ids : List NodeId} (ho : m.order = .ok ids) :
    m.outputs = .ok (ids.filter fun id => (m.node? id).any Node.isOutput) := by
  rw [outputs, ho]
  rfl

/-- The nodes of a kind, in the order of the model, are all nodes of the kind. -/
theorem mem_filter_order {m : Model} (hd : m.ids.Nodup) {ids : List NodeId} (ho : m.order = .ok ids)
    {kind : Node → Bool} {id : NodeId} :
    id ∈ ids.filter (fun id => (m.node? id).any kind) ↔
      ∃ n ∈ m.nodes, kind n = true ∧ n.id = id := by
  rw [List.mem_filter, (order_perm ho).mem_iff]
  constructor
  · intro hid
    obtain ⟨n, hn, hkind⟩ := Option.any_eq_true _ _ |>.mp hid.2
    obtain ⟨hmem, hself⟩ := node?_eq_some hn
    exact ⟨n, hmem, hkind, hself⟩
  · rintro ⟨n, hn, hkind, rfl⟩
    exact ⟨mem_ids.mpr ⟨n, hn, rfl⟩, by rw [node?_of_mem hd hn]; exact hkind⟩

theorem mem_inputs {m : Model} (hd : m.ids.Nodup) {inputs : List NodeId}
    (h : m.inputs = .ok inputs) {id : NodeId} :
    id ∈ inputs ↔ ∃ n ∈ m.nodes, n.isInput = true ∧ n.id = id := by
  obtain ⟨ids, ho, hfilter⟩ := bind_ok.mp h
  obtain rfl := pure_ok.mp hfilter
  exact mem_filter_order hd ho

theorem mem_outputs {m : Model} (hd : m.ids.Nodup) {outputs : List NodeId}
    (h : m.outputs = .ok outputs) {id : NodeId} :
    id ∈ outputs ↔ ∃ n ∈ m.nodes, n.isOutput = true ∧ n.id = id := by
  obtain ⟨ids, ho, hfilter⟩ := bind_ok.mp h
  obtain rfl := pure_ok.mp hfilter
  exact mem_filter_order hd ho

namespace CarriedPart

variable {place : NodeId → NodeId} {m r : Model} {pairs : List (Node × Node)}

/-- The input nodes and the output nodes of the part stand for one another in their order. -/
theorem marks_eq (h : CarriedPart place m r pairs) (hr : r.order = .ok r.ids) :
    r.inputs = .ok (((pairs.map fun p => p.1.id).filter
      fun id => (m.node? id).any Node.isInput).map place) ∧
    r.outputs = .ok (((pairs.map fun p => p.1.id).filter
      fun id => (m.node? id).any Node.isOutput).map place) := by
  constructor
  · rw [inputs_of_order hr, h.filter_eq fun p hp => (h.isInput_eq hp).1]
  · rw [outputs_of_order hr, h.filter_eq fun p hp => (h.isInput_eq hp).2]

end CarriedPart

end Model

/-- Copying a model never fails and gives an isomorphic one. The nodes of the copy are the copies of
those of the source, in its order, under new ids; until the ids have come around, none of these is
an id of the source. Whatever the input nodes are fed, each copy means what its source does, and
both models compute to the same values or both fail, at the same node and in the same words. -/
theorem Reachable.copy_isomorphic {s : Supply} {m : Model} (h : Reachable s m)
    (ha : m.Allocatable) :
    ∃ (place : NodeId → NodeId) (pairs : List (Node × Node)) (c : Model)
        (inputs outputs : List NodeId),
      Workspace.copy m ⟨s, .idle⟩ = (.ok c, ⟨⟨s.drawn + m.size⟩, .idle⟩) ∧
      c.size = m.size ∧ c.ids.Nodup ∧ (s.drawn + m.size ≤ 2 ^ 64 → ∀ id ∈ c.ids, id ∉ m.ids) ∧
      m.order = .ok (pairs.map fun p => p.1.id) ∧ c.nodes = pairs.map Prod.snd ∧
      c.order = .ok c.ids ∧ (∀ p ∈ pairs, p.1 ∈ m.nodes ∧ p.1.CopiedTo place p.2) ∧
      m.inputs = .ok inputs ∧ c.inputs = .ok (inputs.map place) ∧
      m.outputs = .ok outputs ∧ c.outputs = .ok (outputs.map place) ∧
      ∀ a b, m.Accepts a → Model.FedAlike pairs a b → c.Accepts b ∧
        (∀ p ∈ pairs, ∀ t, (c.feed b).reference t p.2.id = (m.feed a).reference t p.1.id) ∧
        ((∃ m₁ c₁, (m.feed a).compute = (.ok (), m₁) ∧ (c.feed b).compute = (.ok (), c₁) ∧
          ∀ p ∈ pairs, ∀ t, c₁.buffer? t p.2.id = m₁.buffer? t p.1.id) ∨
        (∃ p ∈ pairs, ∃ detail m₁ c₁,
          (m.feed a).compute = (.error (.arithmetic p.1.id detail), m₁) ∧
            (c.feed b).compute = (.error (.arithmetic p.2.id detail), c₁))) := by
  obtain ⟨hwf, hissued⟩ := h.wellFormed
  obtain ⟨ids, ho⟩ := hwf.ordered
  -- every node is copied
  have hall : ids.filter (fun _ => true) = ids := List.filter_eq_self.mpr fun _ _ => rfl
  obtain ⟨pairs, c, hrun, hpairs, hnext, horder, halloc, hpart, hcopied⟩ :=
    Model.rebuild_copies hwf ha ho (fun _ => true) (fun _ _ _ _ _ => rfl) s
  simp only [hall, Model.length_order ho, if_true] at hrun hpairs hnext hpart hcopied
  have hcarried : Model.CarriedOver (s.place ids) m c pairs :=
    { hpart with
      order := by rw [ho, hpairs]
      order_result := horder }
  have hsize : c.size = m.size := by
    have hids := congrArg List.length hnext
    rwa [Supply.length_next, Model.length_ids] at hids
  obtain ⟨hinputs, houtputs⟩ := hpart.marks_eq horder
  rw [← hpairs] at hinputs houtputs
  refine ⟨s.place ids, pairs, c, _, _, Workspace.transform_of_rebuild hrun, hsize,
    hpart.wellFormed_result.distinct, fun hdrawn id hid hmem => ?_, hcarried.order, hpart.nodes,
    horder, fun p hp => ⟨hpart.source p hp, hcopied p hp⟩, Model.inputs_of_order ho, hinputs,
    Model.outputs_of_order ho, houtputs, fun a b haccepts hfed => ?_⟩
  · -- all ids of the source were drawn before
    rw [hnext] at hid
    exact Supply.next_not_issued hdrawn hid (hissued id hmem)
  · exact ⟨hpart.accepts haccepts hfed, fun p hp t => hpart.reference_eq haccepts hfed hp t,
      hcarried.compute_eq ha halloc haccepts hfed⟩

/-- An output node that comes before the input node it reads from, by three spans that could be one:
the second of them is empty. -/
def splitArchive : Archive :=
  .ofList [("format_version", .uint 1), ("nodes", .array [
    .object [("id", .uint 5), ("state", .object [
      ("input", .object [
        ("elements", .object [("ranges", .array [
          .object [("count", .uint 1), ("node", .uint 4), ("port", .string "output"),
            ("start", .uint 0)],
          .object [("count", .uint 0), ("node", .uint 4), ("port", .string "output"),
            ("start", .uint 1)],
          .object [("count", .uint 1), ("node", .uint 4), ("port", .string "output"),
            ("start", .uint 1)]])]),
        ("type", .string "int")]),
      ("output", .object [("size", .uint 2), ("type", .string "int")])]),
      ("type", .string "OutputNode<int>")],
    .object [("id", .uint 4), ("state", .object [("output", .object [("size", .uint 2),
      ("type", .string "int")])]), ("type", .string "InputNode<int>")]])]

def splitModel : Model :=
  ⟨[.output ⟨1⟩ .int ⟨[⟨⟨⟨2⟩, "output"⟩, 0, 1⟩, ⟨⟨⟨2⟩, "output"⟩, 1, 0⟩, ⟨⟨⟨2⟩, "output"⟩, 1, 1⟩]⟩,
    .input ⟨2⟩ .int 2]⟩

theorem splitModel_reachable : Reachable ⟨2⟩ splitModel := by
  have hload : (Registry.builtin.load splitArchive).runWith {} = (.ok splitModel, ⟨2⟩) := rfl
  exact .load hload

theorem copy_isomorphic_splitModel :
    Reachable ⟨2⟩ splitModel ∧ splitModel.Allocatable ∧
      ∃ (pairs : List (Node × Node)) (c : Model),
        Workspace.copy splitModel ⟨⟨2⟩, .idle⟩ = (.ok c, ⟨⟨4⟩, .idle⟩) ∧
          (∀ id ∈ c.ids, id ∉ splitModel.ids) ∧
            splitModel.order = .ok (pairs.map fun p => p.1.id) ∧ c.nodes = pairs.map Prod.snd := by
  have hallocatable : splitModel.Allocatable := by decide
  obtain ⟨_, pairs, c, _, _, hcopy, -, -, hnew, horder, hnodes, -⟩ :=
    splitModel_reachable.copy_isomorphic hallocatable
  have hdrawn : 2 + splitModel.size ≤ 2 ^ 64 := by decide
  exact ⟨splitModel_reachable, hallocatable, pairs, c, hcopy, hnew hdrawn, horder, hnodes⟩

/-- The copy comes in the order of dependencies, and reads by one span. -/
example : Workspace.copy splitModel ⟨⟨2⟩, .idle⟩ =
    (.ok ⟨[.input ⟨3⟩ .int 2, .output ⟨4⟩ .int (.single ⟨⟨⟨3⟩, "output"⟩, 0, 2⟩)]⟩,
      ⟨⟨4⟩, .idle⟩) := rfl

end FlowGraph
