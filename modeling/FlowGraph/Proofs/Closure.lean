import FlowGraph.Proofs.Ancestors

/-! The ancestors of some nodes as a set. In what order the nodes are listed and how often makes no
difference, and the ancestors of ancestors are these again. -/
namespace FlowGraph

namespace Model

variable {m : Model} {roots others found : List NodeId}

/-- What is reached depends on the roots as a set. -/
theorem reaches_congr (h : ∀ id, id ∈ others ↔ id ∈ roots) (id : NodeId) :
    m.Reaches others id ↔ m.Reaches roots id := by
  simp only [Reaches, h]

/-- From all that is reached nothing more is. -/
theorem reaches_reached (h : ∀ id, id ∈ found ↔ m.Reaches roots id) (id : NodeId) :
    m.Reaches found id ↔ m.Reaches roots id := by
  constructor
  · intro hid
    obtain ⟨a, ha, hpath⟩ := hid
    obtain ⟨root, hroot, hfirst⟩ := (h a).mp ha
    exact ⟨root, hroot, hfirst.trans hpath⟩
  · exact fun hid => reaches_root ((h id).mpr hid)

theorem ancestors_ok (h : m.ancestors roots = .ok found) :
    found.Nodup ∧ found ⊆ m.ids ∧ ∀ id, id ∈ found ↔ m.Reaches roots id := by
  rcases ancestors_cases m roots with ⟨other, hrun, hfound⟩ | ⟨id, hrun, -⟩
  · rw [h] at hrun
    rwa [Except.ok.inj hrun]
  · rw [h] at hrun
    cases hrun

theorem ancestors_error {e : GraphError} (h : m.ancestors roots = .error e) :
    ∃ id, e = .unknownNode id ∧ id ∉ m.ids ∧ m.Reaches roots id := by
  rcases ancestors_cases m roots with ⟨found, hrun, -⟩ | ⟨id, hrun, hmissing⟩
  · rw [h] at hrun
    cases hrun
  · rw [h] at hrun
    exact ⟨id, Except.error.inj hrun, hmissing⟩

theorem ancestors_total :
    (∃ found, m.ancestors roots = .ok found) ↔ ∀ id, m.Reaches roots id → id ∈ m.ids := by
  constructor
  · intro h id hid
    obtain ⟨found, hrun⟩ := h
    obtain ⟨-, hsubset, hfound⟩ := ancestors_ok hrun
    exact hsubset ((hfound id).mpr hid)
  · intro h
    rcases ancestors_cases m roots with ⟨found, hrun, -⟩ | ⟨id, -, hmissing, hreached⟩
    · exact ⟨found, hrun⟩
    · exact absurd (h id hreached) hmissing

/-- From roots that reach the same nodes the same set is found. -/
theorem ancestors_perm (hrun : m.ancestors roots = .ok found)
    (h : ∀ id, m.Reaches others id ↔ m.Reaches roots id) :
    ∃ again, m.ancestors others = .ok again ∧ again.Perm found := by
  obtain ⟨honce, hsubset, hfound⟩ := ancestors_ok hrun
  have hall : ∀ id, m.Reaches others id → id ∈ m.ids := fun id hid =>
    hsubset ((hfound id).mpr ((h id).mp hid))
  obtain ⟨again, hagain⟩ := ancestors_total.mpr hall
  obtain ⟨honceAgain, -, hfoundAgain⟩ := ancestors_ok hagain
  refine ⟨again, hagain, (List.perm_ext_iff_of_nodup honceAgain honce).mpr fun id => ?_⟩
  rw [hfoundAgain, hfound, h]

/-- The search for ancestors comes to an end in every model, with or without cycles. What it finds
are the nodes that are reached from the roots, each once, unless one of these is not in the model,
which is reported then. Roots that are the same as a set have the same ancestors, and so have these
ancestors themselves, however they are listed. -/
theorem ancestors_closure (m : Model) (roots : List NodeId) :
    (∀ result, m.Search [] roots.reverse result ↔ result = m.ancestors roots) ∧
    ((∃ found, m.ancestors roots = .ok found) ↔ ∀ id, m.Reaches roots id → id ∈ m.ids) ∧
    (∀ found, m.ancestors roots = .ok found →
      found.Nodup ∧ (∀ id, id ∈ found ↔ m.Reaches roots id) ∧
      (∀ others, (∀ id, id ∈ others ↔ id ∈ roots) →
        ∃ again, m.ancestors others = .ok again ∧ again.Perm found) ∧
      ∀ listed, (∀ id, id ∈ listed ↔ id ∈ found) →
        ∃ again, m.ancestors listed = .ok again ∧ again.Perm found) ∧
    (∀ e, m.ancestors roots = .error e →
      ∃ id, e = .unknownNode id ∧ id ∉ m.ids ∧ m.Reaches roots id) := by
  have hsearch := search_ancestors m roots
  refine ⟨fun result => ⟨fun h => h.deterministic hsearch, fun h => h ▸ hsearch⟩, ancestors_total,
    fun found hrun => ?_, fun e => ancestors_error⟩
  obtain ⟨honce, -, hfound⟩ := ancestors_ok hrun
  refine ⟨honce, hfound, fun others hsame => ancestors_perm hrun (reaches_congr hsame),
    fun listed hsame => ancestors_perm hrun fun id => ?_⟩
  rw [reaches_congr hsame, reaches_reached hfound]

/-- Two outputs that read from each other, an input, and an output of something that is not
there. -/
def adrift : Model :=
  ⟨[.output ⟨1⟩ .int (.single ⟨⟨⟨2⟩, Node.outletName⟩, 0, 1⟩),
    .output ⟨2⟩ .int (.single ⟨⟨⟨1⟩, Node.outletName⟩, 0, 1⟩), .input ⟨3⟩ .int 1,
    .output ⟨4⟩ .int (.single ⟨⟨⟨9⟩, Node.outletName⟩, 0, 1⟩)]⟩

theorem ancestors_closure_adrift :
    (adrift.ancestors [⟨2⟩, ⟨3⟩, ⟨2⟩] = .ok [⟨3⟩, ⟨1⟩, ⟨2⟩] ∧
      (∀ id, id ∈ [⟨3⟩, ⟨1⟩, ⟨2⟩] ↔ adrift.Reaches [⟨2⟩, ⟨3⟩, ⟨2⟩] id) ∧
      (∃ again, adrift.ancestors [⟨3⟩, ⟨2⟩] = .ok again ∧ again.Perm [⟨3⟩, ⟨1⟩, ⟨2⟩]) ∧
      ∃ again, adrift.ancestors [⟨1⟩, ⟨2⟩, ⟨3⟩] = .ok again ∧ again.Perm [⟨3⟩, ⟨1⟩, ⟨2⟩]) ∧
    (adrift.ancestors [⟨3⟩, ⟨4⟩] = .error (.unknownNode ⟨9⟩) ∧ adrift.Reaches [⟨3⟩, ⟨4⟩] ⟨9⟩) := by
  have hrun : adrift.ancestors [⟨2⟩, ⟨3⟩, ⟨2⟩] = .ok [⟨3⟩, ⟨1⟩, ⟨2⟩] := rfl
  have hfail : adrift.ancestors [⟨3⟩, ⟨4⟩] = .error (.unknownNode ⟨9⟩) := rfl
  obtain ⟨-, hfound, hroots, hlisted⟩ := (ancestors_closure adrift _).2.2.1 _ hrun
  obtain ⟨id, hid, -, hreached⟩ := (ancestors_closure adrift _).2.2.2 _ hfail
  obtain rfl : ⟨9⟩ = id := GraphError.unknownNode.inj hid
  refine ⟨⟨hrun, hfound, hroots _ fun id => ?_, hlisted _ fun id => ?_⟩, hfail, hreached⟩
  · simp only [List.mem_cons, List.not_mem_nil, or_false]
    tauto
  · simp only [List.mem_cons, List.not_mem_nil, or_false]
    tauto

end Model

end FlowGraph
