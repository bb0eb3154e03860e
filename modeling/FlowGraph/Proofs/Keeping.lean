import FlowGraph.Proofs.Rebuilding

/-! Whatever a program does with models that have an index, they are the images of those that it
would have without. So all of them are well formed: the index is that of the nodes, and every
buffer is as long as the size of its outlet says. -/
namespace FlowGraph

/-- The sizes inside a node agree with that of its outlet. -/
def Slot.Sized (s : Slot) : Prop :=
  match s.body with
  | .input values | .constant values => values.length = s.size
  | .output source => source.size = s.size
  | .operation _ _ left right => left.size = s.size ∧ right.size = s.size

namespace Indexed

/-- No outlet is as large as sizes go, as none is whose buffer fits into memory. -/
def Allocatable (g : Indexed) : Prop := ∀ s ∈ g.slots, s.size < sizeLimit

/-- What holds of every model that a program holds. -/
structure WellFormed (g : Indexed) : Prop where
  distinct : g.ids.Nodup
  /-- The index takes every id to the position of its node, and nothing else to any. -/
  positions : ∀ id k, g.index.lookup id = some k ↔ g.ids[k]? = some id
  buffered : ∀ s ∈ g.slots, s.buffer.length = s.size
  sized : ∀ s ∈ g.slots, s.Sized
  /-- What a span names are elements of its type, and there are as many. -/
  resolves : ∀ s ∈ g.slots, ∀ i ∈ s.inlets, ∀ r ∈ i.selection.spans, ∃ o ∈ g.slots,
    o.id = r.source.node ∧ r.source.name = Node.outletName ∧ o.type = i.type ∧ r.stop ≤ o.size ∧
      (g.Allocatable → r.start.toNat + r.count.toNat ≤ o.size)
  valid : g.validate = .ok ()

/-- Why a node cannot be added: its id is taken, or a span of it names no outlet, an outlet of
another type, or more than the outlet has. -/
inductive Rejects (g : Indexed) (n : Slot) : GraphError → Prop
  | duplicate (h : n.id ∈ g.ids) : Rejects g n (.duplicateNode n.id)
  | dangling {i : Inlet} {s : Span} (hi : i ∈ n.inlets) (hs : s ∈ i.selection.spans)
    (h : ∀ o, g.target s.source ≠ .ok o) :
    Rejects g n (.danglingReference s.source
      ("referenced by input '" ++ i.name ++ "' of " ++ i.node.text))
  | type {i : Inlet} {s : Span} {o : Slot} (hi : i ∈ n.inlets) (hs : s ∈ i.selection.spans)
    (ho : g.target s.source = .ok o) (h : o.type ≠ i.type) :
    Rejects g n (.typeMismatch (i.node.text ++ "." ++ i.name) i.type o.type)
  | bounds {i : Inlet} {s : Span} {o : Slot} (hi : i ∈ n.inlets) (hs : s ∈ i.selection.spans)
    (ho : g.target s.source = .ok o) (h : o.size < s.stop) :
    Rejects g n (.rangeOutOfBounds s.source s.start.toNat s.stop o.size)

/-- Every node is still there, with at most other values in it. -/
def Grows (g g' : Indexed) : Prop :=
  ∀ s ∈ g.slots, ∃ s' ∈ g'.slots,
    s'.id = s.id ∧ s'.type = s.type ∧ s'.size = s.size ∧ s'.inlets = s.inlets

/-- Every model is still held, with all its nodes. -/
def Session.Grows (s s' : Session) : Prop :=
  ∀ (i : Nat) (h : Held), s.held[i]? = some h → ∃ h' : Held, s'.held[i]? = some h' ∧
    h'.loaded = h.loaded ∧ h.graph.Grows h'.graph

end Indexed

namespace Model

variable {m : Model}

theorem sized_slot {n : Node} (h : n.Sized) : n.slot.Sized := by
  rcases n with ⟨id, t, body, buffer⟩
  cases body <;> exact h

theorem allocatable_of_indexed (h : m.indexed.Allocatable) : m.Allocatable :=
  fun n hn => h n.slot (List.mem_map_of_mem hn)

theorem WellFormed.indexed (h : m.WellFormed) : m.indexed.WellFormed where
  distinct := by
    rw [ids_indexed]
    exact h.distinct
  positions := by
    intro id k
    rw [lookup_indexed, ids_indexed]
    exact index_eq_some h.distinct
  buffered := by
    intro s hs
    obtain ⟨n, -, rfl⟩ := List.mem_map.mp hs
    rfl
  sized := by
    intro s hs
    obtain ⟨n, hn, rfl⟩ := List.mem_map.mp hs
    exact sized_slot (h.sized n hn)
  resolves := by
    intro s hs i hi r hr
    obtain ⟨n, hn, rfl⟩ := List.mem_map.mp hs
    have hspan : r.Resolves m n.type := h.resolves n hn r (Node.mem_spans.mpr ⟨i, hi, hr⟩)
    obtain ⟨o, ho, hname, htype, hstop⟩ := hspan
    obtain ⟨hmem, hid⟩ := node?_eq_some ho
    refine ⟨o.slot, List.mem_map_of_mem hmem, hid, hname,
      htype.trans (Node.inlet_type hi).symm, hstop, fun ha => ?_⟩
    -- no size is so large that the end of a span could have been cut off
    have hfits := fits_of_resolves (allocatable_of_indexed ha) ⟨o, ho, hname, htype, hstop⟩
    rwa [← Span.stop_of_fits hfits]
  valid := by
    rw [validate_indexed h.distinct]
    exact validate_ok.mpr ⟨h.resolves, h.ordered⟩

/-- A node is rejected for the same reasons, with the same errors. -/
theorem rejects_indexed (hd : m.ids.Nodup) {n : Node} {e : GraphError} :
    m.indexed.Rejects n.slot e ↔ m.Rejects n e := by
  constructor
  · intro h
    cases h with
    | duplicate hmem => exact .duplicate (by rwa [ids_indexed] at hmem)
    | dangling hi hs hnone =>
      refine .dangling hi hs fun o ho => ?_
      obtain ⟨k, -, hk⟩ := target_of_outlet hd ho
      exact hnone _ hk
    | type hi hs ho htype =>
      obtain ⟨k, rfl, hk⟩ := outlet_of_target hd ho
      exact .type hi hs hk htype
    | bounds hi hs ho hbound =>
      obtain ⟨k, rfl, hk⟩ := outlet_of_target hd ho
      exact .bounds hi hs hk hbound
  · intro h
    cases h with
    | duplicate hmem => exact .duplicate (by rwa [ids_indexed])
    | dangling hi hs hnone =>
      refine .dangling hi hs fun o ho => ?_
      obtain ⟨k, -, hk⟩ := outlet_of_target hd ho
      exact hnone _ hk
    | type hi hs ho htype =>
      obtain ⟨k, rfl, hk⟩ := target_of_outlet hd ho
      exact .type hi hs hk htype
    | bounds hi hs ho hbound =>
      obtain ⟨k, rfl, hk⟩ := target_of_outlet hd ho
      exact .bounds hi hs hk hbound

theorem Grows.indexed {m m' : Model} (h : m.Grows m') : m.indexed.Grows m'.indexed := by
  intro s hs
  obtain ⟨n, hn, rfl⟩ := List.mem_map.mp hs
  obtain ⟨n', hn', hshape⟩ := h n hn
  exact ⟨n'.slot, List.mem_map_of_mem hn', hshape.id, hshape.type, hshape.size, hshape.inlets⟩

theorem attempt_indexed (m : Model) (result : Except GraphError Model) :
    m.indexed.attempt (result.map indexed) =
      ((m.attempt result).1, (m.attempt result).2.indexed) := by
  cases result <;> rfl

end Model

/-- The model with an index. -/
def Held.indexed (h : Held) : Indexed.Held := ⟨h.model.indexed, h.loaded⟩

namespace Session

/-- The session with an index in every model. -/
def indexed (s : Session) : Indexed.Session :=
  ⟨s.supply, s.made.map Node.slot, s.held.map Held.indexed⟩

variable {s : Session}

theorem held_indexed (s : Session) (i : Nat) :
    s.indexed.held[i]? = s.held[i]?.map Held.indexed := List.getElem?_map

theorem made_indexed (s : Session) (k : Nat) :
    s.indexed.made[k]? = s.made[k]?.map Node.slot := List.getElem?_map

theorem change_indexed (s : Session) (i : Nat) {f : Model → Except GraphError Unit × Model}
    {f' : Indexed → Except GraphError Unit × Indexed}
    (hf : ∀ h ∈ s.held, f' h.model.indexed = ((f h.model).1, (f h.model).2.indexed)) :
    s.indexed.change i f' = ((s.change i f).1, (s.change i f).2.indexed) := by
  unfold Indexed.Session.change Session.change
  rw [held_indexed]
  cases hi : s.held[i]? with
  | none => rfl
  | some h =>
    simp only [Option.map_some, Held.indexed, hf h (List.mem_of_getElem? hi), indexed,
      List.map_set]

theorem keep_indexed (s : Session) (loaded : Bool) (d : Drawing Model) :
    s.indexed.keep loaded (Model.indexed <$> d) =
      ((s.keep loaded d).1, (s.keep loaded d).2.indexed) := by
  unfold Indexed.Session.keep Session.keep
  rw [show s.indexed.supply = s.supply from rfl, Drawing.runWith_map]
  rcases d.runWith s.supply with ⟨result, supply⟩
  cases result with
  | error e => rfl
  | ok m => simp [Except.map, indexed, Held.indexed]

/-- One step: every action does to the image of a session what it does to the session. -/
theorem perform_indexed (hs : ∀ h ∈ s.held, h.model.ids.Nodup) (a : Action) :
    s.indexed.perform a = ((s.perform a).1, (s.perform a).2.indexed) := by
  cases a with
  | make r =>
    simp only [Indexed.Session.perform, Session.perform, Node.make_slot]
    rw [show s.indexed.supply = s.supply from rfl]
    cases r.make s.supply.draw.1 with
    | error e => rfl
    | ok n => simp [Except.map, indexed]
  | prepare k t values =>
    simp only [Indexed.Session.perform, Session.perform, made_indexed]
    cases s.made[k]? with
    | none => rfl
    | some n =>
      simp only [Option.map_some, n.setInputOf_slot]
      cases n.setInputOf t values with
      | error e => rfl
      | ok n' => simp [Except.map, indexed, List.map_set]
  | start => simp [Indexed.Session.perform, Session.perform, indexed, Held.indexed]; rfl
  | add i k =>
    simp only [Indexed.Session.perform, Session.perform, made_indexed]
    cases s.made[k]? with
    | none => rfl
    | some n =>
      -- the node is gone from those that were made, also if it is rejected
      have hrest : ({ s with made := s.made.eraseIdx k } : Session).indexed =
          { s.indexed with made := s.indexed.made.eraseIdx k } := by
        simp [indexed, List.eraseIdx_map]
      simp only [Option.map_some, ← hrest]
      refine change_indexed _ i fun h hh => ?_
      rw [Model.add_indexed (hs h hh), Model.attempt_indexed]
  | setInput i id t values =>
    simp only [Indexed.Session.perform, Session.perform]
    refine change_indexed s i fun h hh => ?_
    rw [Model.setInput_indexed (hs h hh), Model.attempt_indexed]
  | setInputTexts i id texts =>
    simp only [Indexed.Session.perform, Session.perform]
    refine change_indexed s i fun h hh => ?_
    rw [Model.setInputTexts_indexed (hs h hh), Model.attempt_indexed]
  | compute i => exact change_indexed s i fun h hh => Model.compute_indexed (hs h hh)
  | computeSelection i t e =>
    simp only [Indexed.Session.perform, Session.perform]
    refine change_indexed s i fun h hh => ?_
    rw [Model.computeSelection_indexed (hs h hh)]
  | load r a =>
    simp only [Indexed.Session.perform, Session.perform, Registry.load_indexed]
    exact keep_indexed s true _
  | pass i p =>
    simp only [Indexed.Session.perform, Session.perform, held_indexed]
    cases hi : s.held[i]? with
    | none => rfl
    | some h =>
      simp only [Option.map_some, Held.indexed,
        Model.pass_indexed (hs h (List.mem_of_getElem? hi))]
      exact keep_indexed s false _

/-- The run, by induction on its actions. -/
theorem Sound.run_indexed (hs : s.Sound) (actions : List Action) :
    s.indexed.run actions = (s.run actions).indexed := by
  induction actions generalizing s with
  | nil => rfl
  | cons a rest ih =>
    have hstep := perform_indexed (fun h hh => (hs.held h hh).wellFormed.distinct) a
    change ((s.indexed.perform a).2).run rest = ((s.perform a).2.run rest).indexed
    rw [hstep]
    exact ih (hs.perform a).1

theorem Grows.indexed {s s' : Session} (h : s.Grows s') : s.indexed.Grows s'.indexed := by
  intro i held hi
  rw [held_indexed] at hi
  obtain ⟨k, hk, rfl⟩ := Option.map_eq_some_iff.mp hi
  obtain ⟨k', hk', hloaded, hgrows⟩ := h i k hk
  exact ⟨k'.indexed, by rw [held_indexed, hk', Option.map_some], hloaded, hgrows.indexed⟩

end Session

/-- Well-formedness is an invariant of every run. Whatever a program has done, in every model that
it holds ids are distinct, and the index takes each to its position and nothing else to any; every
buffer is as long as the size of its outlet says, and the other sizes of the node agree with it;
every span names existing elements of its own type; and the model is valid. A model that was not
read from an archive is in insertion order, each node reading only from those before it. Whatever
the program does next, no node goes away or changes its id, its type, its size or what it reads, and
a failure leaves all models as they were, unless it was one of computing. A node is rejected exactly
if there is a reason to, and then says so in its error. -/
theorem Indexed.Session.run_keeps_wellFormed (actions : List Action) :
    (∀ h ∈ (run {} actions).held, h.graph.WellFormed ∧
      (h.loaded = false → Follows [] h.graph.model.nodes ∧ h.graph.order = .ok h.graph.ids)) ∧
    (∀ a, (run {} actions).Grows ((run {} actions).perform a).2 ∧
      ∀ e s', (run {} actions).perform a = (.error e, s') → a.computes = false →
        s'.held = (run {} actions).held) ∧
    ∀ (i k : Nat) (h : Held) (n : Slot), (run {} actions).held[i]? = some h →
      (run {} actions).made[k]? = some n →
        (((run {} actions).perform (.add i k)).1 = .ok () ∧ (∀ e, ¬ h.graph.Rejects n e) ∧
          ((run {} actions).perform (.add i k)).2.held =
            (run {} actions).held.set i { h with graph := h.graph.insert n }) ∨
        (∃ e, ((run {} actions).perform (.add i k)).1 = .error e ∧ h.graph.Rejects n e ∧
          ((run {} actions).perform (.add i k)).2.held = (run {} actions).held) := by
  -- the run is the image of the one without an index
  obtain ⟨s, hs, hrun⟩ : ∃ s : FlowGraph.Session, s.Sound ∧ run {} actions = s.indexed :=
    ⟨.run {} actions, FlowGraph.Session.sound_empty.run actions,
      FlowGraph.Session.sound_empty.run_indexed actions⟩
  have hperform := FlowGraph.Session.perform_indexed fun h hh => (hs.held h hh).wellFormed.distinct
  simp only [hrun, hperform]
  refine ⟨fun h hh => ?_, fun a => ⟨(hs.perform a).2.indexed, fun e s' hfail ha => ?_⟩, ?_⟩
  · obtain ⟨k, hk, rfl⟩ := List.mem_map.mp hh
    obtain ⟨hwf, hordered⟩ := hs.held k hk
    refine ⟨hwf.indexed, fun hloaded => ?_⟩
    have ho := hordered hloaded
    refine ⟨?_, ?_⟩
    · rw [FlowGraph.Held.indexed, Model.model_indexed]
      exact Model.follows_of_order hwf.distinct ho
    · rw [FlowGraph.Held.indexed, Model.order_indexed hwf.distinct, Model.ids_indexed, ho]
  · rcases hresult : s.perform a with ⟨result, s₁⟩
    rw [hresult] at hfail
    obtain ⟨rfl, rfl⟩ := Prod.mk.inj hfail
    exact congrArg (List.map FlowGraph.Held.indexed) (FlowGraph.Session.held_of_error hresult ha)
  · intro i k h n hi hk
    rw [FlowGraph.Session.held_indexed] at hi
    rw [FlowGraph.Session.made_indexed] at hk
    obtain ⟨h, hheld, rfl⟩ := Option.map_eq_some_iff.mp hi
    obtain ⟨n, hmade, rfl⟩ := Option.map_eq_some_iff.mp hk
    have hd := (hs.held h (List.mem_of_getElem? hheld)).wellFormed.distinct
    simp only [FlowGraph.Held.indexed, Model.rejects_indexed hd]
    rcases FlowGraph.Session.perform_add hheld hmade with ⟨hok, hnone, hafter⟩ |
      ⟨e, herror, hrejects, hafter⟩
    · refine .inl ⟨hok, hnone, ?_⟩
      rw [FlowGraph.Session.indexed, hafter, List.map_set, FlowGraph.Held.indexed,
        Model.indexed_insert]
      rfl
    · exact .inr ⟨e, herror, hrejects, congrArg (List.map FlowGraph.Held.indexed) hafter⟩

/-- A node that reads from nowhere is rejected; it is gone, and the model has the one node still
that it had before. -/
example :
    let s := Indexed.Session.run {} [.start, .make (.input .int 1), .add 0 0,
      .make (.output .int (.single ⟨⟨⟨9⟩, "output"⟩, 0, 1⟩))]
    s.perform (.add 0 0) =
      (.error (.danglingReference ⟨⟨9⟩, "output"⟩ "referenced by input 'input' of node#2"),
        { supply := ⟨2⟩, made := []
          held := [⟨⟨[⟨.input ⟨1⟩ .int 1, 1⟩], [(⟨1⟩, 0)]⟩, false⟩] }) := by
  rfl

end FlowGraph
