import FlowGraph.Proofs.Insertion
import FlowGraph.Session

/-! Whatever a program does, in whatever order and with whatever failures, all models that it holds
are well formed, and those it has not read from an archive are in insertion order. -/
namespace FlowGraph

namespace Model

/-- Why a node cannot be added: its id is taken, or a span of it names no outlet, an outlet of
another type, or more than the outlet has. -/
inductive Rejects (m : Model) (n : Node) : GraphError → Prop
  | duplicate (h : n.id ∈ m.ids) : Rejects m n (.duplicateNode n.id)
  | dangling {i : Inlet} {s : Span} (hi : i ∈ n.inlets) (hs : s ∈ i.selection.spans)
    (h : ∀ o, m.outlet s.source ≠ .ok o) :
    Rejects m n (.danglingReference s.source
      ("referenced by input '" ++ i.name ++ "' of " ++ i.node.text))
  | type {i : Inlet} {s : Span} {o : Outlet} (hi : i ∈ n.inlets) (hs : s ∈ i.selection.spans)
    (ho : m.outlet s.source = .ok o) (h : o.type ≠ i.type) :
    Rejects m n (.typeMismatch (i.node.text ++ "." ++ i.name) i.type o.type)
  | bounds {i : Inlet} {s : Span} {o : Outlet} (hi : i ∈ n.inlets) (hs : s ∈ i.selection.spans)
    (ho : m.outlet s.source = .ok o) (h : o.size < s.stop) :
    Rejects m n (.rangeOutOfBounds s.source s.start.toNat s.stop o.size)

theorem rejects_of_checkSpan {m : Model} {n : Node} {i : Inlet} {s : Span} {e : GraphError}
    (hi : i ∈ n.inlets) (hs : s ∈ i.selection.spans) (h : m.checkSpan i s = .error e) :
    m.Rejects n e := by
  unfold checkSpan at h
  cases ho : m.outlet s.source with
  | error e' =>
    rw [ho] at h
    obtain rfl := Except.error.inj h
    refine .dangling hi hs fun o hok => ?_
    rw [ho] at hok
    cases hok
  | ok o =>
    rw [ho] at h
    by_cases htype : o.type = i.type
    · simp only [htype, ne_eq, not_true, if_false] at h
      split at h
      case isTrue hbound =>
        obtain rfl := Except.error.inj h
        exact .bounds hi hs ho hbound
      case isFalse => cases h
    · simp only [htype, ne_eq, not_false_eq_true, if_true] at h
      obtain rfl := Except.error.inj h
      exact .type hi hs ho htype

theorem rejects_of_add {m : Model} {n : Node} {e : GraphError} (h : m.add n = .error e) :
    m.Rejects n e := by
  unfold add at h
  cases hc : m.contains n.id with
  | true =>
    simp only [hc, if_true] at h
    obtain rfl := Except.error.inj h
    exact .duplicate (contains_iff.mp hc)
  | false =>
    simp only [hc, Bool.false_eq_true, if_false] at h
    cases hcheck : m.checkNode n with
    | ok u =>
      rw [hcheck] at h
      cases h
    | error e' =>
      rw [hcheck] at h
      obtain rfl := Except.error.inj h
      -- the error is that of one span of one inlet
      obtain ⟨i, hi, hinlet⟩ := forM_error hcheck
      obtain ⟨s, hs, hspan⟩ := forM_error hinlet
      exact rejects_of_checkSpan hi hs hspan

/-- A node that can be added gives no reason to reject it. -/
theorem not_rejects_of_add {m m' : Model} {n : Node} (h : m.add n = .ok m') (e : GraphError) :
    ¬ m.Rejects n e := by
  obtain ⟨hfresh, hspans, -⟩ := add_ok.mp h
  -- the outlet that a span names is there, with its type and its elements
  have houtlet : ∀ i ∈ n.inlets, ∀ s ∈ i.selection.spans, ∃ o, m.outlet s.source = .ok o ∧
      o.type = i.type ∧ s.stop ≤ o.size := by
    intro i hi s hs
    obtain ⟨k, hk, hname, htype, hstop⟩ := hspans s (Node.mem_spans.mpr ⟨i, hi, hs⟩)
    exact ⟨k.outlet, outlet_ok.mpr ⟨k, hk, hname, rfl⟩, htype.trans (Node.inlet_type hi).symm,
      hstop⟩
  intro hrejects
  cases hrejects with
  | duplicate hmem => exact hfresh hmem
  | dangling hi hs hnone =>
    obtain ⟨o, ho, -⟩ := houtlet _ hi _ hs
    exact hnone o ho
  | type hi hs ho htype =>
    obtain ⟨o, ho', heq, -⟩ := houtlet _ hi _ hs
    obtain rfl := Except.ok.inj (ho.symm.trans ho')
    exact htype heq
  | bounds hi hs ho hbound =>
    obtain ⟨o, ho', -, hstop⟩ := houtlet _ hi _ hs
    obtain rfl := Except.ok.inj (ho.symm.trans ho')
    omega

/-- A node goes to the end of the model, unless there is a reason to reject it. -/
theorem add_cases (m : Model) (n : Node) :
    (m.add n = .ok (m.insert n) ∧ ∀ e, ¬ m.Rejects n e) ∨
    (∃ e, m.add n = .error e ∧ m.Rejects n e) := by
  cases hadd : m.add n with
  | ok m' =>
    left
    obtain ⟨-, -, rfl⟩ := add_ok.mp hadd
    exact ⟨rfl, not_rejects_of_add hadd⟩
  | error e => exact .inr ⟨e, rfl, rejects_of_add hadd⟩

/-- Every node is still there, with at most other values in it. -/
def Grows (m m' : Model) : Prop := ∀ n ∈ m.nodes, ∃ n' ∈ m'.nodes, n.SameShape n'

theorem Grows.refl (m : Model) : m.Grows m := fun n hn => ⟨n, hn, .refl n⟩

theorem Revalues.grows {m m' : Model} (h : m.Revalues m') : m.Grows m' := by
  obtain ⟨g, hg, rfl⟩ := h
  exact fun n hn => ⟨g n, List.mem_map_of_mem hn, (hg n hn).1⟩

theorem Revalues.refl {m : Model} (hm : m.WellFormed) : m.Revalues m := by
  refine ⟨id, fun n hn => ⟨.refl n, hm.sized n hn⟩, ?_⟩
  rw [mapNodes, List.map_id]

theorem Rebuffers.revalues {m m' : Model} (h : m.Rebuffers m') (hm : m.WellFormed) :
    m.Revalues m' := by
  obtain ⟨g, hg, rfl⟩ := h
  exact ⟨g, fun n hn => ⟨(hg n hn).sameShape, (hg n hn).sized (hm.sized n hn)⟩, rfl⟩

end Model

theorem Recipe.make_sized {r : Recipe} {id : NodeId} {n : Node} (h : r.make id = .ok n) :
    n.Sized := by
  cases r with
  | input t dimension =>
    obtain rfl := Except.ok.inj h
    exact rfl
  | constant t values =>
    obtain rfl := Except.ok.inj h
    exact List.length_replicate.symm
  | output t source =>
    obtain rfl := Except.ok.inj h
    exact List.length_replicate.symm
  | operation t numeric op left right => exact (Node.operation_ok h).2

theorem Node.setInputOf_ok {n n' : Node} {t : ElementType} {values : List t.Value}
    (h : n.setInputOf t values = .ok n') : n.SameShape n' ∧ (n.Sized → n'.Sized) := by
  unfold setInputOf at h
  split at h
  case isTrue =>
    obtain ⟨hshape, hsized⟩ := setInput_ok h
    exact ⟨hshape, fun _ => hsized⟩
  case isFalse =>
    obtain rfl := Except.ok.inj h
    exact ⟨.refl n, fun hn => hn⟩

namespace Model

theorem setInput_ok {m m' : Model} {id : NodeId} {t : ElementType} {values : List t.Value}
    (hm : m.WellFormed) (h : m.setInput id t values = .ok m') : m.Revalues m' := by
  unfold setInput at h
  cases hn : m.node? id with
  | none =>
    rw [hn] at h
    obtain rfl := Except.ok.inj h
    exact .refl hm
  | some n =>
    rw [hn] at h
    obtain ⟨n', hset, hreplace⟩ := bind_ok.mp h
    obtain rfl := pure_ok.mp hreplace
    have hmem := (node?_eq_some hn).1
    obtain ⟨hshape, hsized⟩ := Node.setInputOf_ok hset
    exact revalues_replace hm hmem hshape (hsized (hm.sized n hmem))

theorem setInputTexts_ok {m m' : Model} {id : NodeId} {texts : List String}
    (hm : m.WellFormed) (h : m.setInputTexts id texts = .ok m') : m.Revalues m' := by
  simp only [setInputTexts, bind_ok, pure_ok, node_ok] at h
  obtain ⟨n, hn, n', hset, rfl⟩ := h
  obtain ⟨values, -, hvalues⟩ := Node.setInputTexts_ok hset
  obtain ⟨hshape, hsized⟩ := Node.setInput_ok hvalues
  exact revalues_replace hm (node?_eq_some hn).1 hshape hsized

end Model

/-- What holds of every model that a program holds. -/
structure Held.Sound (h : Held) : Prop where
  wellFormed : h.model.WellFormed
  ordered : h.loaded = false → h.model.order = .ok h.model.ids

namespace Held.Sound

variable {h : Held}

theorem start : Held.Sound {} where
  wellFormed := Model.wellFormed_empty
  ordered := fun _ => rfl

theorem revalues (hh : h.Sound) {m : Model} (hm : h.model.Revalues m) :
    Held.Sound { h with model := m } where
  wellFormed := hm.wellFormed hh.wellFormed
  ordered := by
    intro hloaded
    have ho := hm.order (hh.ordered hloaded)
    rwa [← hm.ids] at ho

theorem add (hh : h.Sound) {n : Node} (hn : n.Sized) {m : Model} (hadd : h.model.add n = .ok m) :
    Held.Sound { h with model := m } where
  wellFormed := by
    obtain ⟨hfresh, hreads, rfl⟩ := Model.add_ok.mp hadd
    exact Model.wellFormed_insert hh.wellFormed hn hfresh hreads
  ordered := fun hloaded => Model.order_add (hh.ordered hloaded) hadd

end Held.Sound

namespace Session

/-- All models are sound, and so will be those to which the other nodes are added. -/
structure Sound (s : Session) : Prop where
  made : ∀ n ∈ s.made, n.Sized
  held : ∀ h ∈ s.held, h.Sound

/-- Every model is still held, with all its nodes. -/
def Grows (s s' : Session) : Prop :=
  ∀ (i : Nat) (h : Held), s.held[i]? = some h → ∃ h' : Held, s'.held[i]? = some h' ∧
    h'.loaded = h.loaded ∧ h.model.Grows h'.model

theorem Grows.of_held_eq {s s' : Session} (h : s'.held = s.held) : s.Grows s' := by
  intro i held hheld
  exact ⟨held, h ▸ hheld, rfl, .refl _⟩

theorem sound_empty : Sound {} where
  made := by simp
  held := by simp

/-- Holding one more model moves none of the others. -/
theorem Sound.hold {s : Session} (hs : s.Sound) {h : Held} (hh : h.Sound) (supply : Supply) :
    Sound { s with supply, held := s.held ++ [h] } ∧
      s.Grows { s with supply, held := s.held ++ [h] } := by
  constructor
  · refine ⟨hs.made, fun k hk => ?_⟩
    rcases List.mem_append.mp hk with hk | hk
    · exact hs.held k hk
    · rw [List.mem_singleton.mp hk]
      exact hh
  · intro i k hi
    have hlt : i < s.held.length := (List.getElem?_eq_some_iff.mp hi).1
    exact ⟨k, (List.getElem?_append_left hlt).trans hi, rfl, .refl _⟩

theorem Sound.change {s : Session} (hs : s.Sound) {i : Nat}
    {f : Model → Except GraphError Unit × Model}
    (hf : ∀ h ∈ s.held, Held.Sound { h with model := (f h.model).2 } ∧
      h.model.Grows (f h.model).2) :
    (s.change i f).2.Sound ∧ s.Grows (s.change i f).2 := by
  unfold Session.change
  cases hi : s.held[i]? with
  | none => exact ⟨hs, .of_held_eq rfl⟩
  | some h =>
    obtain ⟨hsound, hgrows⟩ := hf h (List.mem_of_getElem? hi)
    constructor
    · refine ⟨hs.made, fun k hk => ?_⟩
      rcases List.mem_or_eq_of_mem_set hk with hk | rfl
      · exact hs.held k hk
      · exact hsound
    · -- every other place holds the model that it held before
      intro j k hk
      by_cases hij : i = j
      · subst hij
        obtain rfl : h = k := Option.some.inj (hi.symm.trans hk)
        exact ⟨_, List.getElem?_set_self (List.getElem?_eq_some_iff.mp hi).1, rfl, hgrows⟩
      · exact ⟨k, by rw [List.getElem?_set_ne hij, hk], rfl, .refl _⟩

theorem Sound.keep {s : Session} (hs : s.Sound) {loaded : Bool} {d : Drawing Model}
    (hd : ∀ m s', d.runWith s.supply = (.ok m, s') → Held.Sound ⟨m, loaded⟩) :
    (s.keep loaded d).2.Sound ∧ s.Grows (s.keep loaded d).2 := by
  unfold Session.keep
  rcases hrun : d.runWith s.supply with ⟨result, supply⟩
  cases result with
  | error e => exact ⟨⟨hs.made, hs.held⟩, .of_held_eq rfl⟩
  | ok m => exact hs.hold (hd m supply hrun) supply

/-- An attempt that fails changes nothing. -/
theorem attempt_sound {h : Held} (hh : h.Sound) {result : Except GraphError Model}
    (hr : ∀ m, result = .ok m → Held.Sound { h with model := m } ∧ h.model.Grows m) :
    Held.Sound { h with model := (h.model.attempt result).2 } ∧
      h.model.Grows (h.model.attempt result).2 := by
  cases hresult : result with
  | error e => exact ⟨hh, .refl _⟩
  | ok m => exact hr m hresult

/-- One step: an action keeps all models sound, whether it fails or not. -/
theorem Sound.perform {s : Session} (hs : s.Sound) (a : Action) :
    (s.perform a).2.Sound ∧ s.Grows (s.perform a).2 := by
  cases a with
  | make r =>
    simp only [Session.perform]
    cases hn : r.make s.supply.draw.1 with
    | error e => exact ⟨⟨hs.made, hs.held⟩, .of_held_eq rfl⟩
    | ok n =>
      refine ⟨⟨fun k hk => ?_, hs.held⟩, .of_held_eq rfl⟩
      rcases List.mem_append.mp hk with hk | hk
      · exact hs.made k hk
      · rw [List.mem_singleton.mp hk]
        exact Recipe.make_sized hn
  | prepare k t values =>
    simp only [Session.perform]
    cases hk : s.made[k]? with
    | none => exact ⟨hs, .of_held_eq rfl⟩
    | some n =>
      cases hn : n.setInputOf t values with
      | error e =>
        simp only [hn]
        exact ⟨hs, .of_held_eq rfl⟩
      | ok n' =>
        simp only [hn]
        refine ⟨⟨fun j hj => ?_, hs.held⟩, .of_held_eq rfl⟩
        rcases List.mem_or_eq_of_mem_set hj with hj | rfl
        · exact hs.made j hj
        · exact (Node.setInputOf_ok hn).2 (hs.made n (List.mem_of_getElem? hk))
  | start => exact hs.hold .start s.supply
  | add i k =>
    simp only [Session.perform]
    cases hk : s.made[k]? with
    | none => exact ⟨hs, .of_held_eq rfl⟩
    | some n =>
      have hn := hs.made n (List.mem_of_getElem? hk)
      have hrest : Sound { s with made := s.made.eraseIdx k } :=
        ⟨fun j hj => hs.made j (List.mem_of_mem_eraseIdx hj), hs.held⟩
      apply hrest.change
      intro h hh
      apply attempt_sound (hs.held h hh)
      intro m hadd
      refine ⟨(hs.held h hh).add hn hadd, ?_⟩
      -- the nodes that were there are the first ones still
      obtain ⟨-, -, rfl⟩ := Model.add_ok.mp hadd
      exact fun old hold => ⟨old, List.mem_append_left _ hold, .refl old⟩
  | setInput i id t values =>
    apply hs.change
    intro h hh
    apply attempt_sound (hs.held h hh)
    intro m hset
    have hr : h.model.Revalues m := Model.setInput_ok (hs.held h hh).wellFormed hset
    exact ⟨(hs.held h hh).revalues hr, hr.grows⟩
  | setInputTexts i id texts =>
    apply hs.change
    intro h hh
    apply attempt_sound (hs.held h hh)
    intro m hset
    have hr : h.model.Revalues m := Model.setInputTexts_ok (hs.held h hh).wellFormed hset
    exact ⟨(hs.held h hh).revalues hr, hr.grows⟩
  | compute i =>
    apply hs.change
    intro h hh
    have hwf : h.model.WellFormed := (hs.held h hh).wellFormed
    -- computing that stops half-way has still changed buffers only
    have hr := (Model.rebuffers_compute hwf.distinct).revalues hwf
    exact ⟨(hs.held h hh).revalues hr, hr.grows⟩
  | computeSelection i t e =>
    apply hs.change
    intro h hh
    have hwf : h.model.WellFormed := (hs.held h hh).wellFormed
    have hr := (Model.rebuffers_computeSelection hwf.distinct t e).revalues hwf
    exact ⟨(hs.held h hh).revalues hr, hr.grows⟩
  | load r a =>
    apply hs.keep
    intro m s' hload
    -- an archive lists its nodes in any order
    refine ⟨(Registry.load_wellFormed hload).1, fun hloaded => ?_⟩
    cases hloaded
  | pass i p =>
    simp only [Session.perform]
    cases hi : s.held[i]? with
    | none => exact ⟨hs, .of_held_eq rfl⟩
    | some h =>
      apply hs.keep
      intro m s' hrun
      exact ⟨(Pass.run_wellFormed hrun).1, fun _ => Pass.run_order hrun⟩

/-- The run, by induction on its actions. -/
theorem Sound.run {s : Session} (hs : s.Sound) (actions : List Action) : (s.run actions).Sound := by
  induction actions generalizing s with
  | nil => exact hs
  | cons a rest ih => exact ih (hs.perform a).1

theorem set_self {α : Type} {xs : List α} {i : Nat} {x : α} (h : xs[i]? = some x) :
    xs.set i x = xs := by
  obtain ⟨hlt, rfl⟩ := List.getElem?_eq_some_iff.mp h
  exact List.set_getElem_self hlt

theorem change_attempt_error {s s' : Session} {i : Nat} {f : Model → Except GraphError Model}
    {e : GraphError} (h : s.change i (fun m => m.attempt (f m)) = (.error e, s')) :
    s' = s := by
  unfold Session.change at h
  cases hi : s.held[i]? with
  | none =>
    rw [hi] at h
    cases h
  | some held =>
    rw [hi] at h
    cases hf : f held.model with
    | ok m => simp [hf, Model.attempt] at h
    | error e' =>
      simp only [hf, Model.attempt, Prod.mk.injEq] at h
      rw [← h.2, set_self hi]

theorem keep_error {s s' : Session} {loaded : Bool} {d : Drawing Model} {e : GraphError}
    (h : s.keep loaded d = (.error e, s')) : s'.held = s.held := by
  unfold Session.keep at h
  rcases hrun : d.runWith s.supply with ⟨result, supply⟩
  rw [hrun] at h
  cases result with
  | ok m => cases h
  | error e' =>
    obtain rfl := (Prod.mk.inj h).2
    rfl

/-- An action that fails leaves all models as they were, unless it computes. -/
theorem held_of_error {s s' : Session} {a : Action} {e : GraphError}
    (h : s.perform a = (.error e, s')) (ha : a.computes = false) : s'.held = s.held := by
  cases a with
  | make r =>
    simp only [Session.perform] at h
    split at h
    · cases h
    · obtain rfl := (Prod.mk.inj h).2
      rfl
  | prepare k t values =>
    simp only [Session.perform] at h
    split at h
    · split at h
      · cases h
      · obtain rfl := (Prod.mk.inj h).2
        rfl
    · cases h
  | start => cases h
  | add i k =>
    simp only [Session.perform] at h
    split at h
    · obtain rfl := change_attempt_error h
      rfl
    · cases h
  | setInput i id t values =>
    simp only [Session.perform] at h
    obtain rfl := change_attempt_error h
    rfl
  | setInputTexts i id texts =>
    simp only [Session.perform] at h
    obtain rfl := change_attempt_error h
    rfl
  | compute i => cases ha
  | computeSelection i t e' => cases ha
  | load r a => exact keep_error h
  | pass i p =>
    simp only [Session.perform] at h
    split at h
    · exact keep_error h
    · cases h

theorem perform_add {s : Session} {i k : Nat} {h : Held} {n : Node} (hi : s.held[i]? = some h)
    (hk : s.made[k]? = some n) :
    ((s.perform (.add i k)).1 = .ok () ∧ (∀ e, ¬ h.model.Rejects n e) ∧
      (s.perform (.add i k)).2.held = s.held.set i { h with model := h.model.insert n }) ∨
    (∃ e, (s.perform (.add i k)).1 = .error e ∧ h.model.Rejects n e ∧
      (s.perform (.add i k)).2.held = s.held) := by
  simp only [Session.perform, Session.change, hk, hi]
  rcases h.model.add_cases n with ⟨hadd, hnone⟩ | ⟨e, hadd, hrejects⟩
  · left
    rw [hadd]
    exact ⟨rfl, hnone, rfl⟩
  · right
    rw [hadd]
    exact ⟨e, rfl, hrejects, set_self hi⟩

end Session

end FlowGraph
