import FlowGraph.Proofs.Pipeline
import FlowGraph.Proofs.Refolding
import FlowGraph.Proofs.Session

/-! Values that were set or computed stay where they are. Archives and passes see a model as it is
when all of them are defaults again, and that is the same before and after. -/
namespace FlowGraph

/-- The node as it is when nobody has set or computed it. -/
def Node.reset (n : Node) : Node :=
  match n.body with
  | .input _ => .input n.id n.type n.size
  | _ => { n with buffer := List.replicate n.size n.type.default }

namespace Node

theorem sameShape_reset (n : Node) : n.SameShape n.reset := by
  rcases n with ⟨id, t, body, buffer⟩
  cases body <;> exact ⟨rfl, rfl, List.length_replicate, rfl⟩

theorem isOutput_reset (n : Node) : n.reset.isOutput = n.isOutput := by
  rcases n with ⟨id, t, body, buffer⟩
  cases body <;> rfl

/-- Of its outlet only the number of values is left. -/
theorem outlet_reset (n : Node) : n.reset.outlet = .blank n.address n.type n.size := by
  rcases n with ⟨id, t, body, buffer⟩
  cases body <;> rfl

theorem Rebuffers.reset_eq {n n' : Node} (h : n.Rebuffers n') : n'.reset = n.reset := by
  rcases n with ⟨id, t, body, buffer⟩
  obtain ⟨values, hvalues, rfl⟩ := h
  have hsize : values.length = buffer.length := hvalues
  cases body <;> simp only [reset, size, hsize]

theorem reset_setInput {n n' : Node} {values : List n.type.Value}
    (h : n.setInput values = .ok n') : n'.reset = n.reset := by
  rcases n with ⟨id, t, body, buffer⟩
  cases body with
  | input given =>
    simp only [setInput] at h
    split at h
    case isTrue =>
      obtain rfl := Except.ok.inj h
      rfl
    case isFalse => cases h
  | _ => cases h

theorem reset_setInputOf {n n' : Node} {t : ElementType} {values : List t.Value}
    (h : n.setInputOf t values = .ok n') : n'.reset = n.reset := by
  unfold setInputOf at h
  split at h
  case isTrue => exact reset_setInput h
  case isFalse =>
    obtain rfl := Except.ok.inj h
    rfl

/-- Nothing that is set or computed is stored. -/
theorem toEntry_reset (n : Node) : n.reset.toEntry = n.toEntry := by
  rcases n with ⟨id, t, body, buffer⟩
  cases body <;>
    simp only [reset, input, toEntry, toArchive, nodeType, inlets, outlet, address,
      Outlet.toArchive, Outlet.size, size, List.length_replicate]

end Node

namespace Model

/-- The model as it is when nobody has set or computed its nodes. -/
def reset (m : Model) : Model := m.mapNodes Node.reset

variable {m m' : Model}

theorem toArchive_reset (m : Model) : m.reset.toArchive = m.toArchive := by
  simp only [toArchive, reset, mapNodes, Archive.Value.ofList, List.map_map]
  simp only [Function.comp_def, Node.toEntry_reset]

theorem Rebuffers.reset_eq (h : m.Rebuffers m') : m'.reset = m.reset := by
  obtain ⟨g, hg, rfl⟩ := h
  simp only [reset, mapNodes, List.map_map]
  exact congrArg _ (List.map_congr_left fun n hn => (hg n hn).reset_eq)

theorem reset_replace (hd : m.ids.Nodup) {n n' : Node} (hn : n ∈ m.nodes)
    (h : n'.reset = n.reset) : (m.replace n').reset = m.reset := by
  have hid : n'.id = n.id := by rw [← n'.sameShape_reset.id, h, n.sameShape_reset.id]
  simp only [reset, mapNodes, replace, List.map_map]
  refine congrArg _ (List.map_congr_left fun old hold => ?_)
  simp only [Function.comp_apply]
  split
  case isTrue hself => rw [h, List.inj_on_of_nodup_map hd hold hn (hself.trans hid)]
  case isFalse => rfl

theorem reset_setInput (hd : m.ids.Nodup) {id : NodeId} {t : ElementType} {values : List t.Value}
    (h : m.setInput id t values = .ok m') : m'.reset = m.reset := by
  unfold setInput at h
  cases hn : m.node? id with
  | none =>
    rw [hn] at h
    obtain rfl := Except.ok.inj h
    rfl
  | some n =>
    rw [hn] at h
    obtain ⟨n', hset, hreplace⟩ := bind_ok.mp h
    obtain rfl := pure_ok.mp hreplace
    exact reset_replace hd (node?_eq_some hn).1 (Node.reset_setInputOf hset)

theorem reset_setInputTexts (hd : m.ids.Nodup) {id : NodeId} {texts : List String}
    (h : m.setInputTexts id texts = .ok m') : m'.reset = m.reset := by
  simp only [setInputTexts, bind_ok, pure_ok, node_ok] at h
  obtain ⟨n, hn, n', hset, rfl⟩ := h
  obtain ⟨values, -, hvalues⟩ := Node.setInputTexts_ok hset
  exact reset_replace hd (node?_eq_some hn).1 (Node.reset_setInput hvalues)

theorem node?_reset (m : Model) (id : NodeId) : m.reset.node? id = (m.node? id).map Node.reset :=
  node?_mapNodes (fun n _ => n.sameShape_reset.id) id

theorem order_reset (h : m.WellFormed) : m.reset.order = m.order := by
  obtain ⟨ids, ho⟩ := h.ordered
  rw [ho]
  exact order_mapNodes (fun n _ => n.sameShape_reset) ho

theorem outputs_reset (h : m.WellFormed) : m.reset.outputs = m.outputs := by
  simp only [outputs, order_reset h, node?_reset, Option.any_map, Node.isOutput_reset]

theorem ancestorsFrom_reset (m : Model) (steps : Nat) (seen stack : List NodeId) :
    m.reset.ancestorsFrom steps seen stack = m.ancestorsFrom steps seen stack := by
  induction steps generalizing seen stack with
  | zero => cases stack <;> rfl
  | succ steps ih =>
    cases stack with
    | nil => rfl
    | cons id rest =>
      simp only [ancestorsFrom, node?_reset, ih]
      cases m.node? id with
      | none => rfl
      | some n => simp only [Option.map_some, n.sameShape_reset.dependencies]

theorem ancestors_reset (m : Model) (roots : List NodeId) :
    m.reset.ancestors roots = m.ancestors roots := by
  have hdependencies : m.reset.nodes.flatMap Node.dependencies =
      m.nodes.flatMap Node.dependencies := by
    simp only [reset, mapNodes, List.flatMap_map, (Node.sameShape_reset _).dependencies]
  rw [ancestors, ancestors, hdependencies, ancestorsFrom_reset]

end Model

/-- An outlet is mapped by its address, its type and its size. -/
theorem Transformer.map_reset (t : Transformer) (n : Node) (e : Selection) :
    t.map n.reset.outlet e = t.map n.outlet e := by
  have hsize : n.reset.outlet.size = n.outlet.size := n.sameShape_reset.size
  rw [Transformer.map, Transformer.map, hsize, n.outlet_reset]
  rfl

namespace Visit

theorem perform_bind_congr {α β : Type} {v : Visit α} {f g : α → Visit β}
    (h : ∀ a w, (f a).perform w = (g a).perform w) (w : Workspace) :
    (v >>= f).perform w = (v >>= g).perform w := by
  simp only [perform_bind, h]

theorem perform_map (old : Outlet) (e : Selection) (w : Workspace) :
    (map old e).perform w = w.update (w.transformer.map old e) () := rfl

theorem perform_substitute_reset (n k : Node) (w : Workspace) :
    (substitute n.reset.outlet k).perform w = (substitute n.outlet k).perform w := by
  simp only [substitute, perform_bind, perform_map, Transformer.map_reset]

end Visit

/-- A visitor that asks a node for nothing that is set or computed. -/
def Node.Blind (visitor : Node → Visit Unit) : Prop :=
  ∀ n w, (visitor n.reset).perform w = (visitor n).perform w

namespace Node

theorem blind_copy : Blind copy := by
  intro n w
  have hsubstitute := Visit.perform_substitute_reset n
  have hsize := n.sameShape_reset.size
  rcases n with ⟨id, t, body, buffer⟩
  cases body with
  | input values =>
    refine Visit.perform_bind_congr (fun id w => ?_) w
    rw [← hsubstitute, ← hsize]
    rfl
  | constant values => exact Visit.perform_bind_congr (fun id => hsubstitute _) w
  | output source =>
    exact Visit.perform_bind_congr (fun source =>
      Visit.perform_bind_congr fun id => hsubstitute _) w
  | operation numeric op left right =>
    exact Visit.perform_bind_congr (fun left => Visit.perform_bind_congr fun right =>
      Visit.perform_bind_congr fun id => Visit.perform_bind_congr fun n' => hsubstitute n') w

theorem blind_fold : Blind fold := by
  intro n w
  have hsubstitute := Visit.perform_substitute_reset n
  have hcopy := n.blind_copy
  rcases n with ⟨id, t, body, buffer⟩
  cases body with
  | input values => exact hcopy w
  | constant values => exact hcopy w
  | output source => exact hcopy w
  | operation numeric op left right =>
    refine Visit.perform_bind_congr (fun left => Visit.perform_bind_congr fun right =>
      Visit.perform_bind_congr fun m w => ?_) w
    -- what the operands come to is looked up in the destination alone
    dsimp only [reset]
    cases m.folded? t op left right with
    | none => exact hcopy w
    | some values => exact Visit.perform_bind_congr (fun id => hsubstitute _) w

end Node

namespace Workspace

/-- Both runs go from the same workspace to the same one at every node. -/
theorem visitAll_reset {visitor : Node → Visit Unit} (hv : Node.Blind visitor) (m : Model)
    (ids : List NodeId) (w : Workspace) :
    visitAll (fun n s => (·, s) <$> (visitor n).run) m.reset ids () w =
      visitAll (fun n s => (·, s) <$> (visitor n).run) m ids () w := by
  induction ids generalizing w with
  | nil => rfl
  | cons id rest ih =>
    simp only [visitAll, Model.node, Model.node?_reset]
    cases m.node? id with
    | none => rfl
    | some n =>
      simp only [Option.map_some, Option.elim_some, Visit.run_paired, hv n, ih]

theorem transform_reset {visitor : Node → Visit Unit} (hv : Node.Blind visitor) {m : Model}
    (h : m.WellFormed) (w : Workspace) :
    transform visitor m.reset w = transform visitor m w := by
  simp only [transform, transformWith, Model.order_reset h, visitAll_reset hv]

end Workspace

theorem Model.rebuild_reset {visitor : Node → Visit Unit} (hv : Node.Blind visitor) {m : Model}
    (h : m.WellFormed) : m.reset.rebuild visitor = m.rebuild visitor := by
  funext s
  simp only [rebuild, Workspace.transform_reset hv h]

/-- A pass is the same drawing from either model, whatever it has drawn from. -/
theorem Pass.run_reset (p : Pass) {m : Model} (h : m.WellFormed) : p.run m.reset = p.run m := by
  cases p with
  | identity => exact Model.rebuild_reset Node.blind_copy h
  | foldConstants => exact Model.rebuild_reset Node.blind_fold h
  | prune =>
    have hlive : ∀ live : List NodeId,
        Node.Blind fun n => if live.contains n.id then n.copy else pure () := by
      intro live n w
      dsimp only
      rw [n.sameShape_reset.id]
      split
      · exact n.blind_copy w
      · rfl
    simp only [run, Model.prune, Model.outputs_reset h, Model.ancestors_reset,
      Model.rebuild_reset (hlive _) h]

theorem Pass.run_fresh (p : Pass) {m : Model} (hwf : m.WellFormed) (ha : m.Allocatable)
    (s : Supply) :
    ∃ r s', (p.run m).runWith s = (.ok r, s') ∧ ∀ n ∈ r.nodes, n.Fresh := by
  obtain ⟨place, live, pairs, r, s', hrun, hcarried⟩ := p.run_carries hwf ha s
  refine ⟨r, s', hrun, fun n' hn' => ?_⟩
  rw [hcarried.nodes] at hn'
  obtain ⟨pair, hpair, rfl⟩ := List.mem_map.mp hn'
  rcases hcarried.kept pair hpair with ⟨-, hfresh⟩ | hfolds
  · exact hfresh
  · exact hfolds.fresh

/-- Setting and computing change no more than values, those of input nodes and those in buffers. -/
def Action.changesValues : Action → Bool
  | setInput _ _ _ _ | setInputTexts _ _ _ | compute _ | computeSelection _ _ _ => true
  | _ => false

theorem Model.reset_attempt {m : Model} {result : Except GraphError Model}
    (h : ∀ m', result = .ok m' → m'.reset = m.reset) : (m.attempt result).2.reset = m.reset := by
  cases result with
  | error e => rfl
  | ok m' => exact h m' rfl

namespace Session

/-- The models that are held, as they are when nobody has set or computed their nodes. -/
def resets (s : Session) : List Model := s.held.map fun h => h.model.reset

theorem resets_change {s : Session} {i : Nat} {f : Model → Except GraphError Unit × Model}
    (hf : ∀ h ∈ s.held, (f h.model).2.reset = h.model.reset) :
    (s.change i f).2.resets = s.resets := by
  unfold Session.change
  cases hi : s.held[i]? with
  | none => rfl
  | some h =>
    rw [resets, List.map_set, hf h (List.mem_of_getElem? hi)]
    exact set_self (by rw [List.getElem?_map, hi, Option.map_some])

/-- One step, whether it fails or not. -/
theorem Sound.resets_perform {s : Session} (hs : s.Sound) {a : Action}
    (ha : a.changesValues = true) : (s.perform a).2.resets = s.resets := by
  have hdistinct : ∀ h ∈ s.held, h.model.ids.Nodup := fun h hh => (hs.held h hh).wellFormed.distinct
  cases a with
  | setInput i id t values =>
    exact resets_change fun h hh =>
      Model.reset_attempt fun m' hset => Model.reset_setInput (hdistinct h hh) hset
  | setInputTexts i id texts =>
    exact resets_change fun h hh =>
      Model.reset_attempt fun m' hset => Model.reset_setInputTexts (hdistinct h hh) hset
  | compute i =>
    exact resets_change fun h hh => (Model.rebuffers_compute (hdistinct h hh)).reset_eq
  | computeSelection i t e =>
    exact resets_change fun h hh => (Model.rebuffers_computeSelection (hdistinct h hh) t e).reset_eq
  | _ => cases ha

/-- The run, by induction on its actions. -/
theorem Sound.resets_run {s : Session} (hs : s.Sound) {actions : List Action}
    (h : ∀ a ∈ actions, a.changesValues = true) : (s.run actions).resets = s.resets := by
  induction actions generalizing s with
  | nil => rfl
  | cons a rest ih =>
    rw [← hs.resets_perform (h a List.mem_cons_self)]
    exact ih (hs.perform a).1 fun b hb => h b (List.mem_cons_of_mem _ hb)

end Session

/-- Values do not leak into archives or passes. Whatever a program has done to get hold of a model,
it may then set inputs, from values and from texts, and compute, in any order and with any failures:
the archive of the model is the one that it was before, and a copy of it, what is left of it by
pruning and what it is folded to are the very same models, under the same ids from the same supply.
All values in these are defaults. -/
theorem Session.values_never_leak (before calls : List Action)
    (hcalls : ∀ a ∈ calls, a.changesValues = true) {i : Nat} {h : Held}
    (hheld : (run {} before).held[i]? = some h) (ha : h.model.Allocatable) :
    ∃ h' : Held, ((run {} before).run calls).held[i]? = some h' ∧
      h'.model.toArchive = h.model.toArchive ∧
      (∀ w, Workspace.copy h'.model w = Workspace.copy h.model w) ∧
      (∀ (p : Pass) s, (p.run h'.model).runWith s = (p.run h.model).runWith s) ∧
      (∀ s, ∃ c s', Workspace.copy h.model ⟨s, .idle⟩ = (.ok c, ⟨s', .idle⟩) ∧
        ∀ n ∈ c.nodes, n.Fresh) ∧
      ∀ (p : Pass) s, ∃ r s', (p.run h.model).runWith s = (.ok r, s') ∧
        ∀ n ∈ r.nodes, n.Fresh := by
  have hsound : (run {} before).Sound := sound_empty.run before
  have hafter : ((run {} before).run calls).Sound := hsound.run calls
  have hresets : (((run {} before).run calls).resets)[i]? = some h.model.reset := by
    rw [hsound.resets_run hcalls, resets, List.getElem?_map, hheld, Option.map_some]
  rw [resets, List.getElem?_map, Option.map_eq_some_iff] at hresets
  obtain ⟨h', hheld', hreset⟩ := hresets
  have hwf : h.model.WellFormed := (hsound.held h (List.mem_of_getElem? hheld)).wellFormed
  have hwf' : h'.model.WellFormed := (hafter.held h' (List.mem_of_getElem? hheld')).wellFormed
  refine ⟨h', hheld', ?_, fun w => ?_, fun p s => ?_, fun s => ?_, fun p s => p.run_fresh hwf ha s⟩
  · rw [← h'.model.toArchive_reset, hreset, h.model.toArchive_reset]
  · simp only [Workspace.copy]
    rw [← Workspace.transform_reset Node.blind_copy hwf', hreset,
      Workspace.transform_reset Node.blind_copy hwf]
  · rw [← p.run_reset hwf', hreset, p.run_reset hwf]
  · obtain ⟨c, s', hrun, hfresh⟩ := Pass.identity.run_fresh hwf ha s
    exact ⟨c, s', Workspace.transform_of_rebuild hrun, hfresh⟩

/-- Builds six divided by an input. -/
def quotientActions : List Action :=
  [.start, .make (.input .int 1), .add 0 0, .make (.constant .int [(6 : Int32)]), .add 0 0,
    .make (.operation .int ElementType.isNumeric_int .divide (.single ⟨⟨⟨2⟩, "output"⟩, 0, 1⟩)
      (.single ⟨⟨⟨1⟩, "output"⟩, 0, 1⟩)), .add 0 0,
    .make (.output .int (.single ⟨⟨⟨3⟩, "output"⟩, 0, 1⟩)), .add 0 0]

/-- Divides by zero, sets what is no number, and then divides by three. -/
def quotientCalls : List Action :=
  [.compute 0, .setInputTexts 0 ⟨1⟩ ["three"], .setInput 0 ⟨1⟩ .int [(3 : Int32)], .compute 0]

theorem values_never_leak_quotient :
    (∀ a ∈ quotientCalls, a.changesValues = true) ∧ quotientModel.Allocatable ∧
      (Session.run {} quotientActions).held[0]? = some ⟨quotientModel, false⟩ ∧
      ∃ h' : Held, ((Session.run {} quotientActions).run quotientCalls).held[0]? = some h' ∧
        h'.model.buffer? .int ⟨4⟩ = some [(2 : Int32)] ∧
          h'.model.toArchive = quotientModel.toArchive ∧
            ∀ (p : Pass) s, (p.run h'.model).runWith s = (p.run quotientModel).runWith s := by
  have hcalls : ∀ a ∈ quotientCalls, a.changesValues = true := by decide
  have hheld : (Session.run {} quotientActions).held[0]? = some ⟨quotientModel, false⟩ := rfl
  obtain ⟨h', hheld', harchive, -, hpass, -, -⟩ :=
    Session.values_never_leak quotientActions quotientCalls hcalls hheld quotientModel_allocatable
  have hbuffer : (((Session.run {} quotientActions).run quotientCalls).held[0]?.bind
      fun h => h.model.buffer? .int ⟨4⟩) = some [(2 : Int32)] := rfl
  rw [hheld'] at hbuffer
  exact ⟨hcalls, quotientModel_allocatable, hheld, h', hheld', hbuffer, harchive, hpass⟩

end FlowGraph
