import FlowGraph.Proofs.Computing
import FlowGraph.Proofs.Insertion

/-! Transforms as their visitor sees them: whatever it asks, the transformer answers from the model
that has been built so far, and it is idle in the end. -/
namespace FlowGraph

/-- A request and its answer. -/
structure Exchange where
  request : Request
  answer : request.Answer

namespace Exchange

/-- The node that was added, if one was. -/
def added? : Exchange → Option Node
  | ⟨.add n, Except.ok _⟩ => some n
  | _ => none

/-- The answer is that of a transformer that has built `m` so far, and has built `m'` then. -/
def Builds (m m' : Model) : Exchange → Prop
  | ⟨.add n, Except.ok id⟩ => id = n.id ∧ m.add n = .ok m'
  | ⟨.add n, Except.error e⟩ => m.add n = .error e ∧ m' = m
  | ⟨.destination, answer⟩ => answer = .ok m ∧ m' = m
  | ⟨.isTransforming, answer⟩ => answer = true ∧ m' = m
  | ⟨.restart, answer⟩ => answer = .error .transformerBusy ∧ m' = m
  | _ => m' = m

/-- Only a node that is added changes the model. -/
theorem Builds.added {m m' : Model} {x : Exchange} (h : x.Builds m m') :
    (∃ n, x.added? = some n ∧ m.add n = .ok m') ∨ (x.added? = none ∧ m' = m) := by
  rcases x with ⟨r, answer⟩
  cases r with
  | add n =>
    cases answer with
    | ok id => exact .inl ⟨n, rfl, h.2⟩
    | error e => exact .inr ⟨rfl, h.2⟩
  | destination => exact .inr ⟨rfl, h.2⟩
  | isTransforming => exact .inr ⟨rfl, h.2⟩
  | restart => exact .inr ⟨rfl, h.2⟩
  | draw => exact .inr ⟨rfl, h⟩
  | map old e => exact .inr ⟨rfl, h⟩
  | corresponding address => exact .inr ⟨rfl, h⟩
  | relocate e => exact .inr ⟨rfl, h⟩

end Exchange

/-- Exchanges one after the other, with which `m` becomes `m'`. -/
def Exchanges : Model → List Exchange → Model → Prop
  | m, [], m' => m' = m
  | m, x :: rest, m' => ∃ m₁, x.Builds m m₁ ∧ Exchanges m₁ rest m'

namespace Exchanges

variable {m m₁ m' : Model} {first rest : List Exchange}

theorem append (hfirst : Exchanges m first m₁) (hrest : Exchanges m₁ rest m') :
    Exchanges m (first ++ rest) m' := by
  induction first generalizing m with
  | nil =>
    obtain rfl : m₁ = m := hfirst
    exact hrest
  | cons x first ih =>
    obtain ⟨k, hx, hk⟩ := hfirst
    exact ⟨k, hx, ih hk⟩

theorem nodes (h : Exchanges m first m') :
    m'.nodes = m.nodes ++ first.filterMap Exchange.added? := by
  induction first generalizing m with
  | nil =>
    obtain rfl : m' = m := h
    exact (List.append_nil _).symm
  | cons x first ih =>
    obtain ⟨k, hx, hk⟩ := h
    rw [ih hk]
    rcases hx.added with ⟨n, hn, hadd⟩ | ⟨hn, rfl⟩
    · obtain ⟨-, -, rfl⟩ := Model.add_ok.mp hadd
      rw [List.filterMap_cons_some hn, Model.insert, List.append_assoc, List.singleton_append]
    · rw [List.filterMap_cons_none hn]

end Exchanges

/-- What a model that was built node by node is like, whatever the nodes are. -/
structure Model.Built (m : Model) : Prop where
  distinct : m.ids.Nodup
  resolves : ∀ n ∈ m.nodes, ∀ s ∈ n.spans, s.Resolves m n.type
  follows : Follows [] m.nodes

theorem Model.built_empty : Model.empty.Built where
  distinct := List.nodup_nil
  resolves := by simp [Model.empty]
  follows := trivial

/-- A node is added behind all that it reads. -/
theorem Model.Built.add {m m' : Model} {n : Node} (h : m.Built) (hadd : m.add n = .ok m') :
    m'.Built := by
  obtain ⟨hfresh, hreads, rfl⟩ := Model.add_ok.mp hadd
  refine ⟨Model.nodup_insert.mpr ⟨h.distinct, hfresh⟩, fun k hk s hs => ?_, ?_⟩
  · rcases List.mem_append.mp hk with hk | hk
    · exact Model.resolves_insert (h.resolves k hk s hs)
    · rw [List.mem_singleton.mp hk] at hs ⊢
      exact Model.resolves_insert (hreads s hs)
  · refine follows_append.mpr ⟨h.follows, fun id hid => ?_, trivial⟩
    obtain ⟨s, hs, rfl⟩ := Node.mem_dependencies.mp hid
    exact Model.resolves_mem (hreads s hs)

theorem Model.Built.validate {m : Model} (h : m.Built) : m.validate = .ok () :=
  Model.validate_ok.mpr ⟨h.resolves, m.ids, Model.order_of_follows h.follows⟩

/-- By induction on the exchanges. -/
theorem Exchanges.built {m m' : Model} {seen : List Exchange} (hm : m.Built)
    (h : Exchanges m seen m') : m'.Built := by
  induction seen generalizing m with
  | nil =>
    obtain rfl : m' = m := h
    exact hm
  | cons x rest ih =>
    obtain ⟨m₁, hx, hrest⟩ := h
    refine ih ?_ hrest
    rcases hx.added with ⟨n, -, hadd⟩ | ⟨-, rfl⟩
    · exact hm.add hadd
    · exact hm

/-- One request to a transformer that is building a model. -/
theorem Workspace.respond_builds {w : Workspace} {c : Transformer.Context}
    (hw : w.transformer = ⟨some c⟩) (r : Request) :
    ∃ c', (w.respond r).2.transformer = ⟨some c'⟩ ∧
      Exchange.Builds c.destination c'.destination ⟨r, (w.respond r).1⟩ := by
  obtain ⟨supply, transformer⟩ := w
  obtain rfl : transformer = ⟨some c⟩ := hw
  cases r with
  | add n =>
    cases hadd : c.destination.add n with
    | error e =>
      refine ⟨c, ?_⟩
      simp [respond, update, Transformer.add, Transformer.running, hadd, bind, Except.bind,
        Exchange.Builds]
    | ok m =>
      have ht := Transformer.add_ok.mpr ⟨m, hadd, rfl⟩
      refine ⟨{ c with destination := m }, ?_⟩
      simp [respond, update, ht, hadd, Exchange.Builds]
  | map old e =>
    cases hmap : Transformer.map ⟨some c⟩ old e with
    | error e =>
      refine ⟨c, ?_⟩
      simp [respond, update, hmap, Exchange.Builds]
    | ok t =>
      obtain ⟨-, -, rfl⟩ := Transformer.map_ok.mp hmap
      refine ⟨{ c with mapping := (old.address, e) :: c.mapping }, ?_⟩
      simp [respond, update, hmap, Exchange.Builds]
  | draw => exact ⟨c, rfl, rfl⟩
  | corresponding address => exact ⟨c, rfl, rfl⟩
  | relocate e => exact ⟨c, rfl, rfl⟩
  | destination => exact ⟨c, rfl, rfl, rfl⟩
  | isTransforming => exact ⟨c, rfl, rfl, rfl⟩
  | restart => exact ⟨c, rfl, rfl, rfl⟩

/-- The same requests, with a list of them and of their answers. -/
def Script.watched {α : Type} : Script α → Script (α × List Exchange)
  | done a => done (a, [])
  | ask r next => ask r fun answer => do
    let (a, rest) ← (next answer).watched
    return (a, ⟨r, answer⟩ :: rest)

/-- The run of a script, by induction on its requests. -/
theorem Script.watched_run {α : Type} (p : Script α) {w : Workspace} {c : Transformer.Context}
    (hw : w.transformer = ⟨some c⟩) :
    ∃ seen c', p.watched.run w = (((p.run w).1, seen), (p.run w).2) ∧
      (p.run w).2.transformer = ⟨some c'⟩ ∧
        Exchanges c.destination seen c'.destination := by
  induction p generalizing w c with
  | done a => exact ⟨[], c, rfl, hw, rfl⟩
  | ask r next ih =>
    obtain ⟨c₁, hw₁, hx⟩ := Workspace.respond_builds hw r
    obtain ⟨seen, c', hrun, hw', hseen⟩ := ih (w.respond r).1 hw₁
    refine ⟨⟨r, (w.respond r).1⟩ :: seen, c', ?_, hw', c₁.destination, hx, hseen⟩
    have hask := Script.run_bind (next (w.respond r).1).watched
      (fun p => (pure (p.1, ⟨r, (w.respond r).1⟩ :: p.2) : Script (α × List Exchange)))
      (w.respond r).2
    rw [hrun] at hask
    exact hask

/-- One call of a visitor. -/
structure Call where
  node : Node
  exchanges : List Exchange
  outcome : Except GraphError Unit

namespace Workspace

variable {σ : Type}

/-- The same visitor, with a list of its calls. -/
def watching (visitor : Node → σ → Script (Except GraphError Unit × σ)) (n : Node) :
    σ × List Call → Script (Except GraphError Unit × σ × List Call)
  | (s, calls) => do
    let ((outcome, s), exchanges) ← (visitor n s).watched
    return (outcome, s, calls ++ [⟨n, exchanges, outcome⟩])

/-- One call. -/
theorem watching_run (visitor : Node → σ → Script (Except GraphError Unit × σ)) (n : Node) (s : σ)
    (calls : List Call) {w : Workspace} {c : Transformer.Context}
    (hw : w.transformer = ⟨some c⟩) :
    ∃ outcome s' w' exchanges c', (visitor n s).run w = ((outcome, s'), w') ∧
      (watching visitor n (s, calls)).run w =
        ((outcome, s', calls ++ [⟨n, exchanges, outcome⟩]), w') ∧
      w'.transformer = ⟨some c'⟩ ∧ Exchanges c.destination exchanges c'.destination := by
  obtain ⟨seen, c', hrun, hw', hseen⟩ := Script.watched_run (visitor n s) hw
  refine ⟨_, _, _, seen, c', rfl, ?_, hw', hseen⟩
  rw [watching, Script.run_bind, hrun]
  rfl

/-- The visitor was called on the nodes one after the other, up to the first failure. -/
def CalledOn (listed : List Node) (calls : List Call) : Except GraphError Unit → Prop
  | .ok () => calls.map Call.node = listed ∧ ∀ call ∈ calls, call.outcome = .ok ()
  | .error e => ∃ before n exchanges, calls = before ++ [⟨n, exchanges, .error e⟩] ∧
      calls.map Call.node <+: listed ∧ ∀ call ∈ before, call.outcome = .ok ()

theorem CalledOn.cons {listed : List Node} {calls : List Call} {result : Except GraphError Unit}
    (h : CalledOn listed calls result) (n : Node) (exchanges : List Exchange) :
    CalledOn (n :: listed) (⟨n, exchanges, .ok ()⟩ :: calls) result := by
  cases result with
  | ok u =>
    obtain ⟨hnodes, hoks⟩ := h
    exact ⟨by rw [List.map_cons, hnodes], List.forall_mem_cons.mpr ⟨rfl, hoks⟩⟩
  | error e =>
    obtain ⟨before, k, failing, rfl, hnodes, hoks⟩ := h
    exact ⟨⟨n, exchanges, .ok ()⟩ :: before, k, failing, rfl,
      by rwa [List.map_cons, List.prefix_cons_inj], List.forall_mem_cons.mpr ⟨rfl, hoks⟩⟩

/-- All calls, by induction on the nodes that are still to be visited. -/
theorem visitAll_watching (visitor : Node → σ → Script (Except GraphError Unit × σ))
    {source : Model} {listed : List Node} (hlisted : ∀ n ∈ listed, source.node n.id = .ok n)
    (s : σ) (calls : List Call) {w : Workspace} {c : Transformer.Context}
    (hw : w.transformer = ⟨some c⟩) :
    ∃ result s' w' more c',
      visitAll visitor source (listed.map Node.id) s w = (result, s', w') ∧
      visitAll (watching visitor) source (listed.map Node.id) (s, calls) w =
        (result, (s', calls ++ more), w') ∧
      CalledOn listed more result ∧ w'.transformer = ⟨some c'⟩ ∧
      Exchanges c.destination (more.flatMap Call.exchanges) c'.destination := by
  induction listed generalizing s calls w c with
  | nil => exact ⟨.ok (), s, w, [], c, rfl, by simp [visitAll], ⟨rfl, by simp⟩, hw, rfl⟩
  | cons n rest ih =>
    obtain ⟨outcome, s₁, w₁, exchanges, c₁, hrun, hwatched, hw₁, hx⟩ :=
      watching_run visitor n s calls hw
    have hn := hlisted n List.mem_cons_self
    cases outcome with
    | error e =>
      refine ⟨.error e, s₁, w₁, [⟨n, exchanges, .error e⟩], c₁, ?_, ?_, ?_, hw₁, by simpa using hx⟩
      · simp only [List.map_cons, visitAll, hn, hrun]
      · simp only [List.map_cons, visitAll, hn, hwatched]
      · exact ⟨[], n, exchanges, rfl, by simp, by simp⟩
    | ok u =>
      -- the node is marked, which does not touch the destination
      have hvisit : w₁.transformer.visit n.id =
          .ok ⟨some { c₁ with visited := n.id :: c₁.visited }⟩ := by
        rw [hw₁]
        rfl
      obtain ⟨result, s', w', more, c', hall, hallWatched, hcalled, hw', hrest⟩ :=
        ih (fun k hk => hlisted k (List.mem_cons_of_mem n hk)) s₁
          (calls ++ [⟨n, exchanges, .ok ()⟩])
          (w := { w₁ with transformer := ⟨some { c₁ with visited := n.id :: c₁.visited }⟩ }) rfl
      refine ⟨result, s', w', ⟨n, exchanges, .ok ()⟩ :: more, c', ?_, ?_, hcalled.cons n exchanges,
        hw', ?_⟩
      · simp only [List.map_cons, visitAll, hn, hrun, hvisit, update, hall]
      · simp only [List.map_cons, visitAll, hn, hwatched, hvisit, update, hallWatched]
        simp
      · rw [List.flatMap_cons]
        exact hx.append hrest

/-- No transform starts inside of another one, which goes on as if nothing had been asked. -/
structure Busy (w : Workspace) : Prop where
  restart : w.respond .restart = (.error .transformerBusy, w)
  nested : ∀ {τ : Type} (visitor : Node → τ → Script (Except GraphError Unit × τ))
    (source : Model) (t : τ), transformWith visitor source t w = (.error .transformerBusy, t, w)

theorem busy {w : Workspace} (h : w.transformer.isTransforming = true) : w.Busy where
  restart := if_pos h
  nested visitor source t := by rw [transformWith, if_pos h]

/-- No model is being built, and every request that needs one is told so. Two requests can be
answered without: where no elements are, and that sizes differ. -/
structure Idle (w : Workspace) : Prop where
  isTransforming : w.respond .isTransforming = (false, w)
  destination : w.respond .destination = (.error .transformerIdle, w)
  add : ∀ n, w.respond (.add n) = (.error .transformerIdle, w)
  corresponding : ∀ address, w.respond (.corresponding address) = (.error .transformerIdle, w)
  relocate : ∀ e, w.respond (.relocate e) =
    (if e.spans = [] then .ok .empty else .error .transformerIdle, w)
  map : ∀ old e, w.respond (.map old e) =
    (.error (if old.size = e.size then .transformerIdle
      else .sizeMismatch old.address.text old.size e.size), w)
  copy : ∀ n : Node, (n.copy.perform w).1 = .error .transformerIdle

theorem idle (supply : Supply) : Idle ⟨supply, .idle⟩ where
  isTransforming := rfl
  destination := rfl
  add n := rfl
  corresponding address := rfl
  relocate e := by
    rcases e with ⟨spans⟩
    cases spans with
    | nil => rfl
    | cons s rest => rfl
  map old e := by
    have hmap : Transformer.map .idle old e = .error (if old.size = e.size then .transformerIdle
        else .sizeMismatch old.address.text old.size e.size) := by
      by_cases hsize : old.size = e.size
      · rw [Transformer.map, if_neg (not_not.mpr hsize), if_pos hsize]
        rfl
      · rw [Transformer.map, if_pos hsize, if_neg hsize]
        rfl
    exact congrArg (fun result => update ⟨supply, .idle⟩ result ()) hmap
  copy n := by
    -- operands without elements are relocated, but then the copy is refused
    rcases n with ⟨id, t, body, buffer⟩
    cases body with
    | input values => rfl
    | constant values => rfl
    | output source =>
      rcases source with ⟨⟨⟩ | ⟨s, rest⟩⟩
      · rfl
      · rfl
    | operation numeric op left right =>
      rcases left with ⟨⟨⟩ | ⟨s, rest⟩⟩
      · rcases right with ⟨⟨⟩ | ⟨s, rest⟩⟩
        · rfl
        · rfl
      · rfl

/-- A transform is its visits, after which nothing is left of it. -/
theorem transformWith_of_visitAll {visitor : Node → σ → Script (Except GraphError Unit × σ)}
    {source : Model} {ids : List NodeId} (ho : source.order = .ok ids) {s s' : σ}
    {supply : Supply} {result : Except GraphError Unit} {w : Workspace}
    (hall : visitAll visitor source ids s ⟨supply, ⟨some {}⟩⟩ = (result, s', w)) :
    transformWith visitor source s ⟨supply, .idle⟩ =
      (result.bind fun _ => w.finish, s', ⟨w.supply, .idle⟩) := by
  have hidle : ¬ Transformer.isTransforming .idle = true := nofun
  rw [transformWith, if_neg hidle, ho]
  simp only [hall]

end Workspace

/-- Whatever a visitor does, it is called on the nodes of the source in their order, up to its first
failure, and gets the model that it has built, in which nothing is wrong. In the end the transformer
is idle; in between it starts no other transform. -/
theorem Reachable.transformWith_safe {s : Supply} {source : Model} (h : Reachable s source)
    {σ : Type} (visitor : Node → σ → Script (Except GraphError Unit × σ)) (state : σ)
    (supply : Supply) :
    ∃ listed result state' supply' calls built,
      source.order = .ok (listed.map Node.id) ∧ listed.Perm source.nodes ∧
      Workspace.transformWith visitor source state ⟨supply, .idle⟩ =
        (result, state', ⟨supply', .idle⟩) ∧
      Workspace.transformWith (Workspace.watching visitor) source (state, []) ⟨supply, .idle⟩ =
        (result, (state', calls), ⟨supply', .idle⟩) ∧
      Workspace.CalledOn listed calls (result.map fun _ => ()) ∧
      Exchanges .empty (calls.flatMap Call.exchanges) built ∧
      built.nodes = (calls.flatMap Call.exchanges).filterMap Exchange.added? ∧
      built.Built ∧ built.validate = .ok () ∧ (∀ m, result = .ok m → m = built) ∧
      Workspace.Idle ⟨supply', .idle⟩ ∧
      ∀ w : Workspace, w.transformer.isTransforming = true → w.Busy := by
  obtain ⟨ids, ho⟩ := h.wellFormed.1.ordered
  obtain ⟨-, listed, rfl, hperm, -⟩ := Model.order_ok ho
  have hlisted : ∀ n ∈ listed, source.node n.id = .ok n := fun n hn =>
    Model.node_ok.mpr (Model.node?_of_mem h.wellFormed.1.distinct (hperm.mem_iff.mp hn))
  obtain ⟨outcome, state', w, calls, c, hall, hallWatched, hcalled, hw, hbuilt⟩ :=
    Workspace.visitAll_watching visitor hlisted state [] (w := ⟨supply, ⟨some {}⟩⟩) rfl
  have hm := hbuilt.built Model.built_empty
  -- nothing is wrong with the model, so that it is what comes out if no visit has failed
  have hfinish : w.finish = .ok c.destination := by
    have hdestination : w.transformer.destination = .ok c.destination := by
      rw [hw]
      rfl
    exact bind_ok.mpr ⟨_, hdestination, bind_ok.mpr ⟨(), hm.validate, rfl⟩⟩
  have hresult : (outcome.bind fun _ => w.finish) = outcome.map fun _ => c.destination := by
    rw [hfinish]
    cases outcome <;> rfl
  have htransform := Workspace.transformWith_of_visitAll ho hall
  have hwatched := Workspace.transformWith_of_visitAll ho hallWatched
  rw [hresult] at htransform hwatched
  refine ⟨listed, _, state', w.supply, calls, c.destination, ho, hperm, htransform, hwatched, ?_,
    hbuilt, hbuilt.nodes, hm, hm.validate, ?_, Workspace.idle _, fun w => Workspace.busy⟩
  · cases outcome <;> exact hcalled
  · intro m hok
    cases outcome with
    | error e => cases hok
    | ok u => exact (Except.ok.inj hok).symm

/-- Asks for another transform before it copies a node, and counts the nodes. -/
def restless (n : Node) (count : Nat) : Script (Except GraphError Unit × Nat) := do
  let _ ← Script.request .restart
  let outcome ← n.copy.run
  return (outcome, count + 1)

theorem transformWith_safe_restless :
    Reachable ⟨4⟩ quotientModel ∧ ∃ m supply',
      Workspace.transformWith restless quotientModel 0 ⟨⟨4⟩, .idle⟩ =
        (.ok m, 4, ⟨supply', .idle⟩) ∧ m.Built ∧ Workspace.Idle ⟨supply', .idle⟩ := by
  obtain ⟨_, result, count, supply', _, built, -, -, hrun, -, -, -, -, hbuilt, -, hok, hidle, -⟩ :=
    Reachable.transformWith_safe quotientModel_reachable restless 0 ⟨4⟩
  have hcount : (Workspace.transformWith restless quotientModel 0 ⟨⟨4⟩, .idle⟩).2.1 = 4 := rfl
  have hresult : (Workspace.transformWith restless quotientModel 0 ⟨⟨4⟩, .idle⟩).1.isOk = true :=
    rfl
  rw [hrun] at hcount hresult
  cases result with
  | error e => cases hresult
  | ok m =>
    obtain rfl : count = 4 := hcount
    exact ⟨quotientModel_reachable, m, supply', hrun, hok m rfl ▸ hbuilt, hidle⟩

/-- An idle transformer finds the places of no elements, and tells different sizes apart. -/
theorem idle_answers_quotientModel :
    (Workspace.copy quotientModel {}).2.transformer = .idle ∧
    ((Workspace.copy quotientModel {}).2.respond (.relocate .empty)).1 = .ok .empty ∧
    ((Workspace.copy quotientModel {}).2.respond (.map quotientModel.nodes[0].outlet .empty)).1 =
      .error (.sizeMismatch quotientModel.nodes[0].outlet.address.text 1 0) ∧
    ¬ ∀ e, ((Workspace.copy quotientModel {}).2.respond (.relocate e)).1 =
      .error .transformerIdle := by
  refine ⟨rfl, rfl, rfl, fun h => ?_⟩
  have hempty : Except.ok Selection.empty = Except.error GraphError.transformerIdle := h .empty
  cases hempty

end FlowGraph
