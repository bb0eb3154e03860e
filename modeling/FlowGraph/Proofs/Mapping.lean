import FlowGraph.Proofs.Carrying
import FlowGraph.Proofs.Watching

/-! What a transformer has been told about outlets, at every moment of a transform. An accepted
mapping has the size of its outlet and reads elements of its type; whether it also stays within the
outlets that it reads is not looked at, and decides what can be read through it. -/
namespace FlowGraph

/-- The mapping that was accepted, if one was. -/
def Exchange.mapped? : Exchange → Option (Outlet × Selection)
  | ⟨.map old e, Except.ok _⟩ => some (old, e)
  | _ => none

/-- What was asked so far, and the workspace then. -/
structure Moment where
  exchanges : List Exchange
  workspace : Workspace

namespace Moment

def start (supply : Supply) : Moment := ⟨[], ⟨supply, ⟨some {}⟩⟩⟩

/-- After one more request. -/
def ask (p : Moment) (r : Request) : Moment :=
  ⟨p.exchanges ++ [⟨r, (p.workspace.respond r).1⟩], (p.workspace.respond r).2⟩

/-- With the transformer in another state. -/
def turn (p : Moment) (t : Transformer) : Moment :=
  { p with workspace := { p.workspace with transformer := t } }

/-- The mappings that were accepted. -/
def mapped (p : Moment) : List (Outlet × Selection) := p.exchanges.filterMap Exchange.mapped?

end Moment

/-- The run of a script from a moment on. -/
def Script.play {α : Type} : Script α → Moment → α × Moment
  | done a, p => (a, p)
  | ask r next, p => (next (p.workspace.respond r).1).play (p.ask r)

/-- Every moment of that run, from the first one to the last one. -/
def Script.moments {α : Type} : Script α → Moment → List Moment
  | done _, p => [p]
  | ask r next, p => p :: (next (p.workspace.respond r).1).moments (p.ask r)

/-- Every moment of the visits, up to the first failure. -/
def Workspace.moments {σ : Type} (visitor : Node → σ → Script (Except GraphError Unit × σ))
    (source : Model) : List NodeId → σ → Moment → List Moment
  | [], _, p => [p]
  | id :: rest, s, p =>
    match source.node id with
    | .error _ => [p]
    | .ok n =>
      (visitor n s).moments p ++
        match (visitor n s).play p with
        | ((.error _, _), _) => []
        | ((.ok (), s), p) =>
          match p.workspace.transformer.visit id with
          | .error _ => []
          | .ok t => moments visitor source rest s (p.turn t)

theorem Script.play_run {α : Type} (script : Script α) (p : Moment) :
    (script.play p).1 = (script.run p.workspace).1 ∧
      (script.play p).2.workspace = (script.run p.workspace).2 := by
  induction script generalizing p with
  | done a => exact ⟨rfl, rfl⟩
  | ask r next ih => exact ih _ (p.ask r)

theorem Script.moments_last {α : Type} (script : Script α) (p : Moment) :
    (script.moments p).getLast? = some (script.play p).2 := by
  induction script generalizing p with
  | done a => rfl
  | ask r next ih => rw [moments, List.getLast?_cons, ih, play, Option.getD_some]

/-- The moments are those of the visits: the last one is where these end. -/
theorem Workspace.moments_last {σ : Type}
    (visitor : Node → σ → Script (Except GraphError Unit × σ)) (source : Model) (ids : List NodeId)
    (s : σ) (p : Moment) :
    ∃ last, (moments visitor source ids s p).getLast? = some last ∧
      last.workspace = (visitAll visitor source ids s p.workspace).2.2 := by
  induction ids generalizing s p with
  | nil => exact ⟨p, rfl, rfl⟩
  | cons id rest ih =>
    cases hn : source.node id with
    | error e => exact ⟨p, by simp [moments, hn], by simp [visitAll, hn]⟩
    | ok n =>
      -- the visitor is run once with its moments and once without, to the same workspace
      obtain ⟨hresult, hworkspace⟩ := Script.play_run (visitor n s) p
      have hlast := Script.moments_last (visitor n s) p
      rcases hplay : (visitor n s).play p with ⟨⟨outcome, s₁⟩, q⟩
      rcases hrun : (visitor n s).run p.workspace with ⟨⟨outcome', s₁'⟩, w⟩
      rw [hplay, hrun] at hresult hworkspace
      obtain ⟨rfl, rfl⟩ := Prod.mk.inj hresult
      obtain rfl : q.workspace = w := hworkspace
      rw [hplay] at hlast
      cases outcome with
      | error e =>
        exact ⟨q, by simpa [moments, hn, hplay] using hlast, by simp [visitAll, hn, hrun]⟩
      | ok u =>
        cases hvisit : q.workspace.transformer.visit id with
        | error e =>
          exact ⟨q, by simpa [moments, hn, hplay, hvisit] using hlast,
            by simp [visitAll, hn, hrun, update, hvisit]⟩
        | ok t =>
          obtain ⟨last, hmore, hend⟩ := ih s₁ (q.turn t)
          refine ⟨last, ?_, ?_⟩
          · simp [moments, hn, hplay, hvisit, hmore]
          · simpa [visitAll, hn, hrun, update, hvisit, Moment.turn] using hend

/-- What the transformer has in its context is what it was told: the accepted mappings, the newest
first. Each has the size of its outlet, and reads from outlets of the same type. -/
structure Moment.Records (p : Moment) (c : Transformer.Context) : Prop where
  transformer : p.workspace.transformer = ⟨some c⟩
  mapping : c.mapping = (p.mapped.map fun q => (q.1.address, q.2)).reverse
  size_eq : ∀ q ∈ p.mapped, q.1.size = q.2.size
  resolves : ∀ q ∈ p.mapped, ∀ s ∈ q.2.spans, ∃ n, c.destination.node? s.source.node = some n ∧
    s.source.name = Node.outletName ∧ n.type = q.1.type

namespace Moment.Records

variable {p : Moment} {c : Transformer.Context}

theorem start (supply : Supply) : (Moment.start supply).Records {} where
  transformer := rfl
  mapping := rfl
  size_eq := by simp [Moment.mapped, Moment.start]
  resolves := by simp [Moment.mapped, Moment.start]

/-- Nothing that was mapped is affected when the destination grows or a node was visited. -/
theorem grow (h : p.Records c) {p' : Moment} {c' : Transformer.Context}
    (ht : p'.workspace.transformer = ⟨some c'⟩) (hmapped : p'.mapped = p.mapped)
    (hmapping : c'.mapping = c.mapping)
    (hnodes : ∀ id n, c.destination.node? id = some n → c'.destination.node? id = some n) :
    p'.Records c' where
  transformer := ht
  mapping := by rw [hmapping, hmapped, h.mapping]
  size_eq := hmapped ▸ h.size_eq
  resolves := by
    rw [hmapped]
    intro q hq s hs
    obtain ⟨n, hn, hrest⟩ := h.resolves q hq s hs
    exact ⟨n, hnodes _ _ hn, hrest⟩

/-- A mapping that is accepted is told. -/
theorem map (h : p.Records c) {p' : Moment} {old : Outlet} {e : Selection} {t : Transformer}
    (hmap : Transformer.map ⟨some c⟩ old e = .ok t) (ht : p'.workspace.transformer = t)
    (hmapped : p'.mapped = p.mapped ++ [(old, e)]) : ∃ c', p'.Records c' := by
  obtain ⟨hsize, htargets, rfl⟩ := Transformer.map_ok.mp hmap
  refine ⟨_, ht, ?_, ?_, ?_⟩
  · rw [hmapped, List.map_append, List.reverse_append, ← h.mapping]
    rfl
  -- what is new was checked when it was accepted
  · rw [hmapped]
    intro q hq
    rcases List.mem_append.mp hq with hold | hnew
    · exact h.size_eq q hold
    · rw [List.mem_singleton.mp hnew]
      exact hsize
  · rw [hmapped]
    intro q hq s hs
    rcases List.mem_append.mp hq with hold | hnew
    · exact h.resolves q hold s hs
    · rw [List.mem_singleton.mp hnew] at hs ⊢
      obtain ⟨o, ho, htype⟩ := htargets s hs
      obtain ⟨n, hn, hname, rfl⟩ := Model.outlet_ok.mp ho
      exact ⟨n, hn, hname, htype⟩

/-- One request. -/
theorem ask (h : p.Records c) (r : Request) : ∃ c', (p.ask r).Records c' := by
  obtain ⟨seen, supply, transformer⟩ := p
  obtain rfl : transformer = ⟨some c⟩ := h.transformer
  let w : Workspace := ⟨supply, ⟨some c⟩⟩
  have hmapped : (Moment.ask ⟨seen, w⟩ r).mapped =
      Moment.mapped ⟨seen, w⟩ ++ [(⟨r, (w.respond r).1⟩ : Exchange)].filterMap Exchange.mapped? :=
    List.filterMap_append
  have hnodes : ∀ id n, c.destination.node? id = some n → c.destination.node? id = some n :=
    fun _ _ hn => hn
  -- only adding and mapping change the context, and only if they are accepted
  cases r with
  | add n =>
    have hsame := hmapped.trans (List.append_nil _)
    cases hadd : c.destination.add n with
    | error e =>
      have hadd' : Transformer.add ⟨some c⟩ n = .error e := by
        simp [Transformer.add, Transformer.running, hadd, bind, Except.bind]
      have hrespond : w.respond (.add n) = (.error e, w) := Workspace.update_error.mpr ⟨hadd', rfl⟩
      exact ⟨c, h.grow (congrArg (·.2.transformer) hrespond) hsame rfl hnodes⟩
    | ok m =>
      let c' : Transformer.Context := { c with destination := m }
      have hrespond : w.respond (.add n) = (.ok n.id, ⟨supply, ⟨some c'⟩⟩) :=
        Workspace.update_ok.mpr ⟨rfl, _, Transformer.add_ok.mpr ⟨m, hadd, rfl⟩, rfl⟩
      have hgrows : ∀ id k, c.destination.node? id = some k → m.node? id = some k := by
        obtain ⟨-, -, rfl⟩ := Model.add_ok.mp hadd
        exact fun _ _ => Model.node?_insert
      exact ⟨c', h.grow (congrArg (·.2.transformer) hrespond) hsame rfl hgrows⟩
  | map old e =>
    cases hmap : Transformer.map ⟨some c⟩ old e with
    | error error =>
      have hrespond : w.respond (.map old e) = (.error error, w) :=
        Workspace.update_error.mpr ⟨hmap, rfl⟩
      rw [hrespond] at hmapped
      exact ⟨c, h.grow (congrArg (·.2.transformer) hrespond) (hmapped.trans (List.append_nil _))
        rfl hnodes⟩
    | ok t =>
      have hrespond : w.respond (.map old e) = (.ok (), ⟨supply, t⟩) :=
        Workspace.update_ok.mpr ⟨rfl, t, hmap, rfl⟩
      rw [hrespond] at hmapped
      exact h.map hmap (congrArg (·.2.transformer) hrespond) hmapped
  | draw => exact ⟨c, h.grow rfl (hmapped.trans (List.append_nil _)) rfl hnodes⟩
  | corresponding address =>
    exact ⟨c, h.grow rfl (hmapped.trans (List.append_nil _)) rfl hnodes⟩
  | relocate e => exact ⟨c, h.grow rfl (hmapped.trans (List.append_nil _)) rfl hnodes⟩
  | destination => exact ⟨c, h.grow rfl (hmapped.trans (List.append_nil _)) rfl hnodes⟩
  | isTransforming => exact ⟨c, h.grow rfl (hmapped.trans (List.append_nil _)) rfl hnodes⟩
  | restart => exact ⟨c, h.grow rfl (hmapped.trans (List.append_nil _)) rfl hnodes⟩

/-- The run of a script, by induction on its requests. -/
theorem play {α : Type} (script : Script α) (h : p.Records c) :
    (∀ q ∈ script.moments p, ∃ c', q.Records c') ∧ ∃ c', (script.play p).2.Records c' := by
  induction script generalizing p c with
  | done a =>
    refine ⟨fun q hq => ?_, c, h⟩
    rw [List.mem_singleton.mp hq]
    exact ⟨c, h⟩
  | ask r next ih =>
    obtain ⟨c₁, h₁⟩ := h.ask r
    obtain ⟨hmoments, hend⟩ := ih (p.workspace.respond r).1 h₁
    exact ⟨List.forall_mem_cons.mpr ⟨⟨c, h⟩, hmoments⟩, hend⟩

/-- All visits, by induction on the nodes that are still to be visited. -/
theorem moments {σ : Type} (visitor : Node → σ → Script (Except GraphError Unit × σ))
    (source : Model) (ids : List NodeId) (s : σ) (h : p.Records c) :
    ∀ q ∈ Workspace.moments visitor source ids s p, ∃ c', q.Records c' := by
  induction ids generalizing p c s with
  | nil =>
    intro q hq
    rw [List.mem_singleton.mp hq]
    exact ⟨c, h⟩
  | cons id rest ih =>
    cases hn : source.node id with
    | error e => simpa [Workspace.moments, hn] using ⟨c, h⟩
    | ok n =>
      obtain ⟨hvisit, c₁, hend⟩ := play (visitor n s) h
      rcases hplay : (visitor n s).play p with ⟨⟨outcome, s₁⟩, q₁⟩
      rw [hplay] at hend
      cases outcome with
      | error e => simpa [Workspace.moments, hn, hplay] using hvisit
      | ok u =>
        -- a node that was visited is marked, which is all that changes
        let c₂ : Transformer.Context := { c₁ with visited := id :: c₁.visited }
        have hmark : q₁.workspace.transformer.visit id = .ok ⟨some c₂⟩ := by
          rw [hend.transformer]
          rfl
        have hmarked : (q₁.turn ⟨some c₂⟩).Records c₂ := hend.grow rfl rfl rfl fun _ _ hk => hk
        intro q hq
        simp only [Workspace.moments, hn, hplay, hmark, List.mem_append] at hq
        rcases hq with hq | hq
        · exact hvisit q hq
        · exact ih s₁ hmarked q hq

end Moment.Records

/-- The span reads elements of an outlet of type `t` that was mapped, to elements that are there. -/
def Moment.Offers (p : Moment) (c : Transformer.Context) (t : ElementType) (s : Span) : Prop :=
  ∃ q ∈ p.mapped, q.1.address = s.source ∧ c.mapping.lookup s.source = some q.2 ∧ q.1.type = t ∧
    s.start.toNat + s.count.toNat ≤ q.1.size ∧
      ∀ x ∈ q.2.spans, x.Fits ∧ ∀ n, c.destination.node? x.source.node = some n → x.stop ≤ n.size

namespace Moment.Records

variable {p : Moment} {c : Transformer.Context} {t : ElementType}

theorem hasElement (h : p.Records c) {q : Outlet × Selection} (hq : q ∈ p.mapped)
    (hwithin : ∀ x ∈ q.2.spans, x.Fits ∧
      ∀ n, c.destination.node? x.source.node = some n → x.stop ≤ n.size) :
    ∀ x ∈ q.2.elements, c.destination.HasElement q.1.type x := by
  intro x hx
  obtain ⟨s, hs, hx⟩ := List.mem_flatMap.mp hx
  obtain ⟨hfits, hstop⟩ := hwithin s hs
  obtain ⟨n, hn, hname, htype⟩ := h.resolves q hq s hs
  exact Span.Resolves.hasElement ⟨n, hn, hname, htype, hstop n hn⟩ hfits hx

/-- What is relocated through mappings that stay within their outlets resolves. -/
theorem relocateSpan (h : p.Records c) {s : Span} (hs : p.Offers c t s) {part : Selection}
    (hpart : Transformer.relocateSpan ⟨some c⟩ s = .ok part) :
    part.Fits ∧ part.Solid ∧ ∀ x ∈ part.elements, c.destination.HasElement t x := by
  obtain ⟨q, hq, -, hlookup, rfl, -, hwithin⟩ := hs
  obtain ⟨mapped, hmapped, hslice⟩ := Transformer.relocateSpan_ok.mp hpart
  obtain rfl : q.2 = mapped :=
    Option.some.inj (hlookup.symm.trans (Transformer.corresponding_ok.mp hmapped).2)
  have hfits : q.2.Fits := fun x hx => (hwithin x hx).1
  obtain ⟨helements, hpartFits⟩ := Selection.slice?_elements hfits hslice
  refine ⟨hpartFits, Selection.slice?_solid hfits hslice, fun x hx => ?_⟩
  rw [helements] at hx
  exact h.hasElement hq hwithin x (List.mem_of_mem_drop (List.mem_of_mem_take hx))

theorem relocate_resolves (h : p.Records c) {e e' : Selection} (he : ∀ s ∈ e.spans, p.Offers c t s)
    (hrelocate : Transformer.relocate ⟨some c⟩ e = .ok e') :
    ∀ s ∈ e'.spans, s.Resolves c.destination t := by
  obtain ⟨parts, hparts, rfl⟩ := Transformer.relocate_ok.mp hrelocate
  have hpart : ∀ part ∈ parts,
      part.Fits ∧ part.Solid ∧ ∀ x ∈ part.elements, c.destination.HasElement t x := by
    intro part hmem
    obtain ⟨s, hs, hrelocated⟩ := forall₂_mem_right hparts hmem
    exact h.relocateSpan (he s hs) hrelocated
  obtain ⟨helements, hfits, hsolid⟩ := Selection.foldl_append parts
    ⟨Selection.fits_empty, Selection.solid_empty⟩ fun part hmem =>
      ⟨(hpart part hmem).1, (hpart part hmem).2.1⟩
  -- appending may join spans of two parts, so what resolves is told by the elements
  refine Selection.resolves_of_elements hfits hsolid fun x hx => ?_
  have hx' : x ∈ parts.flatMap Selection.elements := by rwa [helements] at hx
  obtain ⟨part, hmem, hx⟩ := List.mem_flatMap.mp hx'
  exact (hpart part hmem).2.2 x hx

/-- What was visited can be relocated. -/
theorem relocate_exists (h : p.Records c) {e : Selection}
    (he : ∀ s ∈ e.spans, p.Offers c t s ∧ s.source.node ∈ c.visited) :
    ∃ e', Transformer.relocate ⟨some c⟩ e = .ok e' := by
  have hparts : ∀ s ∈ e.spans, ∃ part, Transformer.relocateSpan ⟨some c⟩ s = .ok part := by
    intro s hs
    obtain ⟨⟨q, hq, -, hlookup, -, hstop, -⟩, hvisited⟩ := he s hs
    rw [h.size_eq q hq] at hstop
    obtain ⟨part, hslice⟩ := Selection.slice?_eq_some hstop
    have hmapped := Transformer.corresponding_ok.mpr ⟨hvisited, hlookup⟩
    exact ⟨part, Transformer.relocateSpan_ok.mpr ⟨q.2, hmapped, hslice⟩⟩
  obtain ⟨parts, hall⟩ := exists_mapM_ok.mpr hparts
  exact ⟨_, Transformer.relocate_ok.mpr ⟨parts, mapM_ok.mp hall, rfl⟩⟩

end Moment.Records

/-- At every moment of every transform, whatever its visitor asks, the transformer knows exactly the
mappings that it has accepted, each of the size of its outlet and of elements of its type. Through
those that stay within the outlets they read, everything that was visited can be relocated, and a
node that reads what was relocated is not refused. -/
theorem Workspace.moments_mapped {σ : Type}
    (visitor : Node → σ → Script (Except GraphError Unit × σ)) (source : Model) (ids : List NodeId)
    (s : σ) (supply : Supply) :
    (∃ last, (moments visitor source ids s (.start supply)).getLast? = some last ∧
      last.workspace = (visitAll visitor source ids s ⟨supply, ⟨some {}⟩⟩).2.2) ∧
    ∀ p ∈ moments visitor source ids s (.start supply), ∃ c, p.Records c ∧
      (∀ t e, (∀ x ∈ e.spans, p.Offers c t x) →
        (∀ e', Transformer.relocate ⟨some c⟩ e = .ok e' →
          ∀ x ∈ e'.spans, x.Resolves c.destination t) ∧
        ((∀ x ∈ e.spans, x.source.node ∈ c.visited) →
          ∃ e', Transformer.relocate ⟨some c⟩ e = .ok e')) ∧
      ∀ n : Node, (∀ i ∈ n.inlets, ∃ e, (∀ x ∈ e.spans, p.Offers c n.type x) ∧
          Transformer.relocate ⟨some c⟩ e = .ok i.selection) →
        n.id ∉ c.destination.ids → c.destination.add n = .ok (c.destination.insert n) := by
  refine ⟨moments_last visitor source ids s (.start supply), fun p hp => ?_⟩
  obtain ⟨c, h⟩ := (Moment.Records.start supply).moments visitor source ids s p hp
  refine ⟨c, h, fun t e he => ⟨fun e' => h.relocate_resolves he, fun hvisited => ?_⟩, ?_⟩
  · exact h.relocate_exists fun x hx => ⟨he x hx, hvisited x hx⟩
  · intro n hinlets hfresh
    refine Model.add_ok.mpr ⟨hfresh, fun x hx => ?_, rfl⟩
    obtain ⟨i, hi, hx⟩ := Node.mem_spans.mp hx
    obtain ⟨e, he, hrelocate⟩ := hinlets i hi
    exact h.relocate_resolves he hrelocate x hx

/-- Puts the same constant in the place of a constant, but maps the outlet past the end of the new
one. -/
def Node.overreach (n : Node) : Visit Unit := do
  match n.body with
  | .constant values =>
    let id ← Visit.add (.constant (← Visit.drawId) n.type values)
    Visit.map n.outlet (.single ⟨⟨id, outletName⟩, 1, UInt64.ofNat n.size⟩)
  | _ => n.copy

/-- An output that reads three constants. -/
def readingModel : Model :=
  ⟨[.constant ⟨1⟩ .int [(1 : Int32), (2 : Int32), (3 : Int32)],
    .output ⟨2⟩ .int (.single ⟨⟨⟨1⟩, Node.outletName⟩, 0, 3⟩)]⟩

/-- A visitor without a state of its own. -/
def stateless (visitor : Node → Visit Unit) (n : Node) (_ : Unit) :
    Script (Except GraphError Unit × Unit) := (·, ()) <$> (visitor n).run

theorem moments_mapped_readingModel :
    ∃ p ∈ Workspace.moments (stateless Node.copy) readingModel [⟨1⟩, ⟨2⟩] () (.start ⟨2⟩), ∃ c,
      p.Records c ∧ p.Offers c .int ⟨⟨⟨1⟩, Node.outletName⟩, 0, 3⟩ ∧
        ∃ e', Transformer.relocate ⟨some c⟩ (.single ⟨⟨⟨1⟩, Node.outletName⟩, 0, 3⟩) = .ok e' ∧
          ∀ x ∈ e'.spans, x.Resolves c.destination .int := by
  -- the moment after the constant was visited
  have hlength : 4 < (Workspace.moments (stateless Node.copy) readingModel [⟨1⟩, ⟨2⟩] ()
    (.start ⟨2⟩)).length := by decide
  obtain ⟨-, hall⟩ :=
    Workspace.moments_mapped (stateless Node.copy) readingModel [⟨1⟩, ⟨2⟩] () ⟨2⟩
  obtain ⟨c, hrecords, hread, -⟩ := hall _ (List.getElem_mem hlength)
  let n : Node := .constant ⟨3⟩ .int [(1 : Int32), (2 : Int32), (3 : Int32)]
  let known : Transformer.Context := ⟨⟨[n]⟩, [(⟨⟨1⟩, Node.outletName⟩, n.outlet.all)], [⟨1⟩]⟩
  obtain rfl : known = c := Option.some.inj (congrArg Transformer.context hrecords.transformer)
  have hoffers : Moment.Offers (Workspace.moments (stateless Node.copy) readingModel [⟨1⟩, ⟨2⟩] ()
      (.start ⟨2⟩))[4] known .int ⟨⟨⟨1⟩, Node.outletName⟩, 0, 3⟩ := by
    refine ⟨(readingModel.nodes[0].outlet, n.outlet.all), List.mem_singleton_self _, rfl, rfl, rfl,
      by decide, fun x hx => ?_⟩
    have hsize : n.size < sizeLimit := by decide
    refine ⟨Node.fits_all hsize x hx, fun k hk => ?_⟩
    obtain rfl := List.mem_singleton.mp hx
    obtain rfl : n = k := Option.some.inj hk
    decide
  obtain ⟨hresolves, hexists⟩ := hread .int (.single ⟨⟨⟨1⟩, Node.outletName⟩, 0, 3⟩)
    fun x hx => List.mem_singleton.mp hx ▸ hoffers
  obtain ⟨e', he'⟩ := hexists fun x hx => List.mem_singleton.mp hx ▸ List.mem_singleton_self _
  exact ⟨_, List.getElem_mem hlength, _, hrecords, hoffers, e', he', hresolves e' he'⟩

/-- A mapping past the end of an outlet is accepted, and found out by a node that is not to
blame. -/
theorem overreach_unresolved :
    (∃ p ∈ Workspace.moments (stateless Node.overreach) readingModel [⟨1⟩, ⟨2⟩] () (.start ⟨2⟩),
      ∃ c, p.Records c ∧ ∃ q ∈ p.mapped, ∃ x ∈ q.2.spans, ¬ x.Resolves c.destination q.1.type) ∧
    (readingModel.rebuild Node.overreach).runWith ⟨2⟩ =
      (.error (.rangeOutOfBounds ⟨⟨3⟩, Node.outletName⟩ 1 4 3), ⟨4⟩) := by
  have hlength : 4 < (Workspace.moments (stateless Node.overreach) readingModel [⟨1⟩, ⟨2⟩] ()
    (.start ⟨2⟩)).length := by decide
  obtain ⟨c, hrecords⟩ := (Moment.Records.start ⟨2⟩).moments (stateless Node.overreach)
    readingModel [⟨1⟩, ⟨2⟩] () _ (List.getElem_mem hlength)
  refine ⟨⟨_, List.getElem_mem hlength, c, hrecords, _, List.mem_singleton_self _, _,
    List.mem_singleton_self _, fun hresolves => ?_⟩, rfl⟩
  let n : Node := .constant ⟨3⟩ .int [(1 : Int32), (2 : Int32), (3 : Int32)]
  let past : Selection := .single ⟨⟨⟨3⟩, Node.outletName⟩, 1, 3⟩
  let known : Transformer.Context := ⟨⟨[n]⟩, [(⟨⟨1⟩, Node.outletName⟩, past)], [⟨1⟩]⟩
  obtain rfl : known = c := Option.some.inj (congrArg Transformer.context hrecords.transformer)
  obtain ⟨k, hk, -, -, hstop⟩ := hresolves
  obtain rfl : n = k := Option.some.inj hk
  exact absurd hstop (by decide)

end FlowGraph
