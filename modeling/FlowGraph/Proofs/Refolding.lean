import FlowGraph.Proofs.Collapsing

/-! Folding what has been folded: it gives the same model, under other ids. -/
namespace FlowGraph

/-- The node under the id in the place of its own, reading at the places of what it reads. -/
def Node.relabel (place : NodeId → NodeId) (n : Node) : Node :=
  { n.rewire (fun i => i.selection.relabel place) with id := place n.id }

theorem Selection.relabel_relabel {place place' : NodeId → NodeId} (e : Selection) :
    (e.relabel place).relabel place' = e.relabel fun id => place' (place id) := by
  rw [relabel, relabel, relabel, List.map_map]
  rfl

theorem Node.relabel_relabel {place place' : NodeId → NodeId} (n : Node) :
    (n.relabel place).relabel place' = n.relabel fun id => place' (place id) := by
  rcases n with ⟨id, t, body, buffer⟩
  cases body <;> simp only [relabel, rewire, Selection.relabel_relabel]

/-- Only the places of the node and of what it names count. -/
theorem Node.relabel_congr {place place' : NodeId → NodeId} {n : Node}
    (hid : place n.id = place' n.id) (h : ∀ d ∈ n.dependencies, place d = place' d) :
    n.relabel place = n.relabel place' := by
  have hselection : ∀ i ∈ n.inlets, i.selection.relabel place = i.selection.relabel place' := by
    intro i hi
    rw [Selection.relabel, Selection.relabel]
    refine congrArg _ (List.map_congr_left fun s hs => ?_)
    rw [Span.relabel, Span.relabel, h _ (mem_dependencies.mpr ⟨s, mem_spans.mpr ⟨i, hi, hs⟩, rfl⟩)]
  rcases n with ⟨id, t, body, buffer⟩
  cases body with
  | input values => simp only [relabel, rewire, hid]
  | constant values => simp only [relabel, rewire, hid]
  | output source =>
    simp only [relabel, rewire, hid, hselection ⟨id, "input", t, source⟩ List.mem_cons_self]
  | operation numeric op left right =>
    simp only [relabel, rewire, hid, hselection ⟨id, "input1", t, left⟩ List.mem_cons_self,
      hselection ⟨id, "input2", t, right⟩ (List.mem_cons_of_mem _ List.mem_cons_self)]

/-- Nobody has set or computed the node, and it is wired by as few spans as can be. -/
structure Node.Normal (n : Node) : Prop where
  fresh : n.Fresh
  canonical : ∀ i ∈ n.inlets, i.selection.Canonical

theorem Node.KeptIn.normal {place : NodeId → NodeId} {m : Model} {n n' : Node}
    (h : n.KeptIn place m n') : n'.Normal :=
  ⟨h.fresh, h.canonical⟩

/-- A normal node and a normal copy of it are the same, but for their ids and those they read. -/
theorem Node.CopiedTo.eq_relabel {place : NodeId → NodeId} {n n' : Node} (h : n.CopiedTo place n')
    (hnormal : n.Normal) (hnormal' : n'.Normal)
    (hinj : Set.InjOn place {id | ∃ s ∈ n.spans, s.source.node = id}) : n' = n.relabel place := by
  -- canonical selections of the same elements are the same, so every inlet is only moved
  have hmoved : ∀ e e' : Selection, e.spans ⊆ n.spans → e.Canonical → e'.Canonical →
      e.WiredBy place e' → e' = e.relabel place := by
    intro e e' he hcanonical hcanonical' hwired
    refine hcanonical.eq_relabel hcanonical' hwired (hinj.mono ?_)
    rintro _ ⟨s, hs, rfl⟩
    exact ⟨s, he hs, rfl⟩
  obtain ⟨hfresh, hcanonical⟩ := hnormal
  have hcanonical' := hnormal'.canonical
  obtain ⟨hid, hmatches, hfresh'⟩ := h
  cases hmatches with
  | intro id' body' buffer' hbody hsize =>
    obtain rfl := hid.symm
    -- both buffers are the default values of that size
    have hbuffer : buffer' = n.buffer := by
      have hself : buffer' = List.replicate buffer'.length n.type.default := hfresh'.1
      rw [hself, hsize, ← hfresh.1]
    subst hbuffer
    rcases n with ⟨id, t, body, buffer⟩
    cases body with
    | input values =>
      cases body' with
      | input values' =>
        -- neither of the two inputs has been set
        have hvalues : values = values' := hfresh.2.trans hfresh'.2.symm
        rw [hvalues]
        rfl
      | _ => cases hbody
    | constant values =>
      cases body' with
      | constant values' =>
        have hvalues : values' = values := hbody
        rw [hvalues]
        rfl
      | _ => cases hbody
    | output source =>
      cases body' with
      | output source' =>
        rw [hmoved source source' (by simp [spans, inlets]) (hcanonical _ List.mem_cons_self)
          (hcanonical' _ List.mem_cons_self) hbody]
        rfl
      | _ => cases hbody
    | operation numeric op left right =>
      cases body' with
      | operation numeric' op' left' right' =>
        obtain ⟨rfl, hleft, hright⟩ := hbody
        rw [hmoved left left' (by simp [spans, inlets]) (hcanonical _ List.mem_cons_self)
            (hcanonical' _ List.mem_cons_self) hleft,
          hmoved right right' (by simp [spans, inlets])
            (hcanonical _ (List.mem_cons_of_mem _ List.mem_cons_self))
            (hcanonical' _ (List.mem_cons_of_mem _ List.mem_cons_self)) hright]
        rfl
      | _ => cases hbody

theorem Node.FoldsTo.fresh {place : NodeId → NodeId} {m : Model} {n n' : Node}
    (h : n.FoldsTo place m n') : n'.Fresh := by
  cases h with
  | intro hbody hleft hright hfitsLeft hfitsRight hfolded =>
    refine ⟨?_, trivial⟩
    rw [Node.size, Node.constant, List.length_replicate]

theorem Node.FoldsTo.inlets_eq_nil {place : NodeId → NodeId} {m : Model} {n n' : Node}
    (h : n.FoldsTo place m n') : n'.inlets = [] := by
  cases h with
  | intro hbody hleft hright hfitsLeft hfitsRight hfolded => rfl

theorem Node.FoldsTo.normal {place : NodeId → NodeId} {m : Model} {n n' : Node}
    (h : n.FoldsTo place m n') : n'.Normal := by
  refine ⟨h.fresh, ?_⟩
  rw [h.inlets_eq_nil]
  exact List.forall_mem_nil _

namespace Model

/-- Nodes of a model are told by their ids. -/
theorem nodes_ext {m : Model} (hd : m.ids.Nodup) {nodes nodes' : List Node}
    (hnodes : ∀ n ∈ nodes, n ∈ m.nodes) (hnodes' : ∀ n ∈ nodes', n ∈ m.nodes)
    (hids : nodes.map Node.id = nodes'.map Node.id) : nodes = nodes' := by
  -- each id finds its node
  have hfound : ∀ nodes : List Node, (∀ n ∈ nodes, n ∈ m.nodes) →
      nodes.map some = (nodes.map Node.id).map m.node? := by
    intro nodes hnodes
    rw [List.map_map]
    exact List.map_congr_left fun n hn => (node?_of_mem hd (hnodes n hn)).symm
  apply List.map_injective_iff.mpr (Option.some_injective Node)
  rw [hfound nodes hnodes, hfound nodes' hnodes', hids]

/-- In a model that is in its own order, the nodes are visited as they come. -/
theorem CarriedOver.map_fst {place : NodeId → NodeId} {m r : Model} {pairs : List (Node × Node)}
    (h : CarriedOver place m r pairs) (ho : m.order = .ok m.ids) :
    pairs.map Prod.fst = m.nodes := by
  have hsource : ∀ n ∈ pairs.map Prod.fst, n ∈ m.nodes := by
    intro n hn
    obtain ⟨p, hp, rfl⟩ := List.mem_map.mp hn
    exact h.source p hp
  refine nodes_ext h.wellFormed.distinct hsource (fun n hn => hn) ?_
  rw [List.map_map]
  exact Except.ok.inj (h.order.symm.trans ho)

namespace FoldedOver

variable {place place' : NodeId → NodeId} {m r r' : Model} {pairs pairs' : List (Node × Node)}

/-- The nodes of the result hold nothing but default values, and are wired canonically. -/
theorem normal_result (h : FoldedOver place m r pairs) {n : Node} (hn : n ∈ r.nodes) :
    n.Normal := by
  obtain ⟨p, hp, rfl⟩ := h.part.exists_pair_result hn
  rcases h.settled p hp with hkept | hfolds
  · exact hkept.normal
  · exact hfolds.normal

/-- Folding the result folds nothing: what comes down to constants alone is a constant there. -/
theorem not_folded_again (h : FoldedOver place m r pairs) (h' : FoldedOver place' r r' pairs')
    {p : Node × Node} (hp : p ∈ pairs') : ¬ Folded p := by
  rintro ⟨hop, hconstant⟩
  -- it would come down to constants alone, and so be a constant and no operation
  have hdetermined := (h'.isConstant_iff_determined hp).mp hconstant
  obtain ⟨n, hn, hid, hn'⟩ := h.constantAt_of_determined hdetermined
  obtain rfl : n = p.1 :=
    List.inj_on_of_nodup_map h.wellFormed_result.distinct hn (h'.source p hp) hid
  rw [Node.isConstant_of_isOperation hop] at hn'
  cases hn'

/-- Folding twice is folding once: the second time gives the same nodes, under other ids. -/
theorem nodes_again (h : FoldedOver place m r pairs) (h' : FoldedOver place' r r' pairs')
    (hinj : Set.InjOn place' {id | id ∈ r.ids}) : r'.nodes = r.nodes.map (Node.relabel place') := by
  have hmoved : ∀ p ∈ pairs', p.2 = p.1.relabel place' := by
    intro p hp
    have hsource := h'.source p hp
    have hkept := h'.keptIn hp (h.not_folded_again h' hp)
    apply hkept.toCopiedTo.eq_relabel (h.normal_result hsource) hkept.normal
    -- what a node reads is in the model, where different ids have different places
    apply hinj.mono
    rintro _ ⟨s, hs, rfl⟩
    exact resolves_mem (h.wellFormed_result.resolves p.1 hsource s hs)
  calc r'.nodes
      = pairs'.map Prod.snd := h'.nodes
    _ = pairs'.map (Node.relabel place' ∘ Prod.fst) := List.map_congr_left hmoved
    _ = (pairs'.map Prod.fst).map (Node.relabel place') := List.map_map.symm
    _ = r.nodes.map (Node.relabel place') := by rw [h'.map_fst h.order_result]

end FoldedOver

end Model

/-- Folding is complete, and once is enough. An operation becomes a constant exactly if it is
defined and all elements that it reads are of constants or of operations that become constants; the
constant has the values that the operation means, and every other node is copied. So exactly what
comes down to constants alone is a constant in the result, over chains of any length, and an
operation that still reads only constants there has no result. Folding the result gives the same
nodes, reading the same spans, under other ids. -/
theorem Reachable.fold_complete {s₀ : Supply} {m : Model} (h : Reachable s₀ m)
    (ha : m.Allocatable) (s : Supply) :
    ∃ (place : NodeId → NodeId) (pairs : List (Node × Node)) (r : Model),
      m.fold.runWith s = (.ok r, ⟨s.drawn + m.size⟩) ∧
      m.order = .ok (pairs.map fun p => p.1.id) ∧ r.nodes = pairs.map Prod.snd ∧
      (∀ p ∈ pairs, p.1 ∈ m.nodes ∧ p.2.id = place p.1.id ∧ p.2.type = p.1.type ∧
        p.2.size = p.1.size) ∧
      (∀ p ∈ pairs, Folded p ↔ p.1.ReadsOnly (fun id => ∃ q ∈ pairs, q.1.id = id ∧
        (q.1.isConstant = true ∨ Folded q)) ∧ p.1.DefinedIn m) ∧
      (∀ p ∈ pairs, Folded p → ∃ values, m.reference p.1.type p.1.id = some values ∧
        p.2 = .constant (place p.1.id) p.1.type values) ∧
      (∀ p ∈ pairs, ¬ Folded p → p.1.CopiedTo place p.2) ∧
      (∀ p ∈ pairs, p.2.isConstant = true ↔ m.Determined p.1.id) ∧
      (∀ n ∈ r.nodes, n.isOperation = true → n.ReadsOnly r.ConstantAt → ¬ n.DefinedIn r) ∧
      ∀ s' : Supply, ∃ (place' : NodeId → NodeId) (r' : Model),
        r.fold.runWith s' = (.ok r', ⟨s'.drawn + r.size⟩) ∧
          Set.InjOn place' {id | id ∈ r.ids} ∧ r'.nodes = r.nodes.map (Node.relabel place') := by
  obtain ⟨hwf, -⟩ := h.wellFormed
  obtain ⟨ids, ho⟩ := hwf.ordered
  obtain ⟨pairs, r, hrun, hfold⟩ := hwf.fold_over ha ho s
  refine ⟨s.place ids, pairs, r, hrun, hfold.order, hfold.nodes,
    fun p hp => ⟨hfold.source p hp, hfold.stands p hp⟩, fun p hp => hfold.folded_iff hp,
    fun p hp => hfold.folded_value hp, fun p hp hnot => (hfold.keptIn hp hnot).toCopiedTo,
    fun p hp => hfold.isConstant_iff_determined hp, fun n hn => hfold.not_definedIn hn,
    fun s' => ?_⟩
  -- the result is well-formed and in its own order, so it can be folded in turn
  obtain ⟨pairs', r', hrun', hfold'⟩ :=
    hfold.wellFormed_result.fold_over hfold.allocatable_result hfold.order_result s'
  have hinj : Set.InjOn (s'.place r.ids) {id | id ∈ r.ids} :=
    fun _ hid _ hid' => s'.place_inj hfold.wellFormed_result.distinct hid hid'
  exact ⟨s'.place r.ids, r', hrun', hinj, hfold.nodes_again hfold' hinj⟩

/-- Twice three is folded, and so is what depends on that alone, but for a division by what comes to
zero; the input is added to what was folded. -/
def chainedModel : Model :=
  let element (id start : UInt64) : Selection := .single ⟨⟨⟨id⟩, "output"⟩, start, 1⟩
  let combine (id : UInt64) (op : Operation) (left right : Selection) : Node :=
    ⟨⟨id⟩, .int, .operation ElementType.isNumeric_int op left right, [(0 : Int32)]⟩
  ⟨[.input ⟨1⟩ .int 1, .constant ⟨2⟩ .int [(2 : Int32), (3 : Int32)],
    combine 3 .multiply (element 2 0) (element 2 1), combine 4 .add (element 3 0) (element 2 1),
    combine 5 .subtract (element 3 0) (element 3 0), combine 6 .divide (element 4 0) (element 5 0),
    combine 7 .add (element 4 0) (element 1 0)]⟩

theorem chainedModel_reachable : Reachable ⟨7⟩ chainedModel := by
  have hissued : ∀ k < 7, Supply.Issued ⟨7⟩ (NodeId.nth k) := fun k hk => ⟨k, hk, rfl⟩
  have hoperation : ∀ k < 7, ∀ (op : Operation) (left right : Selection), left.size = 1 →
      right.size = 1 → Node.Constructed ⟨7⟩ ⟨NodeId.nth k, .int,
        .operation ElementType.isNumeric_int op left right, [(0 : Int32)]⟩ := by
    intro k hk op left right hleft hright
    have hmade : Node.operation (NodeId.nth k) .int ElementType.isNumeric_int op left right =
        .ok ⟨NodeId.nth k, .int, .operation ElementType.isNumeric_int op left right,
          [(0 : Int32)]⟩ := by
      rw [Node.operation, if_pos (hleft.trans hright.symm), hleft]
      rfl
    exact .operation (hissued k hk) hmade
  have hmade : ∀ n ∈ chainedModel.nodes, n.Constructed ⟨7⟩ := by
    simp only [chainedModel, List.forall_mem_cons]
    exact ⟨.input (hissued 0 (by decide)) .int 1, .constant (hissued 1 (by decide)) .int _,
      hoperation 2 (by decide) _ _ _ rfl rfl, hoperation 3 (by decide) _ _ _ rfl rfl,
      hoperation 4 (by decide) _ _ _ rfl rfl, hoperation 5 (by decide) _ _ _ rfl rfl,
      hoperation 6 (by decide) _ _ _ rfl rfl, List.forall_mem_nil _⟩
  exact (Reachable.empty ⟨7⟩).addAll hmade rfl

theorem fold_complete_chainedModel :
    Reachable ⟨7⟩ chainedModel ∧ chainedModel.Allocatable ∧
      ∃ (pairs : List (Node × Node)) (r : Model), chainedModel.fold.runWith ⟨7⟩ = (.ok r, ⟨14⟩) ∧
        chainedModel.order = .ok (pairs.map fun p => p.1.id) ∧ r.nodes = pairs.map Prod.snd ∧
          (∀ p ∈ pairs, p.2.isConstant = true ↔ chainedModel.Determined p.1.id) ∧
            ∃ (place : NodeId → NodeId) (r' : Model), r.fold.runWith ⟨14⟩ = (.ok r', ⟨21⟩) ∧
              r'.nodes = r.nodes.map (Node.relabel place) := by
  have hallocatable : chainedModel.Allocatable := by decide
  obtain ⟨_, pairs, r, hrun, horder, hnodes, -, -, -, -, hdetermined, -, hagain⟩ :=
    chainedModel_reachable.fold_complete hallocatable ⟨7⟩
  obtain ⟨place, r', hrun', -, hnodes'⟩ := hagain ⟨14⟩
  have hsize : r.size = 7 := by
    have hlength := Model.length_order horder
    rw [List.length_map] at hlength
    rw [Model.size, hnodes, List.length_map, hlength]
    rfl
  rw [hsize] at hrun'
  exact ⟨chainedModel_reachable, hallocatable, pairs, r, hrun, horder, hnodes, hdetermined, place,
    r', hrun', hnodes'⟩

/-- The division stays, and reads two constants. -/
example : chainedModel.fold.runWith ⟨7⟩ = (.ok ⟨[.input ⟨8⟩ .int 1,
    .constant ⟨9⟩ .int [(2 : Int32), (3 : Int32)], .constant ⟨10⟩ .int [(6 : Int32)],
    .constant ⟨11⟩ .int [(9 : Int32)], .constant ⟨12⟩ .int [(0 : Int32)],
    ⟨⟨13⟩, .int, .operation ElementType.isNumeric_int .divide (.single ⟨⟨⟨11⟩, "output"⟩, 0, 1⟩)
      (.single ⟨⟨⟨12⟩, "output"⟩, 0, 1⟩), [(0 : Int32)]⟩,
    ⟨⟨14⟩, .int, .operation ElementType.isNumeric_int .add (.single ⟨⟨⟨11⟩, "output"⟩, 0, 1⟩)
      (.single ⟨⟨⟨8⟩, "output"⟩, 0, 1⟩), [(0 : Int32)]⟩]⟩, ⟨14⟩) := rfl

end FlowGraph
