import Mathlib
import FlowGraph.Proofs.Carrying
import FlowGraph.Proofs.Computing
import FlowGraph.Proofs.Feeding

/-! Folding constants keeps the meaning of every node: each one is copied, or replaced by its
values where these depend on constants alone and are all defined. -/
namespace FlowGraph

namespace Model

/-- The values of the constant nodes for elements of type `t`. -/
def constantValue (m : Model) (t : ElementType) (id : NodeId) : Option (List t.Value) :=
  (m.node? id).bind fun n => n.constants? t

/-- A selection of constants has the values at its elements. -/
theorem pick?_of_constants? {m : Model} {t : ElementType} {e : Selection} {values : List t.Value}
    (h : m.constants? t e = some values) (hfits : e.Fits) :
    e.pick? (m.constantValue t) = some values := by
  simp only [constants?, Option.bind_eq_bind, Option.bind_eq_some_iff, Option.pure_def,
    Option.some.injEq] at h
  obtain ⟨runs, hruns, rfl⟩ := h
  have hpick : ∀ s ∈ e.spans, ∀ run, m.constantSpan? t s = some run →
      s.pick? (m.constantValue t) = some run := by
    intro s hs run hrun
    simp only [constantSpan?, Option.bind_eq_bind, Option.bind_eq_some_iff] at hrun
    obtain ⟨n, hn, values, hvalues, hbetween⟩ := hrun
    have hheld : m.constantValue t s.source.node = some values := by
      rw [constantValue, hn, Option.bind_some, hvalues]
    -- the constants between the ends of the span are those at its elements
    rw [valuesBetween?, Span.stop_of_fits (hfits s hs)] at hbetween
    split at hbetween
    case isTrue hbound =>
      rw [Span.pick?_eq hheld hbound.2, ← hbetween, Nat.add_sub_cancel_left]
    case isFalse => cases hbetween
  rw [Selection.pick?_eq, mapM_imp hruns hpick]
  rfl

theorem constants?_insert {m : Model} {k : Node} {t : ElementType} {e : Selection}
    {values : List t.Value} (h : m.constants? t e = some values) :
    (m.insert k).constants? t e = some values := by
  simp only [constants?, Option.bind_eq_bind, Option.bind_eq_some_iff, Option.pure_def,
    Option.some.injEq] at h ⊢
  obtain ⟨runs, hruns, hvalues⟩ := h
  refine ⟨runs, mapM_some.mpr ((mapM_some.mp hruns).imp fun s run hrun => ?_), hvalues⟩
  simp only [constantSpan?, Option.bind_eq_bind, Option.bind_eq_some_iff] at hrun ⊢
  obtain ⟨n, hn, hrest⟩ := hrun
  exact ⟨n, node?_insert hn, hrest⟩

theorem folded?_insert {m : Model} {k : Node} {t : ElementType} {op : Operation}
    {left right : Selection} {values : List t.Value}
    (h : m.folded? t op left right = some values) :
    (m.insert k).folded? t op left right = some values := by
  simp only [folded?, Option.bind_eq_bind, Option.bind_eq_some_iff] at h ⊢
  obtain ⟨xs, hxs, ys, hys, hvalues⟩ := h
  exact ⟨xs, constants?_insert hxs, ys, constants?_insert hys, hvalues⟩

end Model

namespace Node

/-- `n'` is the constant that an operation on constants of `m` comes to, and stands for it. -/
inductive FoldsTo (place : NodeId → NodeId) (m : Model) (n : Node) : Node → Prop
  | intro {numeric : n.type.isNumeric = true} {op : Operation}
    {left right left' right' : Selection} {values : List n.type.Value}
    (body_eq : n.body = .operation numeric op left right) (left_wired : left.WiredBy place left')
    (right_wired : right.WiredBy place right') (left_fits : left'.Fits) (right_fits : right'.Fits)
    (folded : m.folded? n.type op left' right' = some values) :
    FoldsTo place m n (.constant (place n.id) n.type values)

/-- What stands for a node after folding: its copy, or what it comes to. -/
def KeptOrFolded (place : NodeId → NodeId) (m : Model) (n n' : Node) : Prop :=
  (n.Matches (Selection.WiredBy place) n' ∧ n'.Fresh) ∨ n.FoldsTo place m n'

theorem FoldsTo.insert {place : NodeId → NodeId} {m : Model} {k n n' : Node}
    (h : n.FoldsTo place m n') : n.FoldsTo place (m.insert k) n' := by
  cases h with
  | intro hbody hleft hright hfitsLeft hfitsRight hfolded =>
    exact .intro hbody hleft hright hfitsLeft hfitsRight (Model.folded?_insert hfolded)

theorem FoldsTo.marks_nothing {place : NodeId → NodeId} {m : Model} {n n' : Node}
    (h : n.FoldsTo place m n') : n.isInput = false ∧ n.isOutput = false ∧
      n'.isInput = false ∧ n'.isOutput = false := by
  cases h with
  | intro hbody hleft hright hfitsLeft hfitsRight hfolded =>
    simp [isInput, isOutput, hbody, constant]

theorem FoldsTo.size {place : NodeId → NodeId} {m : Model} {n n' : Node}
    (h : n.FoldsTo place m n') (hsized : n.Sized) (hbound : n.size < sizeLimit) :
    n'.size = n.size := by
  cases h with
  | intro hbody hleft hright hfitsLeft hfitsRight hfolded =>
    simp only [Model.folded?, Option.bind_eq_bind, Option.bind_eq_some_iff] at hfolded
    obtain ⟨xs, hxs, ys, hys, hvalues⟩ := hfolded
    have hlx := Selection.length_pick? (Model.pick?_of_constants? hxs hfitsLeft)
    have hly := Selection.length_pick? (Model.pick?_of_constants? hys hfitsRight)
    simp only [Sized, hbody] at hsized
    obtain ⟨hsl, hsr⟩ := hsized
    rw [← hleft.size] at hsl
    rw [← hright.size] at hsr
    -- both operands have as many elements as the node, and so has their result
    rw [← Selection.size_of_lt (by omega)] at hlx hly
    show (List.replicate _ n.type.default).length = n.size
    rw [List.length_replicate, mapM_length hvalues, List.length_zip]
    omega

/-- A node that reads what has been carried over comes to a constant there, or to nothing. -/
theorem folded?_carried {place : NodeId → NodeId} {pairs : List (Node × Node)}
    {c : Transformer.Context} {n : Node} (hc : Transformer.Carried place pairs c)
    (hspans : ∀ s ∈ n.spans, s.Placed pairs n.type) :
    n.folded? ⟨some c⟩ = .ok none ∨ ∃ values, n.folded? ⟨some c⟩ = .ok (some values) ∧
      n.FoldsTo place c.destination (.constant (place n.id) n.type values) := by
  rcases n with ⟨id, t, body, buffer⟩
  cases body with
  | input values => exact .inl rfl
  | constant values => exact .inl rfl
  | output source => exact .inl rfl
  | operation numeric op left right =>
    have hoperands : ∀ s, s ∈ left.spans ∨ s ∈ right.spans → s.Placed pairs t := by
      simpa [spans, inlets] using hspans
    obtain ⟨left', hrelocateLeft, hleft, hfitsLeft, -⟩ :=
      hc.relocate fun s hs => hoperands s (.inl hs)
    obtain ⟨right', hrelocateRight, hright, hfitsRight, -⟩ :=
      hc.relocate fun s hs => hoperands s (.inr hs)
    have hfold : folded? ⟨some c⟩ ⟨id, t, .operation numeric op left right, buffer⟩ =
        .ok (c.destination.folded? t op left' right') := by
      simp only [folded?, hrelocateLeft, hrelocateRight]
      rfl
    rw [hfold]
    cases hvalues : c.destination.folded? t op left' right' with
    | none => exact .inl rfl
    | some values =>
      exact .inr ⟨values, rfl, .intro rfl hleft hright hfitsLeft hfitsRight hvalues⟩

theorem FoldsTo.standsFor {place : NodeId → NodeId} {m : Model} {n n' : Node}
    (h : n.FoldsTo place m n') (hsized : n.Sized) (hbound : n.size < sizeLimit) :
    n.StandsFor place m n' := by
  have hsize := h.size hsized hbound
  cases h with
  | intro hbody hleft hright hfitsLeft hfitsRight hfolded =>
    exact ⟨rfl, rfl, hsize, List.length_replicate.symm, by simp [spans, inlets, constant]⟩

/-- Folding a node that reads what has been carried over puts the constant it comes to into the
destination, or its copy if it comes to nothing there. -/
theorem fold_carried {place : NodeId → NodeId} {pairs : List (Node × Node)}
    {c : Transformer.Context} {s : Supply} {n : Node} (hc : Transformer.Carried place pairs c)
    (hspans : ∀ s ∈ n.spans, s.Placed pairs n.type) (hsized : n.Sized) (hbound : n.size < sizeLimit)
    (hplace : place n.id = NodeId.nth s.drawn) (hfresh : place n.id ∉ c.destination.ids) :
    ∃ n', n.fold.perform ⟨s, ⟨some c⟩⟩ = (.ok (), ⟨s.draw.2, ⟨some (c.extend n.outlet n')⟩⟩) ∧
      n.StandsFor place c.destination n' ∧
      ((n.folded? ⟨some c⟩ = .ok none ∧ n.copied? ⟨some c⟩ (place n.id) = .ok n' ∧
        n.Matches (Selection.WiredBy place) n' ∧ n'.Fresh) ∨ n.FoldsTo place c.destination n') := by
  rcases folded?_carried hc hspans with hnone | ⟨values, hvalues, hto⟩
  · obtain ⟨n', hcopied, hmatches, hnew, hstands⟩ := copied?_carried hc hspans hsized
    refine ⟨n', fold_ok.mpr (.inr ⟨hnone, copy_ok.mpr ⟨n', ?_, ?_⟩⟩), hstands,
      .inl ⟨hnone, hcopied, hmatches, hnew⟩⟩
    · rw [← hplace]
      exact hcopied
    · exact hstands.substitute hbound hfresh _
  · have hstands := hto.standsFor hsized hbound
    refine ⟨_, fold_ok.mpr (.inl ⟨values, hvalues, ?_⟩), hstands, .inr hto⟩
    rw [← hplace]
    exact hstands.substitute hbound hfresh _

/-- Folding a node gives its copy, or the constant it comes to. -/
theorem carries_fold (place : NodeId → NodeId) :
    Workspace.Carries place (KeptOrFolded place) fold := by
  intro pairs c s n hc hspans hsized hbound hplace hfresh
  obtain ⟨n', hperform, hstands, hcases⟩ := fold_carried hc hspans hsized hbound hplace hfresh
  refine ⟨n', hperform, hstands, ?_⟩
  rcases hcases with ⟨-, -, hcopy⟩ | hfolds
  · exact .inl hcopy
  · exact .inr hfolds

end Node

theorem Selection.pick?_wired {α : Type} {place : NodeId → NodeId} {e e' : Selection}
    (h : e.WiredBy place e') {v w : NodeId → Option (List α)}
    (heq : ∀ s ∈ e.spans, w (place s.source.node) = v s.source.node) : e'.pick? w = e.pick? v := by
  rw [pick?, h, List.mapM_map, pick?]
  refine mapM_congr fun x hx => ?_
  obtain ⟨s, hs, hx⟩ := List.mem_flatMap.mp hx
  obtain ⟨i, -, rfl⟩ := List.mem_map.mp hx
  simp only [Function.comp_def, heq s hs]

theorem Selection.pick?_imp {α : Type} {e : Selection} {v w : NodeId → Option (List α)}
    {values : List α} (h : ∀ id held, v id = some held → w id = some held)
    (hv : e.pick? v = some values) : e.pick? w = some values := by
  refine mapM_imp hv fun x _ y hy => ?_
  obtain ⟨held, hheld, hget⟩ := Option.bind_eq_some_iff.mp hy
  rw [h _ held hheld, Option.bind_some, hget]

namespace Model

/-- A constant node means its values, whatever the inputs are. -/
theorem reference_feed_constant {m : Model} {feed : Feed} (hwf : (m.feed feed).WellFormed)
    {t : ElementType} {id : NodeId} {values : List t.Value}
    (h : m.constantValue t id = some values) : (m.feed feed).reference t id = some values := by
  obtain ⟨n, hn, hvalues⟩ := Option.bind_eq_some_iff.mp h
  obtain ⟨hmem, rfl⟩ := node?_eq_some hn
  rcases n with ⟨id, u, body, buffer⟩
  cases body <;> simp only [Node.constants?, reduceCtorEq] at hvalues
  case constant held =>
    split at hvalues
    case isFalse => cases hvalues
    case isTrue same =>
      subst same
      obtain rfl := Option.some.inj hvalues
      exact reference_of_mem hwf (mem_feed hmem)

/-- One step: a node that was kept or folded means what it did if what it reads does. -/
theorem reference_keptOrFolded {place : NodeId → NodeId} {m r : Model} {a b : Feed}
    (hwf : (m.feed a).WellFormed) (hwf' : (r.feed b).WellFormed) {n n' : Node} (hn : n ∈ m.nodes)
    (hn' : n' ∈ r.nodes) (h : n.KeptOrFolded place r n')
    (hinput : n.isInput = true → b n'.id n.type = a n.id n.type)
    (hreads : ∀ s ∈ n.spans, (r.feed b).reference n.type (place s.source.node) =
      (m.feed a).reference n.type s.source.node) :
    (r.feed b).reference n.type n'.id = (m.feed a).reference n.type n.id := by
  have hmeans := reference_of_mem hwf (mem_feed hn)
  have hmeans' := reference_of_mem hwf' (mem_feed hn')
  rcases h with ⟨hmatches, -⟩ | hfolds
  · rcases n with ⟨id, t, body, buffer⟩
    cases hmatches with
    | intro id' body' buffer' hbody hsize =>
      cases body <;> cases body' <;> simp only [Body.Matches] at hbody
      case input.input values values' =>
        exact hmeans'.trans ((congrArg some (hinput rfl)).trans hmeans.symm)
      case constant.constant values values' =>
        exact hmeans'.trans ((congrArg some hbody).trans hmeans.symm)
      case output.output source source' =>
        have hpick := Selection.pick?_wired hbody fun s hs =>
          hreads s (by simpa [Node.spans, Node.inlets] using hs)
        exact hmeans'.trans (hpick.trans hmeans.symm)
      case operation.operation numeric op left right numeric' op' left' right' =>
        obtain ⟨rfl, hleft, hright⟩ := hbody
        have hpickLeft := Selection.pick?_wired hleft fun s hs =>
          hreads s (by simp [Node.spans, Node.inlets, hs])
        have hpickRight := Selection.pick?_wired hright fun s hs =>
          hreads s (by simp [Node.spans, Node.inlets, hs])
        refine hmeans'.trans (Eq.trans ?_ hmeans.symm)
        simp only [Node.feed, Node.value?, hpickLeft, hpickRight]
  · have hplain := hfolds.marks_nothing.1
    cases hfolds with
    | @intro numeric op left right left' right' values hbody hleft hright hfitsLeft hfitsRight
        hfolded =>
      simp only [folded?, Option.bind_eq_bind, Option.bind_eq_some_iff] at hfolded
      obtain ⟨xs, hxs, ys, hys, hvalues⟩ := hfolded
      have hspans := Node.spans_operation hbody
      have hconstants : ∀ id held, r.constantValue n.type id = some held →
          (r.feed b).reference n.type id = some held :=
        fun id held hheld => reference_feed_constant hwf' hheld
      -- the operands are constants in `r`, and mean in `m` what they mean there
      have hpickLeft : left.pick? ((m.feed a).reference n.type) = some xs := by
        rw [← Selection.pick?_imp hconstants (pick?_of_constants? hxs hfitsLeft)]
        exact (Selection.pick?_wired hleft fun s hs => hreads s (by simp [hspans, hs])).symm
      have hpickRight : right.pick? ((m.feed a).reference n.type) = some ys := by
        rw [← Selection.pick?_imp hconstants (pick?_of_constants? hys hfitsRight)]
        exact (Selection.pick?_wired hright fun s hs => hreads s (by simp [hspans, hs])).symm
      have hfolded : (r.feed b).reference n.type (place n.id) = some values := hmeans'
      rw [Node.feed_of_isInput_eq_false hplain] at hmeans
      have hvalue : n.value? ((m.feed a).reference n.type) = some values := by
        simp only [Node.value?, hbody, hpickLeft, hpickRight, Option.bind_eq_bind, Option.bind_some,
          ← Operation.apply_eq_meaning]
        exact hvalues
      exact hfolded.trans (hmeans.trans hvalue).symm

/-- Some nodes of `m`, with all that they depend on, have one each in `r` that stands for it. -/
structure CarriedPart (place : NodeId → NodeId) (m r : Model) (pairs : List (Node × Node)) :
    Prop where
  closed : ∀ p ∈ pairs, p.1.dependencies ⊆ pairs.map fun p => p.1.id
  nodes : r.nodes = pairs.map Prod.snd
  wellFormed : m.WellFormed
  wellFormed_result : r.WellFormed
  source : ∀ p ∈ pairs, p.1 ∈ m.nodes
  stands : ∀ p ∈ pairs, p.2.id = place p.1.id ∧ p.2.type = p.1.type ∧ p.2.size = p.1.size
  kept : ∀ p ∈ pairs, p.1.KeptOrFolded place r p.2

/-- Nodes that stand for input nodes are fed the same values. -/
def FedAlike (pairs : List (Node × Node)) (a b : Feed) : Prop :=
  ∀ p ∈ pairs, p.1.isInput = true → b p.2.id p.1.type = a p.1.id p.1.type

namespace CarriedPart

variable {place : NodeId → NodeId} {m r : Model} {pairs : List (Node × Node)}

theorem mem_result (h : CarriedPart place m r pairs) {p : Node × Node} (hp : p ∈ pairs) :
    p.2 ∈ r.nodes := by
  rw [h.nodes]
  exact List.mem_map_of_mem hp

/-- Every node of the result stands for one. -/
theorem exists_pair_result (h : CarriedPart place m r pairs) {n' : Node} (hn' : n' ∈ r.nodes) :
    ∃ p ∈ pairs, p.2 = n' := by
  rw [h.nodes] at hn'
  exact List.mem_map.mp hn'

theorem ids_result (h : CarriedPart place m r pairs) : r.ids = pairs.map fun p => p.2.id := by
  rw [Model.ids, h.nodes, List.map_map]
  rfl

/-- What a node reads has one that stands for it. -/
theorem exists_source (h : CarriedPart place m r pairs) {p : Node × Node} (hp : p ∈ pairs)
    {s : Span} (hs : s ∈ p.1.spans) :
    ∃ q ∈ pairs, q.1.id = s.source.node ∧ q.2.id = place s.source.node := by
  have hdep : s.source.node ∈ p.1.dependencies := Node.mem_dependencies.mpr ⟨s, hs, rfl⟩
  obtain ⟨q, hq, hid⟩ := List.mem_map.mp (h.closed p hp hdep)
  exact ⟨q, hq, hid, by rw [(h.stands q hq).1, hid]⟩

theorem isInput_eq (h : CarriedPart place m r pairs) {p : Node × Node} (hp : p ∈ pairs) :
    p.2.isInput = p.1.isInput ∧ p.2.isOutput = p.1.isOutput := by
  rcases h.kept p hp with ⟨hmatches, -⟩ | hfolds
  · exact ⟨hmatches.isInput, hmatches.isOutput⟩
  · obtain ⟨h₁, h₂, h₃, h₄⟩ := hfolds.marks_nothing
    exact ⟨h₃.trans h₁.symm, h₄.trans h₂.symm⟩

theorem accepts (h : CarriedPart place m r pairs) {a b : Feed} (ha : m.Accepts a)
    (hfed : FedAlike pairs a b) : r.Accepts b := by
  intro n' hn' hinput
  obtain ⟨p, hp, rfl⟩ := h.exists_pair_result hn'
  obtain ⟨-, htype, hsize⟩ := h.stands p hp
  rw [(h.isInput_eq hp).1] at hinput
  rw [hsize, htype, hfed p hp hinput]
  exact ha p.1 (h.source p hp) hinput

/-- The nodes mean the same: by induction on the rank of a node, since what it reads ranks lower. -/
theorem reference_eq (h : CarriedPart place m r pairs) {a b : Feed} (ha : m.Accepts a)
    (hfed : FedAlike pairs a b) {p : Node × Node} (hp : p ∈ pairs) (t : ElementType) :
    (r.feed b).reference t p.2.id = (m.feed a).reference t p.1.id := by
  have hwf := ha.wellFormed h.wellFormed
  have hwf' := (h.accepts ha hfed).wellFormed h.wellFormed_result
  obtain ⟨ids, ho⟩ := h.wellFormed.ordered
  have hrank : ∀ k, ∀ p ∈ pairs, ids.idxOf p.1.id = k → ∀ t,
      (r.feed b).reference t p.2.id = (m.feed a).reference t p.1.id := by
    intro k
    induction k using Nat.strongRecOn with
    | ind k ih =>
      intro p hp hk t
      have hmem : p.1.feed a ∈ (m.feed a).nodes := mem_feed (h.source p hp)
      have hmem' : p.2.feed b ∈ (r.feed b).nodes := mem_feed (h.mem_result hp)
      obtain ⟨hid, htype, -⟩ := h.stands p hp
      have hreads : ∀ s ∈ p.1.spans, ∀ t, (r.feed b).reference t (place s.source.node) =
          (m.feed a).reference t s.source.node := by
        intro s hs t
        obtain ⟨q, hq, hid, hid'⟩ := h.exists_source hp hs
        have hdep : q.1.id ∈ p.1.dependencies := Node.mem_dependencies.mpr ⟨s, hs, hid.symm⟩
        have hlow := order_rank h.wellFormed.distinct ho (h.source p hp) hdep
        rw [hk] at hlow
        rw [← hid', ← hid]
        exact ih _ hlow q hq rfl t
      by_cases ht : p.1.type = t
      case neg =>
        have hnode := node?_of_mem hwf.distinct hmem
        have hnode' := node?_of_mem hwf'.distinct hmem'
        rw [(p.1.sameShape_feed a).id] at hnode
        rw [(p.2.sameShape_feed b).id] at hnode'
        rw [reference_of_type_ne hnode (by rwa [(p.1.sameShape_feed a).type]),
          reference_of_type_ne hnode' (by rwa [(p.2.sameShape_feed b).type, htype])]
      case pos =>
        subst ht
        exact reference_keptOrFolded hwf hwf' (h.source p hp) (h.mem_result hp) (h.kept p hp)
          (hfed p hp) fun s hs => hreads s hs _
  exact hrank _ p hp rfl t

/-- What a node reads means the same on both sides. -/
theorem reads_eq (h : CarriedPart place m r pairs) {a b : Feed} (ha : m.Accepts a)
    (hfed : FedAlike pairs a b) {p : Node × Node} (hp : p ∈ pairs) (t : ElementType) :
    ∀ s ∈ p.1.spans, (r.feed b).reference t (place s.source.node) =
      (m.feed a).reference t s.source.node := by
  intro s hs
  obtain ⟨q, hq, hid, hid'⟩ := h.exists_source hp hs
  rw [← hid', ← hid]
  exact h.reference_eq ha hfed hq t

/-- The nodes of a kind that is kept stand for one another in their order. -/
theorem filter_eq (h : CarriedPart place m r pairs) {kind : Node → Bool}
    (hkind : ∀ p ∈ pairs, kind p.2 = kind p.1) :
    r.ids.filter (fun id => (r.node? id).any kind) =
      ((pairs.map fun p => p.1.id).filter fun id => (m.node? id).any kind).map place := by
  rw [h.ids_result, List.filter_map, List.filter_map, List.map_map]
  have hsame : pairs.filter ((fun id => (r.node? id).any kind) ∘ fun p => p.2.id) =
      pairs.filter ((fun id => (m.node? id).any kind) ∘ fun p => p.1.id) := by
    refine List.filter_congr fun p hp => ?_
    simp only [Function.comp_def, node?_of_mem h.wellFormed.distinct (h.source p hp),
      node?_of_mem h.wellFormed_result.distinct (h.mem_result hp), Option.any_some, hkind p hp]
  rw [hsame]
  refine List.map_congr_left fun p hp => ?_
  exact (h.stands p (List.mem_filter.mp hp).1).1

end CarriedPart

/-- Each node of `m`, in the order of `m`, has one in `r` that stands for it after folding. -/
structure CarriedOver (place : NodeId → NodeId) (m r : Model) (pairs : List (Node × Node)) :
    Prop where
  order : m.order = .ok (pairs.map fun p => p.1.id)
  order_result : r.order = .ok r.ids
  nodes : r.nodes = pairs.map Prod.snd
  wellFormed : m.WellFormed
  wellFormed_result : r.WellFormed
  source : ∀ p ∈ pairs, p.1 ∈ m.nodes
  stands : ∀ p ∈ pairs, p.2.id = place p.1.id ∧ p.2.type = p.1.type ∧ p.2.size = p.1.size
  kept : ∀ p ∈ pairs, p.1.KeptOrFolded place r p.2

namespace CarriedOver

variable {place : NodeId → NodeId} {m r : Model} {pairs : List (Node × Node)}

/-- Every node of the source has one that stands for it. -/
theorem exists_pair (h : CarriedOver place m r pairs) {id : NodeId} (hid : id ∈ m.ids) :
    ∃ p ∈ pairs, p.1.id = id := by
  have hmem := (order_perm h.order).mem_iff.mpr hid
  exact List.mem_map.mp hmem

/-- The whole of a model is closed under dependencies. -/
theorem part (h : CarriedOver place m r pairs) : CarriedPart place m r pairs :=
  { h with
    closed := fun p hp _ hid =>
      (order_perm h.order).mem_iff.mpr (h.wellFormed.dependencies (h.source p hp) hid) }

theorem accepts (h : CarriedOver place m r pairs) {a b : Feed} (ha : m.Accepts a)
    (hfed : FedAlike pairs a b) : r.Accepts b :=
  h.part.accepts ha hfed

theorem reference_eq (h : CarriedOver place m r pairs) {a b : Feed} (ha : m.Accepts a)
    (hfed : FedAlike pairs a b) {p : Node × Node} (hp : p ∈ pairs) (t : ElementType) :
    (r.feed b).reference t p.2.id = (m.feed a).reference t p.1.id :=
  h.part.reference_eq ha hfed hp t

theorem isInput_eq (h : CarriedOver place m r pairs) {p : Node × Node} (hp : p ∈ pairs) :
    p.2.isInput = p.1.isInput ∧ p.2.isOutput = p.1.isOutput :=
  h.part.isInput_eq hp

/-- The nodes of a kind that is kept are at the same positions of both orders. -/
theorem filter_eq (h : CarriedOver place m r pairs) {ids : List NodeId} (ho : m.order = .ok ids)
    {kind : Node → Bool} (hkind : ∀ p ∈ pairs, kind p.2 = kind p.1) :
    r.ids.filter (fun id => (r.node? id).any kind) =
      (ids.filter fun id => (m.node? id).any kind).map place := by
  obtain rfl : (pairs.map fun p => p.1.id) = ids := Except.ok.inj (h.order.symm.trans ho)
  exact h.part.filter_eq hkind

end CarriedOver

/-- A visitor that gives every node its copy, or what it comes to, carries the model over. -/
theorem WellFormed.rebuild_carriedOver {Rel : Model → Node → Node → Prop}
    {visitor : Node → Visit Unit} {m : Model} (hwf : m.WellFormed) (ha : m.Allocatable)
    {ids : List NodeId} (ho : m.order = .ok ids) (s : Supply)
    (hv : Workspace.Carries (s.place ids) Rel visitor)
    (hmono : ∀ (m : Model) (k n n' : Node), Rel m n n' → Rel (m.insert k) n n')
    (hkept : ∀ (m : Model) (n n' : Node), Rel m n n' → n.KeptOrFolded (s.place ids) m n') :
    ∃ pairs r, (m.rebuild visitor).runWith s = (.ok r, ⟨s.drawn + m.size⟩) ∧
      CarriedOver (s.place ids) m r pairs ∧ r.Allocatable ∧ ∀ p ∈ pairs, Rel r p.1 p.2 := by
  obtain ⟨pairs, r, hrun, hnodes, hids, -, -, hrorder, hrwf, hralloc, hpairs⟩ :=
    rebuild_carried hwf ha ho s hv hmono
  refine ⟨pairs, r, hrun, ?_, hralloc, fun p hp => (hpairs p hp).2.2.2.2⟩
  exact
    { order := by rw [ho, hids]
      order_result := hrorder
      nodes := hnodes
      wellFormed := hwf
      wellFormed_result := hrwf
      source := fun p hp => (hpairs p hp).1
      stands := fun p hp => ⟨(hpairs p hp).2.1, (hpairs p hp).2.2.1, (hpairs p hp).2.2.2.1⟩
      kept := fun p hp => hkept r p.1 p.2 (hpairs p hp).2.2.2.2 }

end Model

theorem split_map {α β : Type} {f : α → β} {xs : List α} {before after : List β} {y : β}
    (h : xs.map f = before ++ y :: after) :
    ∃ first x last, xs = first ++ x :: last ∧ before = first.map f ∧ f x = y := by
  obtain ⟨first, others, rfl, rfl, hothers⟩ := List.map_eq_append_iff.mp h
  obtain ⟨x, last, rfl, hx, -⟩ := List.map_eq_cons_iff.mp hothers
  exact ⟨first, x, last, rfl, rfl, hx⟩

/-- The first element without a result is the only one of its kind. -/
theorem first_none_unique {α β : Type} {f : α → Option β} {xs : List α} {i j : Nat} {x y : α}
    (hi : xs[i]? = some x) (hx : f x = none) (hbefore : ∀ z ∈ xs.take i, (f z).isSome)
    (hj : xs[j]? = some y) (hy : f y = none) (hbefore' : ∀ z ∈ xs.take j, (f z).isSome) :
    i = j ∧ x = y := by
  have hnot : ∀ {i j : Nat} {x : α}, xs[i]? = some x → f x = none →
      (∀ z ∈ xs.take j, (f z).isSome) → j ≤ i := by
    intro i j x hi hx hbefore
    by_contra hlt
    have hmem : x ∈ xs.take j := by
      apply List.mem_of_getElem? (i := i)
      rw [List.getElem?_take, if_pos (by omega), hi]
    have hsome := hbefore x hmem
    rw [hx] at hsome
    cases hsome
  have heq : i = j := Nat.le_antisymm (hnot hj hy hbefore) (hnot hi hx hbefore')
  subst heq
  rw [hi] at hj
  exact ⟨rfl, Option.some.inj hj⟩

namespace Node

/-- Constants do not fail. -/
theorem FoldsTo.not_fails {place : NodeId → NodeId} {m : Model} {n n' : Node}
    (h : n.FoldsTo place m n') {v : NodeId → Option (List n'.type.Value)} {detail : String} :
    ¬ n'.Fails v detail := by
  cases h with
  | intro hbody hleft hright hfitsLeft hfitsRight hfolded =>
    intro h
    obtain ⟨numeric, op, left, right, xs, ys, index, x, y, hbody', -⟩ := h
    cases hbody'

theorem Fails.isInput_eq_false {n : Node} {v : NodeId → Option (List n.type.Value)}
    {detail : String} (h : n.Fails v detail) : n.isInput = false := by
  obtain ⟨numeric, op, left, right, xs, ys, index, x, y, hbody, -⟩ := h
  simp [isInput, hbody]

/-- A copy fails where its source does, and says so in the same words. -/
theorem Matches.fails_eq {place : NodeId → NodeId} {n n' : Node} {m r : Model}
    (h : n.Matches (Selection.WiredBy place) n') {detail detail' : String}
    (hf : n.Fails (m.reference n.type) detail) (hf' : n'.Fails (r.reference n'.type) detail')
    (hreads : ∀ s ∈ n.spans, r.reference n.type (place s.source.node) =
      m.reference n.type s.source.node) : detail' = detail := by
  cases h with
  | intro id' body' buffer' hmatches hsize =>
    obtain ⟨numeric, op, left, right, xs, ys, i, x, y, hbody, hxs, hys, hi, hundef, hbefore,
      rfl⟩ := hf
    obtain ⟨numeric', op', left', right', xs', ys', j, x', y', hbody', hxs', hys', hj, hundef',
      hbefore', rfl⟩ := hf'
    have hbody'' : body' = .operation numeric' op' left' right' := hbody'
    rw [hbody, hbody''] at hmatches
    obtain ⟨rfl, hleft, hright⟩ := hmatches
    have hspans := Node.spans_operation hbody
    have hx := Selection.pick?_wired hleft fun s hs => hreads s (by simp [hspans, hs])
    have hy := Selection.pick?_wired hright fun s hs => hreads s (by simp [hspans, hs])
    obtain rfl : xs' = xs := Option.some.inj (hxs'.symm.trans (hx.trans hxs))
    obtain rfl : ys' = ys := Option.some.inj (hys'.symm.trans (hy.trans hys))
    -- the pairs of operands are the same, and so is the first one without a result
    obtain ⟨rfl, hpair⟩ := first_none_unique (f := fun p => op'.meaning? n.type p.1 p.2)
      hj hundef' hbefore' hi hundef hbefore
    obtain ⟨rfl, rfl⟩ := Prod.mk.inj hpair
    rfl

end Node

namespace Model.CarriedOver

variable {place : NodeId → NodeId} {m r : Model} {pairs : List (Node × Node)}

/-- Both models compute, to the same values, or both fail, at nodes that stand for one another and
in the same words. -/
theorem compute_eq (h : CarriedOver place m r pairs) (hm : m.Allocatable) (hr : r.Allocatable)
    {a b : Feed} (ha : m.Accepts a) (hfed : FedAlike pairs a b) :
    (∃ m₁ r₁, (m.feed a).compute = (.ok (), m₁) ∧ (r.feed b).compute = (.ok (), r₁) ∧
      ∀ p ∈ pairs, ∀ t, r₁.buffer? t p.2.id = m₁.buffer? t p.1.id) ∨
    (∃ p ∈ pairs, ∃ detail m₁ r₁,
      (m.feed a).compute = (.error (.arithmetic p.1.id detail), m₁) ∧
        (r.feed b).compute = (.error (.arithmetic p.2.id detail), r₁)) := by
  have hwf := ha.wellFormed h.wellFormed
  have hwf' := (h.accepts ha hfed).wellFormed h.wellFormed_result
  have hcases := hwf.compute_cases (allocatable_feed a hm) (.refl _) (order_feed a h.order)
  have hcases' := hwf'.compute_cases (allocatable_feed b hr) (.refl _) (order_feed b h.order_result)
  -- a node has a value exactly if the one that stands for it has
  have hsome : ∀ p ∈ pairs, ((r.feed b).reference (p.2.feed b).type (p.2.feed b).id).isSome =
      ((m.feed a).reference (p.1.feed a).type (p.1.feed a).id).isSome := by
    intro p hp
    rw [(p.1.sameShape_feed a).type, (p.2.sameShape_feed b).type, (p.1.sameShape_feed a).id,
      (p.2.sameShape_feed b).id, (h.stands p hp).2.1, h.reference_eq ha hfed hp]
  rcases hcases with ⟨m₁, hrun, hsettled, hdefined⟩ |
    ⟨before, n, after, detail, m₁, hids, hn, hrun, -, hdefined, hnone, hfails, -⟩
  · left
    rcases hcases' with ⟨r₁, hrun', hsettled', -⟩ |
      ⟨before', n', after', detail', r₁, hids', hn', hrun', -, -, hnone', -, -⟩
    · refine ⟨m₁, r₁, hrun, hrun', fun p hp t => ?_⟩
      have hid : p.1.id ∈ pairs.map fun p => p.1.id := List.mem_map_of_mem hp
      have hid' : p.2.id ∈ r.ids := List.mem_map_of_mem (h.part.mem_result hp)
      rw [hsettled.2 _ hid, hsettled'.2 _ hid', h.reference_eq ha hfed hp]
    · obtain ⟨k, hk, rfl⟩ := List.mem_map.mp hn'
      rw [h.nodes] at hk
      obtain ⟨p, hp, rfl⟩ := List.mem_map.mp hk
      -- a node without a value would have a source without one
      have hvalue := hsome p hp
      rw [hnone', hdefined _ (mem_feed (h.source p hp))] at hvalue
      cases hvalue
  · right
    rcases hcases' with ⟨r₁, hrun', -, hdefined'⟩ |
      ⟨before', n', after', detail', r₁, hids', hn', hrun', -, hdefined', hnone', hfails', -⟩
    · obtain ⟨k, hk, rfl⟩ := List.mem_map.mp hn
      obtain ⟨p, hp, hid⟩ := h.exists_pair (mem_ids.mpr ⟨k, hk, rfl⟩)
      obtain rfl := List.inj_on_of_nodup_map h.wellFormed.distinct (h.source p hp) hk hid
      have hvalue := hsome p hp
      rw [hnone, hdefined' _ (mem_feed (h.part.mem_result hp))] at hvalue
      cases hvalue
    · rw [h.part.ids_result] at hids'
      obtain ⟨first, p, last, hpairs, rfl, hp⟩ := split_map hids
      obtain ⟨first', q, last', hpairs', rfl, hq⟩ := split_map hids'
      have hpmem : p ∈ pairs := by simp [hpairs]
      have hqmem : q ∈ pairs := by simp [hpairs']
      obtain rfl : p.1.feed a = n := List.inj_on_of_nodup_map hwf.distinct
        (mem_feed (h.source p hpmem)) hn ((p.1.sameShape_feed a).id.trans hp)
      obtain rfl : q.2.feed b = n' := List.inj_on_of_nodup_map hwf'.distinct
        (mem_feed (h.part.mem_result hqmem)) hn' ((q.2.sameShape_feed b).id.trans hq)
      -- neither source has a value, nor has what stands for it
      have hpnone := hsome p hpmem
      rw [hnone] at hpnone
      have hqnone := hsome q hqmem
      rw [hnone'] at hqnone
      -- neither of the two nodes comes before the other, so they are a pair
      have hpq : p = q := by
        have hp' : p ∉ first' := by
          intro hmem
          have hvalue := hdefined' _ (mem_feed (h.part.mem_result hpmem))
            (List.mem_map.mpr ⟨p, hmem, (p.2.sameShape_feed b).id.symm⟩)
          rw [hpnone] at hvalue
          cases hvalue
        have hq' : q ∉ first := by
          intro hmem
          have hvalue := hdefined _ (mem_feed (h.source q hqmem))
            (List.mem_map.mpr ⟨q, hmem, (q.1.sameShape_feed a).id.symm⟩)
          rw [← hqnone] at hvalue
          cases hvalue
        rw [hpairs] at hpairs'
        rcases List.append_eq_append_iff.mp hpairs' with ⟨rest, rfl, hrest⟩ | ⟨rest, rfl, hrest⟩
        · cases rest with
          | nil => exact (List.cons.inj hrest).1
          | cons k rest =>
            obtain rfl := (List.cons.inj hrest).1
            exact absurd (by simp) hp'
        · cases rest with
          | nil => exact (List.cons.inj hrest).1.symm
          | cons k rest =>
            obtain rfl := (List.cons.inj hrest).1
            exact absurd (by simp) hq'
      subst hpq
      -- it is no input node, so that feeding left both nodes as they were
      have hplain : p.1.isInput = false := by
        rw [← p.1.isInput_feed a]
        exact hfails.isInput_eq_false
      have hplain' : p.2.isInput = false := by rw [(h.isInput_eq hpmem).1, hplain]
      rw [Node.feed_of_isInput_eq_false hplain] at hfails hrun
      rw [Node.feed_of_isInput_eq_false hplain'] at hfails' hrun'
      have hdetail : detail' = detail := by
        rcases h.kept p hpmem with ⟨hmatches, -⟩ | hfolds
        · exact hmatches.fails_eq hfails hfails' fun s hs => h.part.reads_eq ha hfed hpmem _ s hs
        · exact (hfolds.not_fails hfails').elim
      exact ⟨p, hpmem, detail, m₁, r₁, hrun, by rw [hrun', hdetail]⟩

end Model.CarriedOver

/-- Folding keeps the meaning of a model. It succeeds, and its nodes stand for those of the source
in their order: each is a copy, wired to the same elements, or the constant that an operation on
constants comes to. Whatever the input nodes are fed, each node means what its source does, and both
models compute to the same values or both fail, at the same node and in the same words. -/
theorem Reachable.fold_preserves_meaning {s₀ : Supply} {m : Model} (h : Reachable s₀ m)
    (ha : m.Allocatable) (s : Supply) :
    ∃ (place : NodeId → NodeId) (pairs : List (Node × Node)) (r : Model)
        (inputs outputs : List NodeId),
      m.fold.runWith s = (.ok r, ⟨s.drawn + m.size⟩) ∧
      m.order = .ok (pairs.map fun p => p.1.id) ∧ r.nodes = pairs.map Prod.snd ∧
      (∀ p ∈ pairs, p.1 ∈ m.nodes ∧ p.2.id = place p.1.id ∧ p.2.type = p.1.type ∧
        p.2.size = p.1.size ∧ p.1.KeptOrFolded place r p.2) ∧
      m.inputs = .ok inputs ∧ r.inputs = .ok (inputs.map place) ∧
      m.outputs = .ok outputs ∧ r.outputs = .ok (outputs.map place) ∧
      ∀ a b, m.Accepts a → Model.FedAlike pairs a b → r.Accepts b ∧
        (∀ p ∈ pairs, ∀ t, (r.feed b).reference t p.2.id = (m.feed a).reference t p.1.id) ∧
        ((∃ m₁ r₁, (m.feed a).compute = (.ok (), m₁) ∧ (r.feed b).compute = (.ok (), r₁) ∧
          ∀ p ∈ pairs, ∀ t, r₁.buffer? t p.2.id = m₁.buffer? t p.1.id) ∨
        (∃ p ∈ pairs, ∃ detail m₁ r₁,
          (m.feed a).compute = (.error (.arithmetic p.1.id detail), m₁) ∧
            (r.feed b).compute = (.error (.arithmetic p.2.id detail), r₁))) := by
  obtain ⟨hwf, -⟩ := h.wellFormed
  obtain ⟨ids, ho⟩ := hwf.ordered
  -- what a constant was folded from stays in the destination
  have hmono : ∀ (r : Model) (k n n' : Node),
      n.KeptOrFolded (s.place ids) r n' →
        n.KeptOrFolded (s.place ids) (r.insert k) n' := by
    intro r k n n' hkept
    rcases hkept with hcopy | hfolds
    · exact .inl hcopy
    · exact .inr hfolds.insert
  obtain ⟨pairs, r, hrun, hnodes, hids, hrids, -, hrorder, hrwf, hralloc, hpairs⟩ :=
    Model.rebuild_carried hwf ha ho s (Node.carries_fold _) hmono
  -- all that is left follows from how the nodes of the two models stand for each other
  have hcarried : Model.CarriedOver (s.place ids) m r pairs :=
    { order := by rw [ho, hids]
      order_result := hrorder
      nodes := hnodes
      wellFormed := hwf
      wellFormed_result := hrwf
      source := fun p hp => (hpairs p hp).1
      stands := fun p hp => ⟨(hpairs p hp).2.1, (hpairs p hp).2.2.1, (hpairs p hp).2.2.2.1⟩
      kept := fun p hp => (hpairs p hp).2.2.2.2 }
  have hinputs : r.inputs = .ok ((ids.filter fun id => (m.node? id).any Node.isInput).map
      (s.place ids)) := by
    rw [Model.inputs, hrorder, ← hcarried.filter_eq ho fun p hp => (hcarried.isInput_eq hp).1]
    rfl
  have houtputs : r.outputs = .ok ((ids.filter fun id => (m.node? id).any Node.isOutput).map
      (s.place ids)) := by
    rw [Model.outputs, hrorder, ← hcarried.filter_eq ho fun p hp => (hcarried.isInput_eq hp).2]
    rfl
  refine ⟨s.place ids, pairs, r, _, _, hrun, hcarried.order, hnodes, hpairs, ?_, hinputs,
    ?_, houtputs, fun a b haccepts hfed => ?_⟩
  · rw [Model.inputs, ho]
    rfl
  · rw [Model.outputs, ho]
    rfl
  · exact ⟨hcarried.accepts haccepts hfed, fun p hp t => hcarried.reference_eq haccepts hfed hp t,
      hcarried.compute_eq ha hralloc haccepts hfed⟩

/-- Twice three, added to an input. -/
def shiftedModel : Model :=
  ⟨[.input ⟨1⟩ .int 1, .constant ⟨2⟩ .int [(2 : Int32), (3 : Int32)],
    ⟨⟨3⟩, .int, .operation ElementType.isNumeric_int .multiply (.single ⟨⟨⟨2⟩, "output"⟩, 0, 1⟩)
      (.single ⟨⟨⟨2⟩, "output"⟩, 1, 1⟩), [(0 : Int32)]⟩,
    ⟨⟨4⟩, .int, .operation ElementType.isNumeric_int .add (.single ⟨⟨⟨3⟩, "output"⟩, 0, 1⟩)
      (.single ⟨⟨⟨1⟩, "output"⟩, 0, 1⟩), [(0 : Int32)]⟩]⟩

theorem shiftedModel_reachable : Reachable ⟨4⟩ shiftedModel := by
  have hissued : ∀ k < 4, Supply.Issued ⟨4⟩ (NodeId.nth k) := fun k hk => ⟨k, hk, rfl⟩
  have h₁ := (Reachable.empty ⟨4⟩).add (.input (hissued 0 (by decide)) .int 1) rfl
  have h₂ := h₁.add (.constant (hissued 1 (by decide)) .int [(2 : Int32), (3 : Int32)]) rfl
  have hproduct : Node.operation (NodeId.nth 2) .int rfl .multiply
      (.single ⟨⟨⟨2⟩, "output"⟩, 0, 1⟩) (.single ⟨⟨⟨2⟩, "output"⟩, 1, 1⟩) =
        .ok shiftedModel.nodes[2] := rfl
  have h₃ := h₂.add (.operation (hissued 2 (by decide)) hproduct) rfl
  have hsum : Node.operation (NodeId.nth 3) .int rfl .add (.single ⟨⟨⟨3⟩, "output"⟩, 0, 1⟩)
      (.single ⟨⟨⟨1⟩, "output"⟩, 0, 1⟩) = .ok shiftedModel.nodes[3] := rfl
  exact h₃.add (.operation (hissued 3 (by decide)) hsum) rfl

theorem fold_preserves_meaning_shiftedModel :
    Reachable ⟨4⟩ shiftedModel ∧ shiftedModel.Allocatable ∧
      ∃ (pairs : List (Node × Node)) (r : Model), shiftedModel.fold.runWith ⟨4⟩ = (.ok r, ⟨8⟩) ∧
        shiftedModel.order = .ok (pairs.map fun p => p.1.id) ∧
          r.nodes = pairs.map Prod.snd := by
  have hallocatable : shiftedModel.Allocatable := by
    show ∀ n ∈ shiftedModel.nodes, n.size < sizeLimit
    decide
  obtain ⟨_, pairs, r, _, _, hrun, horder, hnodes, -⟩ :=
    shiftedModel_reachable.fold_preserves_meaning hallocatable ⟨4⟩
  exact ⟨shiftedModel_reachable, hallocatable, pairs, r, hrun, horder, hnodes⟩

end FlowGraph
