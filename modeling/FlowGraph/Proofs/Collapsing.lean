import FlowGraph.Proofs.Canonical
import FlowGraph.Proofs.Copying

/-! What folding leaves: exactly the operations that depend on something else than constants, or
that have no result. -/
namespace FlowGraph

namespace Node

def isConstant (n : Node) : Bool := n.body matches .constant _

def isOperation (n : Node) : Bool := n.body matches .operation _ _ _ _

/-- Every element that the node reads is of a node that satisfies `P`. -/
def ReadsOnly (P : NodeId → Prop) (n : Node) : Prop :=
  ∀ s ∈ n.spans, s.count ≠ 0 → P s.source.node

/-- The node is an operation that has a result at every pair of elements it reads. -/
def DefinedIn (m : Model) (n : Node) : Prop :=
  ∃ numeric op left right xs ys, n.body = .operation numeric op left right ∧
    left.pick? (m.reference n.type) = some xs ∧ right.pick? (m.reference n.type) = some ys ∧
      ∀ p ∈ xs.zip ys, (op.meaning? n.type p.1 p.2).isSome = true

end Node

namespace Model

/-- The node of this id is a constant. -/
def ConstantAt (m : Model) (id : NodeId) : Prop := ∃ n ∈ m.nodes, n.id = id ∧ n.isConstant = true

/-- What comes down to constants alone: these, and the operations that read nothing else and are
defined. -/
inductive Determined (m : Model) : NodeId → Prop
  | constant {n : Node} (mem : n ∈ m.nodes) (constant : n.isConstant = true) : Determined m n.id
  | operation {n : Node} (mem : n ∈ m.nodes) (reads : n.ReadsOnly (Determined m))
    (defined : n.DefinedIn m) : Determined m n.id

/-- What the operation of a node comes to in `m`. -/
def comesTo? (m : Model) (n : Node) : Option (List n.type.Value) :=
  match n.body with
  | .operation _ op left right => m.folded? n.type op left right
  | _ => none

end Model

namespace Node

theorem Matches.isConstant {R : Selection → Selection → Prop} {n n' : Node} (h : n.Matches R n') :
    n'.isConstant = n.isConstant := by
  rcases n with ⟨id, t, body, buffer⟩
  cases h with
  | intro id' body' buffer' hbody hsize =>
    cases body <;> cases body' <;> first | rfl | exact hbody.elim

theorem Matches.isOperation {R : Selection → Selection → Prop} {n n' : Node} (h : n.Matches R n') :
    n'.isOperation = n.isOperation := by
  rcases n with ⟨id, t, body, buffer⟩
  cases h with
  | intro id' body' buffer' hbody hsize =>
    cases body <;> cases body' <;> first | rfl | exact hbody.elim

theorem isOperation_eq_true {n : Node} : n.isOperation = true ↔
    ∃ numeric op left right, n.body = .operation numeric op left right := by
  rcases n with ⟨id, t, body, buffer⟩
  cases body with
  | operation numeric op left right =>
    exact ⟨fun _ => ⟨numeric, op, left, right, rfl⟩, fun _ => rfl⟩
  | _ => simp [isOperation]

theorem DefinedIn.isOperation {m : Model} {n : Node} (h : n.DefinedIn m) :
    n.isOperation = true := by
  obtain ⟨numeric, op, left, right, -, -, hbody, -⟩ := h
  exact isOperation_eq_true.mpr ⟨numeric, op, left, right, hbody⟩

theorem isConstant_of_isOperation {n : Node} (h : n.isOperation = true) :
    n.isConstant = false := by
  rcases n with ⟨id, t, body, buffer⟩
  cases body <;> first | rfl | cases h

theorem isInput_of_isConstant {n : Node} (h : n.isConstant = true) : n.isInput = false := by
  rcases n with ⟨id, t, body, buffer⟩
  cases body <;> first | rfl | cases h

theorem isInput_of_isOperation {n : Node} (h : n.isOperation = true) : n.isInput = false := by
  rcases n with ⟨id, t, body, buffer⟩
  cases body <;> first | rfl | cases h

end Node

/-- The nodes that have elements in a selection. -/
theorem Selection.forall_elements {P : NodeId → Prop} {e : Selection} :
    (∀ x ∈ e.elements, P x.1.node) ↔ ∀ s ∈ e.spans, s.count ≠ 0 → P s.source.node := by
  constructor
  · intro h s hs hcount
    have hpos := Span.toNat_count_pos.mpr hcount
    refine h (s.source, s.start.toNat) (List.mem_flatMap.mpr ⟨s, hs, List.mem_map.mpr ⟨_, ?_, rfl⟩⟩)
    rw [List.mem_range'_1]
    omega
  · intro h x hx
    obtain ⟨s, hs, hx⟩ := List.mem_flatMap.mp hx
    obtain ⟨i, hi, rfl⟩ := List.mem_map.mp hx
    rw [List.mem_range'_1] at hi
    exact h s hs (Span.toNat_count_pos.mp (by omega))

theorem Selection.WiredBy.forall_spans {place : NodeId → NodeId} {P : NodeId → Prop}
    {e e' : Selection} (h : e.WiredBy place e') :
    (∀ s ∈ e'.spans, s.count ≠ 0 → P s.source.node) ↔
      ∀ s ∈ e.spans, s.count ≠ 0 → P (place s.source.node) := by
  rw [← forall_elements, ← forall_elements (P := fun id => P (place id)), h, List.forall_mem_map]

namespace Node

theorem readsOnly_constant {P : NodeId → Prop} {n : Node} (h : n.isConstant = true) :
    n.ReadsOnly P := by
  rcases n with ⟨id, t, body, buffer⟩
  cases body with
  | constant values => exact List.forall_mem_nil _
  | _ => cases h

theorem readsOnly_operation {P : NodeId → Prop} {n : Node} {numeric : n.type.isNumeric = true}
    {op : Operation} {left right : Selection} (h : n.body = .operation numeric op left right) :
    n.ReadsOnly P ↔ (∀ s ∈ left.spans, s.count ≠ 0 → P s.source.node) ∧
      ∀ s ∈ right.spans, s.count ≠ 0 → P s.source.node := by
  rw [ReadsOnly, spans_operation h, List.forall_mem_append]

theorem readsOnly_output {P : NodeId → Prop} {n : Node} {source : Selection}
    (h : n.body = .output source) :
    n.ReadsOnly P ↔ ∀ s ∈ source.spans, s.count ≠ 0 → P s.source.node := by
  rw [ReadsOnly, spans_output h]

/-- A copy reads at the places of what its source reads. -/
theorem Matches.readsOnly {place : NodeId → NodeId} {P : NodeId → Prop} {n n' : Node}
    (h : n.Matches (Selection.WiredBy place) n') :
    n'.ReadsOnly P ↔ n.ReadsOnly fun id => P (place id) := by
  rcases n with ⟨id, t, body, buffer⟩
  cases h with
  | intro id' body' buffer' hmatches hsize =>
    cases body <;> cases body' <;> simp only [Body.Matches] at hmatches
    case input.input => exact iff_of_true (List.forall_mem_nil _) (List.forall_mem_nil _)
    case constant.constant => exact iff_of_true (List.forall_mem_nil _) (List.forall_mem_nil _)
    case output.output source source' =>
      rw [readsOnly_output (n := ⟨id, t, .output source, buffer⟩) rfl, ← hmatches.forall_spans]
      exact readsOnly_output (n := ⟨id', t, .output source', buffer'⟩) rfl
    case operation.operation numeric op left right numeric' op' left' right' =>
      obtain ⟨-, hleft, hright⟩ := hmatches
      rw [readsOnly_operation (n := ⟨id, t, .operation numeric op left right, buffer⟩) rfl,
        ← hleft.forall_spans, ← hright.forall_spans]
      exact readsOnly_operation (n := ⟨id', t, .operation numeric' op' left' right', buffer'⟩) rfl

end Node

namespace Model

theorem constantAt_of_constants? {m : Model} {t : ElementType} {e : Selection}
    {values : List t.Value} (h : m.constants? t e = some values) :
    ∀ s ∈ e.spans, m.ConstantAt s.source.node := by
  simp only [constants?, Option.bind_eq_bind, Option.bind_eq_some_iff] at h
  obtain ⟨runs, hruns, -⟩ := h
  intro s hs
  obtain ⟨run, hrun⟩ := exists_mapM_some.mp ⟨runs, hruns⟩ s hs
  simp only [constantSpan?, Option.bind_eq_bind, Option.bind_eq_some_iff] at hrun
  obtain ⟨n, hn, held, hheld, -⟩ := hrun
  obtain ⟨hmem, hid⟩ := node?_eq_some hn
  refine ⟨n, hmem, hid, ?_⟩
  -- no other kind of node has constants
  rcases n with ⟨id, u, body, buffer⟩
  cases body <;> first | rfl | cases hheld

/-- What resolves to constants has values. -/
theorem exists_constants? {m : Model} (hwf : m.WellFormed) {t : ElementType} {e : Selection}
    (hfits : e.Fits) (hreads : ∀ s ∈ e.spans, s.Resolves m t)
    (hconstants : ∀ s ∈ e.spans, m.ConstantAt s.source.node) :
    ∃ values, m.constants? t e = some values := by
  have hspan : ∀ s ∈ e.spans, ∃ run, m.constantSpan? t s = some run := by
    intro s hs
    obtain ⟨n, hn, -, rfl, hstop⟩ := hreads s hs
    obtain ⟨k, hk, hid, hconstant⟩ := hconstants s hs
    obtain rfl : k = n :=
      Option.some.inj ((node?_of_mem hwf.distinct hk).symm.trans (hid ▸ hn))
    have hsized := hwf.sized k hk
    rcases k with ⟨id, t, body, buffer⟩
    cases body with
    | constant values =>
      -- a constant has as many values as it has elements, so the span is within them
      have hlength : values.length = buffer.length := hsized
      have hstart : s.start.toNat ≤ s.stop := by
        rw [Span.stop_of_fits (hfits s hs)]
        exact Nat.le_add_right _ _
      have hbetween : valuesBetween? values s.start.toNat s.stop = some _ :=
        if_pos ⟨hstart, hstop.trans hlength.ge⟩
      have hvalues : Node.constants? ⟨id, t, .constant values, buffer⟩ t = some values :=
        dif_pos rfl
      refine ⟨_, Eq.trans ?_ hbetween⟩
      simp only [constantSpan?, hn, Option.bind_eq_bind, Option.bind_some, hvalues]
    | _ => cases hconstant
  obtain ⟨runs, hruns⟩ := exists_mapM_some.mpr hspan
  refine ⟨runs.flatten, ?_⟩
  simp only [constants?, hruns, Option.bind_eq_bind, Option.bind_some, Option.pure_def]

theorem reference_constant {m : Model} (hwf : m.WellFormed) {t : ElementType} {id : NodeId}
    {values : List t.Value} (h : m.constantValue t id = some values) :
    m.reference t id = some values := by
  have hfed : m.feed m.held = m := feed_held hwf.distinct
  rw [← hfed]
  exact reference_feed_constant (by rwa [hfed]) h

/-- An operation on constants comes to its value, which is that of the constants alone. -/
theorem comesTo?_eq_value? {m : Model} (hwf : m.WellFormed) (ha : m.Allocatable) {n : Node}
    (hn : n ∈ m.nodes) (hop : n.isOperation = true)
    (hreads : ∀ s ∈ n.spans, m.ConstantAt s.source.node) {v : NodeId → Option (List n.type.Value)}
    (hv : ∀ id held, m.constantValue n.type id = some held → v id = some held) :
    m.comesTo? n = n.value? v := by
  have hresolves := hwf.resolves n hn
  rcases n with ⟨id, t, body, buffer⟩
  cases body with
  | operation numeric op left right =>
    have hspans : Node.spans ⟨id, t, .operation numeric op left right, buffer⟩ =
        left.spans ++ right.spans := Node.spans_operation rfl
    rw [hspans] at hreads hresolves
    -- both operands have values, and these are the ones that `v` gives
    have hoperand : ∀ e : Selection, e.spans ⊆ left.spans ++ right.spans →
        ∃ xs, m.constants? t e = some xs ∧ e.pick? v = some xs := by
      intro e he
      have hfits : e.Fits := fun s hs => fits_of_resolves ha (hresolves s (he hs))
      obtain ⟨xs, hxs⟩ := exists_constants? hwf hfits (fun s hs => hresolves s (he hs))
        fun s hs => hreads s (he hs)
      exact ⟨xs, hxs, Selection.pick?_imp hv (pick?_of_constants? hxs hfits)⟩
    obtain ⟨xs, hxs, hpickLeft⟩ := hoperand left (List.subset_append_left _ _)
    obtain ⟨ys, hys, hpickRight⟩ := hoperand right (List.subset_append_right _ _)
    simp only [comesTo?, folded?, Node.value?, hxs, hys, hpickLeft, hpickRight,
      Option.bind_eq_bind, Option.bind_some, Operation.apply_eq_meaning]
  | _ => cases hop

/-- An operation is defined exactly if it means something. -/
theorem definedIn_iff {m : Model} (hwf : m.WellFormed) {n : Node} (hn : n ∈ m.nodes)
    (hop : n.isOperation = true) :
    n.DefinedIn m ↔ ∃ values, m.reference n.type n.id = some values := by
  obtain ⟨numeric, op, left, right, hbody⟩ := Node.isOperation_eq_true.mp hop
  rw [reference_of_mem hwf hn]
  simp only [Node.value?, hbody, Option.bind_eq_bind, Option.bind_eq_some_iff]
  constructor
  · rintro ⟨numeric', op', left', right', xs, ys, hbody', hxs, hys, hall⟩
    -- the body of a node is one operation
    obtain ⟨rfl, rfl, rfl⟩ := Body.operation.inj (hbody.symm.trans hbody')
    obtain ⟨values, hvalues⟩ :=
      exists_mapM_some.mpr fun p hp => Option.isSome_iff_exists.mp (hall p hp)
    exact ⟨values, xs, hxs, ys, hys, hvalues⟩
  · rintro ⟨values, xs, hxs, ys, hys, hvalues⟩
    refine ⟨numeric, op, left, right, xs, ys, hbody, hxs, hys, fun p hp => ?_⟩
    exact Option.isSome_iff_exists.mpr (exists_mapM_some.mp ⟨values, hvalues⟩ p hp)

end Model

namespace Node

/-- The copy that stays of a node in `m`: it is wired canonically, to what is there, and if it is an
operation then it comes to nothing. -/
structure KeptIn (place : NodeId → NodeId) (m : Model) (n n' : Node) : Prop
    extends n.CopiedTo place n' where
  canonical : ∀ i ∈ n'.inlets, i.selection.Canonical
  reads : ∀ s ∈ n'.spans, s.Resolves m n'.type
  stays : m.comesTo? n' = none

/-- What stands for a node after folding: the copy that stays of it, or what it comes to. -/
def Settled (place : NodeId → NodeId) (m : Model) (n n' : Node) : Prop :=
  n.KeptIn place m n' ∨ n.FoldsTo place m n'

end Node

theorem Transformer.Carried.relocate_canonical {place : NodeId → NodeId}
    {pairs : List (Node × Node)} {c : Transformer.Context} (h : Transformer.Carried place pairs c)
    {t : ElementType} {e e' : Selection} (he : ∀ s ∈ e.spans, s.Placed pairs t)
    (hrelocate : Transformer.relocate ⟨some c⟩ e = .ok e') : e'.Canonical := by
  obtain ⟨found, hfound, -, hfits, hsolid⟩ := h.relocate he
  obtain rfl := Except.ok.inj (hfound.symm.trans hrelocate)
  exact ⟨hfits, hsolid, Transformer.relocate_apart hrelocate⟩

namespace Model

/-- What is read stays as it was, so the values of a selection do. -/
theorem constants?_insert_of_resolves {m : Model} {k : Node} {t : ElementType} {e : Selection}
    (hreads : ∀ s ∈ e.spans, s.Resolves m t) : (m.insert k).constants? t e = m.constants? t e := by
  have hspans : e.spans.mapM ((m.insert k).constantSpan? t) = e.spans.mapM (m.constantSpan? t) := by
    refine mapM_congr fun s hs => ?_
    obtain ⟨n, hn, -⟩ := hreads s hs
    rw [constantSpan?, constantSpan?, hn, node?_insert hn]
  rw [constants?, constants?, hspans]

theorem comesTo?_insert {m : Model} {k n : Node} (hreads : ∀ s ∈ n.spans, s.Resolves m n.type) :
    (m.insert k).comesTo? n = m.comesTo? n := by
  rcases n with ⟨id, t, body, buffer⟩
  cases body with
  | operation numeric op left right =>
    have hspans : Node.spans ⟨id, t, .operation numeric op left right, buffer⟩ =
        left.spans ++ right.spans := Node.spans_operation rfl
    rw [hspans, List.forall_mem_append] at hreads
    simp only [comesTo?, folded?, constants?_insert_of_resolves hreads.1,
      constants?_insert_of_resolves hreads.2]
  | _ => rfl

end Model

namespace Node

theorem Settled.insert {place : NodeId → NodeId} {m : Model} {k n n' : Node}
    (h : n.Settled place m n') : n.Settled place (m.insert k) n' := by
  rcases h with hkept | hfolds
  · exact .inl
      { hkept with
        reads := fun s hs => Model.resolves_insert (hkept.reads s hs)
        stays := (Model.comesTo?_insert hkept.reads).trans hkept.stays }
  · exact .inr hfolds.insert

/-- A copy is wired canonically, however its source is. -/
theorem copied?_canonical {place : NodeId → NodeId} {pairs : List (Node × Node)}
    {c : Transformer.Context} (hc : Transformer.Carried place pairs c) {n n' : Node} {id : NodeId}
    (hspans : ∀ s ∈ n.spans, s.Placed pairs n.type)
    (hcopied : n.copied? ⟨some c⟩ id = .ok n') : ∀ i ∈ n'.inlets, i.selection.Canonical := by
  rcases n with ⟨key, t, body, buffer⟩
  cases body with
  | input values =>
    obtain rfl := Except.ok.inj hcopied
    simp [inlets, input]
  | constant values =>
    obtain rfl := Except.ok.inj hcopied
    simp [inlets, constant]
  | output source =>
    simp only [copied?, bind_ok, pure_ok] at hcopied
    obtain ⟨source', hsource, rfl⟩ := hcopied
    have hplaced : ∀ s ∈ source.spans, s.Placed pairs t := by
      simpa [spans, inlets] using hspans
    simpa [inlets, output] using hc.relocate_canonical hplaced hsource
  | operation numeric op left right =>
    simp only [copied?, bind_ok] at hcopied
    obtain ⟨left', hleft, right', hright, hmade⟩ := hcopied
    have hplaced : ∀ s, s ∈ left.spans ∨ s ∈ right.spans → s.Placed pairs t := by
      simpa [spans, inlets] using hspans
    rw [operation] at hmade
    split at hmade
    case isFalse => cases hmade
    case isTrue hsizes =>
      obtain rfl := Except.ok.inj hmade
      simpa [inlets] using ⟨hc.relocate_canonical (fun s hs => hplaced s (.inl hs)) hleft,
        hc.relocate_canonical (fun s hs => hplaced s (.inr hs)) hright⟩

/-- A copy that was made because folding came to nothing comes to nothing itself. -/
theorem copied?_stays {c : Transformer.Context} {n n' : Node} {id : NodeId}
    (hnone : n.folded? ⟨some c⟩ = .ok none) (hcopied : n.copied? ⟨some c⟩ id = .ok n') :
    c.destination.comesTo? n' = none := by
  rcases n with ⟨key, t, body, buffer⟩
  cases body with
  | input values =>
    obtain rfl := Except.ok.inj hcopied
    rfl
  | constant values =>
    obtain rfl := Except.ok.inj hcopied
    rfl
  | output source =>
    simp only [copied?, bind_ok, pure_ok] at hcopied
    obtain ⟨source', -, rfl⟩ := hcopied
    rfl
  | operation numeric op left right =>
    simp only [copied?, bind_ok] at hcopied
    obtain ⟨left', hleft, right', hright, hmade⟩ := hcopied
    rw [operation] at hmade
    split at hmade
    case isFalse => cases hmade
    case isTrue hsizes =>
      obtain rfl := Except.ok.inj hmade
      -- folding looked at the very selections that the copy reads
      simp only [folded?, hleft, hright] at hnone
      exact Except.ok.inj hnone

/-- Folding a node gives the constant that it comes to, or a copy that comes to nothing. -/
theorem carries_settled (place : NodeId → NodeId) :
    Workspace.Carries place (Settled place) fold := by
  intro pairs c s n hc hspans hsized hbound hplace hfresh
  obtain ⟨n', hperform, hstands, hcases⟩ := fold_carried hc hspans hsized hbound hplace hfresh
  refine ⟨n', hperform, hstands, ?_⟩
  rcases hcases with ⟨hnone, hcopied, hmatches, hnew⟩ | hfolds
  · exact .inl ⟨⟨hstands.id, hmatches, hnew⟩, copied?_canonical hc hspans hcopied,
      hstands.resolves, copied?_stays hnone hcopied⟩
  · exact .inr hfolds

end Node

namespace Model

/-- `r` is what folding makes of `m`, node by node. -/
structure FoldedOver (place : NodeId → NodeId) (m r : Model) (pairs : List (Node × Node)) : Prop
    extends CarriedOver place m r pairs where
  allocatable_result : r.Allocatable
  settled : ∀ p ∈ pairs, p.1.Settled place r p.2

theorem WellFormed.fold_over {m : Model} (hwf : m.WellFormed) (ha : m.Allocatable)
    {ids : List NodeId} (ho : m.order = .ok ids) (s : Supply) :
    ∃ pairs r, m.fold.runWith s = (.ok r, ⟨s.drawn + m.size⟩) ∧
      FoldedOver (s.place ids) m r pairs := by
  obtain ⟨pairs, r, hrun, hcarried, hralloc, hsettled⟩ :=
    hwf.rebuild_carriedOver ha ho s (Node.carries_settled _) (fun _ _ _ _ h => h.insert)
      fun _ _ _ h => h.imp_left fun hkept => ⟨hkept.same, hkept.fresh⟩
  exact ⟨pairs, r, hrun,
    { hcarried with
      allocatable_result := hralloc
      settled := hsettled }⟩

namespace CarriedPart

variable {place : NodeId → NodeId} {m r : Model} {pairs : List (Node × Node)}

/-- Different nodes of the part are in different places. -/
theorem injOn (h : CarriedPart place m r pairs) :
    Set.InjOn place {id | id ∈ pairs.map fun p => p.1.id} := by
  have hids : (pairs.map fun p => p.2.id).Nodup := by
    rw [← h.ids_result]
    exact h.wellFormed_result.distinct
  intro a ha b hb hplace
  obtain ⟨p, hp, rfl⟩ := List.mem_map.mp ha
  obtain ⟨q, hq, rfl⟩ := List.mem_map.mp hb
  rw [← (h.stands p hp).1, ← (h.stands q hq).1] at hplace
  rw [List.inj_on_of_nodup_map hids hp hq hplace]

/-- The result can be fed what the source holds, and means the same then. -/
theorem exists_alike (h : CarriedPart place m r pairs) :
    ∃ b, (r.feed b).WellFormed ∧
      ∀ p ∈ pairs, ∀ t, (r.feed b).reference t p.2.id = m.reference t p.1.id := by
  have haccepts : m.Accepts m.held := accepts_held h.wellFormed
  -- under an id of the result, what the node that it is the place of holds
  have hfed : FedAlike pairs m.held
      fun id => m.held (Function.invFunOn place {id | id ∈ pairs.map fun p => p.1.id} id) := by
    intro p hp _
    have hmem : p.1.id ∈ pairs.map fun p => p.1.id := List.mem_map_of_mem hp
    have hback := h.injOn.leftInvOn_invFunOn hmem
    simp only [(h.stands p hp).1, hback]
  refine ⟨_, (h.accepts haccepts hfed).wellFormed h.wellFormed_result, fun p hp t => ?_⟩
  rw [h.reference_eq haccepts hfed hp, feed_held h.wellFormed.distinct]

end CarriedPart

theorem CarriedOver.exists_alike {place : NodeId → NodeId} {m r : Model}
    {pairs : List (Node × Node)} (h : CarriedOver place m r pairs) :
    ∃ b, (r.feed b).WellFormed ∧
      ∀ p ∈ pairs, ∀ t, (r.feed b).reference t p.2.id = m.reference t p.1.id :=
  h.part.exists_alike

end Model

/-- An operation and the constant that it was folded to. -/
def Folded (p : Node × Node) : Prop := p.1.isOperation = true ∧ p.2.isConstant = true

theorem Node.FoldsTo.folded {place : NodeId → NodeId} {m : Model} {n n' : Node}
    (h : n.FoldsTo place m n') : Folded (n, n') := by
  cases h with
  | intro hbody hleft hright hfitsLeft hfitsRight hfolded =>
    exact ⟨Node.isOperation_eq_true.mpr ⟨_, _, _, _, hbody⟩, rfl⟩

/-- What was folded read constants only. -/
theorem Node.FoldsTo.readsOnly {place : NodeId → NodeId} {m : Model} {n n' : Node}
    (h : n.FoldsTo place m n') : n.ReadsOnly fun id => m.ConstantAt (place id) := by
  cases h with
  | intro hbody hleft hright hfitsLeft hfitsRight hfolded =>
    simp only [Model.folded?, Option.bind_eq_bind, Option.bind_eq_some_iff] at hfolded
    obtain ⟨xs, hxs, ys, hys, -⟩ := hfolded
    rw [Node.readsOnly_operation hbody]
    exact ⟨hleft.forall_spans.mp fun s hs _ => Model.constantAt_of_constants? hxs s hs,
      hright.forall_spans.mp fun s hs _ => Model.constantAt_of_constants? hys s hs⟩

theorem Node.KeptIn.not_folded {place : NodeId → NodeId} {m : Model} {n n' : Node}
    (h : n.KeptIn place m n') : ¬ Folded (n, n') := by
  rintro ⟨hop, hconstant⟩
  simp only at hop hconstant
  rw [h.same.isConstant, Node.isConstant_of_isOperation hop] at hconstant
  cases hconstant

namespace Model.FoldedOver

variable {place : NodeId → NodeId} {m r : Model} {pairs : List (Node × Node)} {p : Node × Node}

theorem mem_result (h : FoldedOver place m r pairs) (hp : p ∈ pairs) : p.2 ∈ r.nodes :=
  h.part.mem_result hp

/-- Folding is told by the kinds of the two nodes. -/
theorem foldsTo (h : FoldedOver place m r pairs) (hp : p ∈ pairs) (hfolded : Folded p) :
    p.1.FoldsTo place r p.2 :=
  (h.settled p hp).resolve_left fun hkept => hkept.not_folded hfolded

theorem keptIn (h : FoldedOver place m r pairs) (hp : p ∈ pairs) (hfolded : ¬ Folded p) :
    p.1.KeptIn place r p.2 :=
  (h.settled p hp).resolve_right fun hfolds => hfolded hfolds.folded

/-- Constants of the result stand for constants, or for what was folded. -/
theorem isConstant_iff (h : FoldedOver place m r pairs) (hp : p ∈ pairs) :
    p.2.isConstant = true ↔ p.1.isConstant = true ∨ Folded p := by
  rcases h.settled p hp with hkept | hfolds
  · rw [hkept.same.isConstant]
    exact (or_iff_left hkept.not_folded).symm
  · have hfolded := hfolds.folded
    exact iff_of_true hfolded.2 (.inr hfolded)

theorem constantAt_place (h : FoldedOver place m r pairs) (hp : p ∈ pairs) {s : Span}
    (hs : s ∈ p.1.spans) : r.ConstantAt (place s.source.node) ↔
      ∃ q ∈ pairs, q.1.id = s.source.node ∧ q.2.isConstant = true := by
  -- one node of the result is in the place of the source, whatever reads it
  obtain ⟨q, hq, hid, hplace⟩ := h.part.exists_source hp hs
  have hdistinct := h.wellFormed_result.distinct
  constructor
  · rintro ⟨n', hn', hid', hconstant⟩
    obtain rfl : n' = q.2 :=
      List.inj_on_of_nodup_map hdistinct hn' (h.mem_result hq) (hid'.trans hplace.symm)
    exact ⟨q, hq, hid, hconstant⟩
  · rintro ⟨k, hk, hkid, hconstant⟩
    exact ⟨k.2, h.mem_result hk, by rw [(h.stands k hk).1, hkid], hconstant⟩

/-- What was folded is the constant that the operation means. -/
theorem folded_value (h : FoldedOver place m r pairs) (hp : p ∈ pairs) (hfolded : Folded p) :
    ∃ values, m.reference p.1.type p.1.id = some values ∧
      p.2 = .constant (place p.1.id) p.1.type values := by
  obtain ⟨b, hwf, hmeans⟩ := h.exists_alike
  have hresult := h.mem_result hp
  have hfolds := h.foldsTo hp hfolded
  have hmeans := hmeans p hp
  rcases p with ⟨n, n'⟩
  have hfolds : n.FoldsTo place r n' := hfolds
  cases hfolds with
  | @intro numeric op left right left' right' values hbody hleft hright hfitsLeft hfitsRight
      hfolded =>
    have hmem : Node.constant (place n.id) n.type values ∈ (r.feed b).nodes := mem_feed hresult
    exact ⟨values, (hmeans n.type).symm.trans (reference_of_mem hwf hmem), rfl⟩

/-- A copy that reads only constants has no value: it would come to that. -/
theorem value?_kept (h : FoldedOver place m r pairs) (hp : p ∈ pairs)
    (hkept : p.1.KeptIn place r p.2) (hop : p.2.isOperation = true)
    (hreads : p.2.ReadsOnly r.ConstantAt) {v : NodeId → Option (List p.2.type.Value)}
    (hv : ∀ id held, r.constantValue p.2.type id = some held → v id = some held) :
    p.2.value? v = none := by
  -- a canonical selection has no spans without elements, so all of its spans are on constants
  have hconstants : ∀ s ∈ p.2.spans, r.ConstantAt s.source.node := by
    intro s hs
    obtain ⟨i, hi, hspan⟩ := Node.mem_spans.mp hs
    exact hreads s hs ((hkept.canonical i hi).solid s hspan)
  exact (comesTo?_eq_value? h.wellFormed_result h.allocatable_result (h.mem_result hp) hop
    hconstants hv).symm.trans hkept.stays

/-- Folding has a value for an operation exactly if this reads constants of the result only, and is
defined. -/
theorem isConstant_operation (h : FoldedOver place m r pairs) (hp : p ∈ pairs)
    (hop : p.1.isOperation = true) : p.2.isConstant = true ↔
      p.1.ReadsOnly (fun id => r.ConstantAt (place id)) ∧ p.1.DefinedIn m := by
  rw [definedIn_iff h.wellFormed (h.source p hp) hop]
  rcases h.settled p hp with hkept | hfolds
  · have hop' : p.2.isOperation = true := hkept.same.isOperation.trans hop
    rw [Node.isConstant_of_isOperation hop']
    refine iff_of_false Bool.false_ne_true ?_
    rintro ⟨hreads, values, hvalues⟩
    -- fed what the source holds, the copy means what the operation does, and it has no value
    obtain ⟨b, hwf, hmeans⟩ := h.exists_alike
    have hnone := h.value?_kept hp hkept hop' (hkept.same.readsOnly.mpr hreads)
      (v := (r.feed b).reference p.2.type) fun id held hheld => reference_feed_constant hwf hheld
    have hplain : p.2.feed b = p.2 := Node.feed_of_unset fun values hbody => by
      rw [Node.isOperation, hbody] at hop'
      cases hop'
    have hmem : p.2 ∈ (r.feed b).nodes := hplain ▸ mem_feed (h.mem_result hp)
    rw [← reference_of_mem hwf hmem, hmeans p hp, (h.stands p hp).2.1, hvalues] at hnone
    cases hnone
  · obtain ⟨values, hvalues, -⟩ := h.folded_value hp hfolds.folded
    exact iff_of_true hfolds.folded.2 ⟨hfolds.readsOnly, values, hvalues⟩

/-- The equation of folding: an operation is folded exactly if it is defined, and all elements that
it reads are of constants or of operations that are folded. -/
theorem folded_iff (h : FoldedOver place m r pairs) (hp : p ∈ pairs) :
    Folded p ↔ p.1.ReadsOnly (fun id => ∃ q ∈ pairs, q.1.id = id ∧
      (q.1.isConstant = true ∨ Folded q)) ∧ p.1.DefinedIn m := by
  have hreads : p.1.ReadsOnly (fun id => r.ConstantAt (place id)) ↔
      p.1.ReadsOnly fun id => ∃ q ∈ pairs, q.1.id = id ∧ (q.1.isConstant = true ∨ Folded q) := by
    refine forall₂_congr fun s hs => imp_congr_right fun _ => ?_
    refine (h.constantAt_place hp hs).trans ?_
    refine exists_congr fun q => and_congr_right fun hq => and_congr_right fun _ => ?_
    exact h.isConstant_iff hq
  rw [← hreads]
  constructor
  · rintro ⟨hop, hconstant⟩
    exact (h.isConstant_operation hp hop).mp hconstant
  · intro hright
    have hop := hright.2.isOperation
    exact ⟨hop, (h.isConstant_operation hp hop).mpr hright⟩

/-- A constant of the result comes down to constants alone: by induction on the rank of the node it
stands for, since what that reads ranks lower. -/
theorem determined_of_isConstant (h : FoldedOver place m r pairs) (hp : p ∈ pairs)
    (hconstant : p.2.isConstant = true) : m.Determined p.1.id := by
  obtain ⟨ids, ho⟩ := h.wellFormed.ordered
  have hrank : ∀ k, ∀ p ∈ pairs, ids.idxOf p.1.id = k → p.2.isConstant = true →
      m.Determined p.1.id := by
    intro k
    induction k using Nat.strongRecOn with
    | ind k ih =>
      intro p hp hk hconstant
      have hsource := h.source p hp
      rcases (h.isConstant_iff hp).mp hconstant with hself | hfolded
      · exact .constant hsource hself
      · obtain ⟨hreads, hdefined⟩ := (h.isConstant_operation hp hfolded.1).mp hconstant
        refine .operation hsource (fun s hs hcount => ?_) hdefined
        -- what was folded reads constants of the result, and these stand for nodes below
        obtain ⟨q, hq, hid, hqconstant⟩ := (h.constantAt_place hp hs).mp (hreads s hs hcount)
        have hlow := order_rank h.wellFormed.distinct ho hsource
          (Node.mem_dependencies.mpr ⟨s, hs, rfl⟩)
        rw [hk, ← hid] at hlow
        rw [← hid]
        exact ih _ hlow q hq rfl hqconstant
  exact hrank _ p hp rfl hconstant

/-- What comes down to constants alone is folded: by induction on how it does. -/
theorem isConstant_of_determined (h : FoldedOver place m r pairs) {id : NodeId}
    (hdetermined : m.Determined id) :
    ∀ p ∈ pairs, p.1.id = id → p.2.isConstant = true := by
  induction hdetermined with
  | @constant n hn hconstant =>
    intro p hp hid
    obtain rfl := List.inj_on_of_nodup_map h.wellFormed.distinct (h.source p hp) hn hid
    exact (h.isConstant_iff hp).mpr (.inl hconstant)
  | @operation n hn _ hdefined ih =>
    intro p hp hid
    obtain rfl := List.inj_on_of_nodup_map h.wellFormed.distinct (h.source p hp) hn hid
    refine (h.isConstant_operation hp hdefined.isOperation).mpr ⟨fun s hs hcount => ?_, hdefined⟩
    -- by hypothesis, what stands for a source of the operation is a constant
    obtain ⟨q, hq, hid, -⟩ := h.part.exists_source hp hs
    exact (h.constantAt_place hp hs).mpr ⟨q, hq, hid, ih s hs hcount q hq hid⟩

/-- Chains collapse: a node becomes a constant exactly if it comes down to constants alone. -/
theorem isConstant_iff_determined (h : FoldedOver place m r pairs) (hp : p ∈ pairs) :
    p.2.isConstant = true ↔ m.Determined p.1.id :=
  ⟨h.determined_of_isConstant hp,
    fun hdetermined => h.isConstant_of_determined hdetermined p hp rfl⟩

/-- In the result, an operation that reads only constants has no result. -/
theorem not_definedIn (h : FoldedOver place m r pairs) {n : Node} (hn : n ∈ r.nodes)
    (hop : n.isOperation = true) (hreads : n.ReadsOnly r.ConstantAt) : ¬ n.DefinedIn r := by
  obtain ⟨p, hp, rfl⟩ := h.part.exists_pair_result hn
  have hwf := h.wellFormed_result
  -- it is no constant, so it was not folded but kept
  have hkept : p.1.KeptIn place r p.2 := h.keptIn hp fun hfolded =>
    Bool.false_ne_true ((Node.isConstant_of_isOperation hop).symm.trans hfolded.2)
  have hnone := h.value?_kept hp hkept hop hreads fun id held hheld => reference_constant hwf hheld
  rw [definedIn_iff hwf hn hop, reference_of_mem hwf hn, hnone]
  simp

/-- Nothing is left to fold: all that comes down to constants alone is a constant. -/
theorem constantAt_of_determined (h : FoldedOver place m r pairs) {id : NodeId}
    (hdetermined : r.Determined id) : r.ConstantAt id := by
  induction hdetermined with
  | @constant n hn hconstant => exact ⟨n, hn, rfl, hconstant⟩
  | @operation n hn _ hdefined ih =>
    exact (h.not_definedIn hn hdefined.isOperation ih hdefined).elim

end Model.FoldedOver

end FlowGraph
