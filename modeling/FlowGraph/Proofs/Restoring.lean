import FlowGraph.Graph.Stored
import FlowGraph.Proofs.Reading
import FlowGraph.Proofs.WellFormed

/-! Nodes that are the same but for what they read and what they hold, and what a node is after its
state has been read. -/
namespace FlowGraph

/-- Bodies of one kind with the same constants and the same operation, where the selections are
related by `R`. -/
def Body.Matches {t : ElementType} (R : Selection → Selection → Prop) : Body t → Body t → Prop
  | .input values, .input values' => values'.length = values.length
  | .constant values, .constant values' => values' = values
  | .output source, .output source' => R source source'
  | .operation _ op left right, .operation _ op' left' right' =>
    op' = op ∧ R left left' ∧ R right right'
  | _, _ => False

/-- `n'` does what `n` does, in the same size, on selections that are related by `R`. -/
inductive Node.Matches (R : Selection → Selection → Prop) (n : Node) : Node → Prop
  | intro (id : NodeId) (body : Body n.type) (buffer : List n.type.Value)
    (body_matches : n.body.Matches R body) (size_eq : buffer.length = n.size) :
    Matches R n ⟨id, n.type, body, buffer⟩

/-- Every value of a node is the one it has when nobody has set or computed it. -/
def Node.Fresh (n : Node) : Prop :=
  n.buffer = List.replicate n.size n.type.default ∧
    match n.body with
    | .input values => values = List.replicate n.size n.type.default
    | _ => True

namespace Node.Matches

variable {R : Selection → Selection → Prop} {n n' : Node}

theorem of_bodies {t : ElementType} {body body' : Body t} {buffer buffer' : List t.Value}
    (h : body.Matches R body') (hsize : buffer'.length = buffer.length) (id id' : NodeId) :
    Node.Matches R ⟨id, t, body, buffer⟩ ⟨id', t, body', buffer'⟩ :=
  .intro (n := ⟨id, t, body, buffer⟩) id' body' buffer' h hsize

theorem type (h : n.Matches R n') : n'.type = n.type := by
  cases h
  rfl

theorem size (h : n.Matches R n') : n'.size = n.size := by
  cases h with
  | intro id body buffer hbody hsize => exact hsize

theorem nodeType (h : n.Matches R n') : n'.nodeType = n.nodeType := by
  rcases n with ⟨id, t, body, buffer⟩
  cases h with
  | intro id' body' buffer' hbody hsize =>
    cases body <;> cases body' <;> first | rfl | exact hbody.elim

theorem isInput (h : n.Matches R n') : n'.isInput = n.isInput := by
  rcases n with ⟨id, t, body, buffer⟩
  cases h with
  | intro id' body' buffer' hbody hsize =>
    cases body <;> cases body' <;> first | rfl | exact hbody.elim

theorem isOutput (h : n.Matches R n') : n'.isOutput = n.isOutput := by
  rcases n with ⟨id, t, body, buffer⟩
  cases h with
  | intro id' body' buffer' hbody hsize =>
    cases body <;> cases body' <;> first | rfl | exact hbody.elim

theorem operator? (h : n.Matches R n') : n'.operator? = n.operator? := by
  rcases n with ⟨id, t, body, buffer⟩
  cases h with
  | intro id' body' buffer' hbody hsize =>
    cases body <;> cases body' <;> first | rfl | exact congrArg some hbody.1 | exact hbody.elim

theorem constants? (h : n.Matches R n') (t : ElementType) : n'.constants? t = n.constants? t := by
  rcases n with ⟨id, u, body, buffer⟩
  cases h with
  | intro id' body' buffer' hbody hsize =>
    cases body <;> cases body' <;> first
      | rfl
      | exact congrArg (fun values => Node.constants? ⟨id, u, .constant values, buffer⟩ t) hbody
      | exact hbody.elim

/-- The inlets of the two nodes, in their order, read what `R` relates. -/
theorem inlets (h : n.Matches R n') :
    List.Forall₂ (fun i i' : Inlet => i'.name = i.name ∧ i'.type = i.type ∧
      R i.selection i'.selection) n.inlets n'.inlets := by
  rcases n with ⟨id, t, body, buffer⟩
  cases h with
  | intro id' body' buffer' hbody hsize =>
    cases body <;> cases body' <;> first | exact hbody.elim | skip
    · exact .nil
    · exact .nil
    · exact .cons ⟨rfl, rfl, hbody⟩ .nil
    · exact .cons ⟨rfl, rfl, hbody.2.1⟩ (.cons ⟨rfl, rfl, hbody.2.2⟩ .nil)

theorem symm (h : n.Matches R n') : n'.Matches (fun e' e => R e e') n := by
  rcases n with ⟨id, t, body, buffer⟩
  cases h with
  | intro id' body' buffer' hbody hsize =>
    refine .of_bodies ?_ hsize.symm _ _
    cases body <;> cases body' <;> simp only [Body.Matches] at hbody ⊢
    case input.input => exact hbody.symm
    case constant.constant => exact hbody.symm
    case output.output => exact hbody
    case operation.operation => exact ⟨hbody.1.symm, hbody.2⟩

theorem trans {S T : Selection → Selection → Prop} {n₁ n₂ : Node} (h₁ : n.Matches R n₁)
    (h₂ : n₁.Matches S n₂) (hcomp : ∀ i ∈ n₁.inlets, ∀ e e₂, R e i.selection → S i.selection e₂ →
      T e e₂) : n.Matches T n₂ := by
  rcases n with ⟨id, t, body, buffer⟩
  cases h₁ with
  | intro id₁ body₁ buffer₁ hbody₁ hsize₁ =>
    cases h₂ with
    | intro id₂ body₂ buffer₂ hbody₂ hsize₂ =>
      refine .of_bodies ?_ (hsize₂.trans hsize₁) _ _
      cases body <;> cases body₁ <;> simp only [Body.Matches] at hbody₁ <;>
        cases body₂ <;> simp only [Body.Matches] at hbody₂ ⊢
      case input.input.input => exact hbody₂.trans hbody₁
      case constant.constant.constant => exact hbody₂.trans hbody₁
      case output.output.output => exact hcomp _ List.mem_cons_self _ _ hbody₁ hbody₂
      case operation.operation.operation =>
        exact ⟨hbody₂.1.trans hbody₁.1, hcomp _ List.mem_cons_self _ _ hbody₁.2.1 hbody₂.2.1,
          hcomp _ (List.mem_cons_of_mem _ List.mem_cons_self) _ _ hbody₁.2.2 hbody₂.2.2⟩

end Node.Matches

/-- The span with its node renamed, and nothing else. -/
def Span.RenamedBy (rename : NodeId → Option NodeId) (s s' : Span) : Prop :=
  ∃ id, rename s.source.node = some id ∧ s' = { s with source := { s.source with node := id } }

def Selection.RenamedBy (rename : NodeId → Option NodeId) (e e' : Selection) : Prop :=
  List.Forall₂ (Span.RenamedBy rename) e.spans e'.spans

theorem Selection.renameSpans_ok {rename : NodeId → Option NodeId} {spans spans' : List Span} :
    renameSpans rename spans = (.ok (), spans') ↔
      List.Forall₂ (Span.RenamedBy rename) spans spans' := by
  induction spans generalizing spans' with
  | nil => simp [renameSpans, eq_comm]
  | cons s rest ih =>
    rw [renameSpans, List.forall₂_cons_left_iff]
    cases hid : rename s.source.node with
    | none =>
      simp only [Prod.mk.injEq, reduceCtorEq, false_and, false_iff, not_exists]
      intro s' rest' h
      obtain ⟨⟨id, hsome, -⟩, -⟩ := h
      rw [hid] at hsome
      cases hsome
    | some id =>
      rcases hrest : renameSpans rename rest with ⟨result, renamed⟩
      simp only [Prod.mk.injEq]
      constructor
      · intro h
        obtain ⟨rfl, rfl⟩ := h
        exact ⟨_, renamed, ⟨id, hid, rfl⟩, ih.mp hrest, rfl⟩
      · intro h
        obtain ⟨s', rest', ⟨id', hid', rfl⟩, hforall, rfl⟩ := h
        have hok := ih.mpr hforall
        rw [hrest, Prod.mk.injEq] at hok
        rw [hid, Option.some.injEq] at hid'
        exact ⟨hok.1, by rw [hok.2, hid']⟩

theorem Selection.rename_ok {rename : NodeId → Option NodeId} {e e' : Selection} :
    e.rename rename = (.ok (), e') ↔ e.RenamedBy rename e' := by
  rcases e' with ⟨spans'⟩
  rw [RenamedBy, ← renameSpans_ok, Selection.rename]
  rcases renameSpans rename e.spans with ⟨result, renamed⟩
  simp

theorem Selection.renamed_ok {rename : NodeId → Option NodeId} {name : String} {e e' : Selection} :
    e.renamed rename name = .ok e' ↔ e.RenamedBy rename e' := by
  rw [← Selection.rename_ok, renamed]
  rcases e.rename rename with ⟨result, renamed⟩
  cases result <;> simp

/-- Renaming keeps every count. -/
theorem Selection.RenamedBy.size {rename : NodeId → Option NodeId} {e e' : Selection}
    (h : e.RenamedBy rename e') : e'.size = e.size := by
  have hcounts : e'.spans.map Span.count = e.spans.map Span.count := by
    apply Eq.symm
    rw [← List.forall₂_eq_eq_eq, List.forall₂_map_left_iff, List.forall₂_map_right_iff]
    refine List.Forall₂.imp ?_ h
    intro s s' h
    obtain ⟨id, -, rfl⟩ := h
    rfl
  have hfold : ∀ spans : List Span, spans.foldl (fun total s => min (total + s.count.toNat)
      sizeLimit) 0 = (spans.map Span.count).foldl (fun total c => min (total + c.toNat)
      sizeLimit) 0 := by
    intro spans
    rw [List.foldl_map]
  rw [Selection.size, Selection.size, hfold, hfold, hcounts]

namespace Node

theorem leaving_ok {α : Type} {n n' : Node} {result : Except Archive.Error α}
    {next : α → Except Archive.Error Unit × Node} :
    n.leaving result next = (.ok (), n') ↔ ∃ a, result = .ok a ∧ next a = (.ok (), n') := by
  cases result <;> simp [leaving]

theorem agree_ok {agreeing : Bool} {detail : String} :
    agree agreeing detail = .ok () ↔ agreeing = true := by
  cases agreeing <;> simp [agree]

/-- What the archived state `a` says of the node. -/
def ReadFrom (a : Archive) (n : Node) : Prop :=
  match n.body with
  | .input values => values = n.buffer
  | .constant values => a.read (Archive.Value.asList n.type.ofStored) "values" = .ok values
  | .output source => readInlet a n.type "input" = .ok source
  | .operation _ op left right => readOperation a = .ok op ∧
      readInlet a n.type "input1" = .ok left ∧ readInlet a n.type "input2" = .ok right

theorem nodeType_blank (id : NodeId) (type : NodeType) : (blank id type).nodeType = type := by
  cases type <;> rfl

theorem id_blank (id : NodeId) (type : NodeType) : (blank id type).id = id := by
  cases type <;> rfl

/-- Reading a state succeeds with exactly the nodes that the state describes, under the id and of
the type of the node that is read into. Nothing else of that node matters. -/
theorem restore_ok {n n' : Node} {a : Archive} :
    n.restore a = (.ok (), n') ↔ n'.id = n.id ∧ n'.nodeType = n.nodeType ∧ n'.ReadFrom a ∧
      readBuffer a n'.type = .ok n'.buffer ∧ n'.Sized := by
  rcases n with ⟨id, t, body, buffer⟩
  cases body with
  | input values =>
    simp only [restore, leaving_ok, Prod.mk.injEq, true_and]
    constructor
    · intro h
      obtain ⟨fresh, hfresh, rfl⟩ := h
      exact ⟨rfl, rfl, rfl, hfresh, rfl⟩
    · rcases n' with ⟨id', t', body', buffer'⟩
      intro h
      obtain ⟨rfl, htype, hread, hbuffer, -⟩ := h
      cases body' <;> simp only [nodeType, NodeType.input.injEq, reduceCtorEq] at htype
      obtain rfl := htype
      obtain rfl : _ = buffer' := hread
      exact ⟨_, hbuffer, rfl⟩
  | constant values =>
    simp only [restore, leaving_ok, Prod.mk.injEq, agree_ok, decide_eq_true_eq]
    constructor
    · intro h
      obtain ⟨values, hvalues, fresh, hfresh, hlength, rfl⟩ := h
      exact ⟨rfl, rfl, hvalues, hfresh, hlength.symm⟩
    · rcases n' with ⟨id', t', body', buffer'⟩
      intro h
      obtain ⟨rfl, htype, hread, hbuffer, hsized⟩ := h
      cases body' <;> simp only [nodeType, NodeType.constant.injEq, reduceCtorEq] at htype
      obtain rfl := htype
      exact ⟨_, hread, _, hbuffer, hsized.symm, rfl⟩
  | output source =>
    simp only [restore, leaving_ok, Prod.mk.injEq, agree_ok, decide_eq_true_eq]
    constructor
    · intro h
      obtain ⟨source, hsource, fresh, hfresh, hsize, rfl⟩ := h
      exact ⟨rfl, rfl, hsource, hfresh, hsize⟩
    · rcases n' with ⟨id', t', body', buffer'⟩
      intro h
      obtain ⟨rfl, htype, hread, hbuffer, hsized⟩ := h
      cases body' <;> simp only [nodeType, NodeType.output.injEq, reduceCtorEq] at htype
      obtain rfl := htype
      exact ⟨_, hread, _, hbuffer, hsized, rfl⟩
  | operation numeric op left right =>
    simp only [restore, leaving_ok, Prod.mk.injEq, agree_ok, Bool.and_eq_true, decide_eq_true_eq]
    constructor
    · intro h
      obtain ⟨op, hop, left, hleft, right, hright, fresh, hfresh, ⟨hsides, hsize⟩, rfl⟩ := h
      exact ⟨rfl, rfl, ⟨hop, hleft, hright⟩, hfresh, hsize, hsides ▸ hsize⟩
    · rcases n' with ⟨id', t', body', buffer'⟩
      intro h
      obtain ⟨rfl, htype, hread, hbuffer, hsized⟩ := h
      cases body' <;> simp only [nodeType, NodeType.operation.injEq, reduceCtorEq] at htype
      obtain rfl := htype
      obtain ⟨hop, hleft, hright⟩ := hread
      obtain ⟨hl, hr⟩ := hsized
      exact ⟨_, hop, _, hleft, _, hright, _, hbuffer, ⟨hl.trans hr.symm, hl⟩, rfl⟩

theorem restored_ok {n n' : Node} {a : Archive} :
    n.restored a = .ok n' ↔ n.restore a = (.ok (), n') := by
  rw [restored]
  rcases n.restore a with ⟨result, node⟩
  cases result <;> simp

/-- Renaming what a node reads changes nothing else. -/
theorem renameInlets_ok {n n' : Node} {rename : NodeId → Option NodeId} :
    n.renameInlets rename = .ok n' →
      n.Matches (Selection.RenamedBy rename) n' ∧ n'.id = n.id ∧ (n.Fresh → n'.Fresh) := by
  rcases n with ⟨id, t, body, buffer⟩
  intro h
  cases body with
  | input values =>
    obtain rfl := pure_ok.mp h
    refine ⟨.of_bodies ?_ rfl id id, rfl, fun hfresh => hfresh⟩
    exact rfl
  | constant values =>
    obtain rfl := pure_ok.mp h
    refine ⟨.of_bodies ?_ rfl id id, rfl, fun hfresh => hfresh⟩
    exact rfl
  | output source =>
    simp only [renameInlets, bind_ok, pure_ok, Selection.renamed_ok] at h
    obtain ⟨source', hsource, rfl⟩ := h
    refine ⟨.of_bodies ?_ rfl id id, rfl, fun hfresh => hfresh⟩
    exact hsource
  | operation numeric op left right =>
    simp only [renameInlets, bind_ok, pure_ok, Selection.renamed_ok] at h
    obtain ⟨left', hleft, right', hright, rfl⟩ := h
    refine ⟨.of_bodies ?_ rfl id id, rfl, fun hfresh => hfresh⟩
    exact ⟨rfl, hleft, hright⟩

end Node

end FlowGraph
