import FlowGraph.Proofs.Copying
import FlowGraph.Proofs.Session
import FlowGraph.Tool.Assignment

/-! What a model answers to assignments: the meaning of its output nodes when each input node has
the values that were last assigned to it. -/
namespace FlowGraph

open Tool (Assignment Failure)

/-- The assignment is to an input node, with a text that can be read for each of its elements. -/
def Tool.Assignment.Suits (inputs : List NodeId) (m : Model) (a : Assignment) : Prop :=
  ∃ n ∈ m.nodes, inputs[a.index]? = some n.id ∧ a.texts.length = n.size ∧
    ∀ text ∈ a.texts, ∃ v, n.type.parse text = .ok v

/-- Why an assignment is refused: there is no such input, a text cannot be read, or there are not as
many texts as elements. -/
inductive Tool.Assignment.Fails (inputs : List NodeId) (m : Model) (a : Assignment) : Failure → Prop
  | noInput (h : inputs.length ≤ a.index) : Fails inputs m a (.noSuchInput a.index inputs.length)
  | unreadable {n : Node} {e : Unreadable} (hn : n ∈ m.nodes) (hid : inputs[a.index]? = some n.id)
    (h : a.texts.mapM n.type.parse = .error e) :
    Fails inputs m a (.setting a.index (.invalidValue n.id e))
  | dimension {n : Node} {values : List n.type.Value} (hn : n ∈ m.nodes)
    (hid : inputs[a.index]? = some n.id) (hvalues : a.texts.mapM n.type.parse = .ok values)
    (h : a.texts.length ≠ n.size) :
    Fails inputs m a (.setting a.index (.invalidDimension n.id n.size a.texts.length))

/-- What the input nodes hold after assignments: each the values of the last one to it, or as many
defaults as it has elements. -/
def Model.given (m : Model) (inputs : List NodeId) (assignments : List Assignment) : Feed :=
  fun id t => match (assignments.filter fun a => inputs[a.index]? = some id).getLast? with
    | some a => (a.texts.mapM t.parse).toOption.getD []
    | none => List.replicate ((m.node? id).elim 0 Node.size) t.default

/-- The result has the id and the texts of what the node with that id means. -/
def Model.ResultOf (m : Model) (id : NodeId) (result : NodeId × List String) : Prop :=
  result.1 = id ∧ ∃ n ∈ m.nodes, n.id = id ∧ ∃ values, m.reference n.type id = some values ∧
    result.2 = values.map n.type.display

/-- No input node has been given values yet. -/
def Model.Unset (m : Model) : Prop :=
  ∀ n ∈ m.nodes, ∀ values, n.body = .input values → values = List.replicate n.size n.type.default

namespace Node

/-- An input node takes values if there are as many as it has elements. -/
theorem exists_setInput {n : Node} (hinput : n.isInput = true) (values : List n.type.Value) :
    (∃ n', n.setInput values = .ok n') ↔ values.length = n.size := by
  rcases n with ⟨id, t, body, buffer⟩
  cases body with
  | input held =>
    by_cases hlength : values.length = size ⟨id, t, .input held, buffer⟩
    · simp [setInput, hlength]
    · simp [setInput, hlength]
  | _ => cases hinput

/-- It takes texts if there are as many and all of them can be read. -/
theorem exists_setInputTexts {n : Node} (hinput : n.isInput = true) (texts : List String) :
    (∃ n', n.setInputTexts texts = .ok n') ↔
      texts.length = n.size ∧ ∀ text ∈ texts, ∃ v, n.type.parse text = .ok v := by
  rw [← exists_mapM_ok, setInputTexts, if_pos hinput]
  cases hvalues : texts.mapM n.type.parse with
  | error e => simp
  | ok values =>
    have hlength := (mapM_ok.mp hvalues).length_eq
    simp only [exists_setInput hinput, hlength, Except.ok.injEq, exists_eq', and_true]

/-- A node that has been fed takes texts as it would otherwise. -/
theorem setInputTexts_feed {n : Node} (hinput : n.isInput = true) (f : Feed) (texts : List String) :
    (∃ values, texts.mapM n.type.parse = .ok values ∧ texts.length = n.size ∧
      ∀ f' : Feed, f' n.id n.type = values → (n.feed f).setInputTexts texts = .ok (n.feed f')) ∨
    (∃ e, texts.mapM n.type.parse = .error e ∧
      (n.feed f).setInputTexts texts = .error (.invalidValue n.id e)) ∨
    (∃ values, texts.mapM n.type.parse = .ok values ∧ texts.length ≠ n.size ∧
      (n.feed f).setInputTexts texts = .error (.invalidDimension n.id n.size texts.length)) := by
  rcases n with ⟨id, t, body, buffer⟩
  cases body with
  | input held =>
    cases hvalues : texts.mapM t.parse with
    | error e =>
      exact .inr (.inl ⟨e, rfl, by simp [feed, setInputTexts, isInput, hvalues]⟩)
    | ok values =>
      have hlength := (mapM_ok.mp hvalues).length_eq
      by_cases hsize : texts.length = buffer.length
      · refine .inl ⟨values, rfl, hsize, fun f' hf' => ?_⟩
        have hf' : f' id t = values := hf'
        simp [feed, setInputTexts, setInput, isInput, hvalues, size, ← hlength, hsize, hf']
      · refine .inr (.inr ⟨values, rfl, hsize, ?_⟩)
        simp [feed, setInputTexts, setInput, isInput, hvalues, size, ← hlength, hsize]
  | _ => cases hinput

end Node

namespace Model

variable {m : Model} {inputs : List NodeId} {before rest : List Assignment} {a : Assignment}

/-- The last assignment decides, for the input that it is to. -/
theorem given_append_self {id : NodeId} {t : ElementType} {values : List t.Value}
    (hid : inputs[a.index]? = some id) (hvalues : a.texts.mapM t.parse = .ok values) :
    m.given inputs (before ++ [a]) id t = values := by
  have hlast : ((before ++ [a]).filter fun a => inputs[a.index]? = some id).getLast? = some a := by
    simp [List.filter_append, hid]
  simp only [given, hlast, hvalues, Except.toOption, Option.getD_some]

theorem given_append_other {id k : NodeId} (hid : inputs[a.index]? = some id) (hk : k ≠ id) :
    m.given inputs (before ++ [a]) k = m.given inputs before k := by
  have hsame : ((before ++ [a]).filter fun a => inputs[a.index]? = some k) =
      before.filter fun a => inputs[a.index]? = some k := by
    simp [List.filter_append, hid, Ne.symm hk]
  funext t
  rw [given, given, hsame]

/-- Before any assignment the model is as it was. -/
theorem feed_given_nil (hd : m.ids.Nodup) (h : m.Unset) : m.feed (m.given inputs []) = m := by
  refine congrArg Model.mk ((List.map_congr_left fun n hn => ?_).trans (List.map_id m.nodes))
  refine Node.feed_of_unset fun values hbody => ?_
  rw [h n hn values hbody, given, node?_of_mem hd hn]
  rfl

/-- Replacing one node is feeding its id alone. -/
theorem replace_feed (hd : m.ids.Nodup) {n : Node} (hn : n ∈ m.nodes) {f f' : Feed}
    (hother : ∀ id, id ≠ n.id → f' id = f id) : (m.feed f).replace (n.feed f') = m.feed f' := by
  refine congrArg Model.mk ?_
  show ((m.nodes.map (Node.feed f)).map _) = m.nodes.map (Node.feed f')
  rw [List.map_map]
  refine List.map_congr_left fun k hk => ?_
  have hids : (k.feed f).id = (n.feed f').id ↔ k = n := by
    rw [(k.sameShape_feed f).id, (n.sameShape_feed f').id]
    exact ⟨fun hid => List.inj_on_of_nodup_map hd hk hn hid, congrArg Node.id⟩
  by_cases hkn : k = n
  · rw [Function.comp_apply, if_pos (hids.mpr hkn), hkn]
  · have hid : k.id ≠ n.id := fun hid => hkn (List.inj_on_of_nodup_map hd hk hn hid)
    rw [Function.comp_apply, if_neg fun h => hkn (hids.mp h)]
    exact Node.feed_congr fun _ => (congrFun (hother k.id hid) k.type).symm

/-- One assignment: it is carried out, or refused with the model as it is. -/
theorem assign_feed (hwf : m.WellFormed) (hinputs : m.inputs = .ok inputs)
    (before : List Assignment) (a : Assignment) :
    (a.Suits inputs m ∧ (m.feed (m.given inputs before)).assign inputs a =
      .ok (m.feed (m.given inputs (before ++ [a])))) ∨
    (∃ e, a.Fails inputs m e ∧ ¬ a.Suits inputs m ∧
      (m.feed (m.given inputs before)).assign inputs a = .error e) := by
  cases hid : inputs[a.index]? with
  | none =>
    refine .inr ⟨_, .noInput (List.getElem?_eq_none_iff.mp hid), ?_, ?_⟩
    · rintro ⟨n, -, hn, -⟩
      rw [hid] at hn
      cases hn
    · simp [assign, hid, throw, throwThe, MonadExceptOf.throw]
  | some id =>
    obtain ⟨n, hn, hinput, rfl⟩ := (mem_inputs hwf.distinct hinputs).mp (List.mem_of_getElem? hid)
    -- only this node can be meant
    have hsuits : a.Suits inputs m ↔ a.texts.length = n.size ∧
        ∃ values, a.texts.mapM n.type.parse = .ok values := by
      rw [exists_mapM_ok]
      constructor
      · rintro ⟨k, hk, hkid, hrest⟩
        rw [hid, Option.some.injEq] at hkid
        obtain rfl := List.inj_on_of_nodup_map hwf.distinct hn hk hkid
        exact hrest
      · exact fun hrest => ⟨n, hn, hid, hrest⟩
    have hnode : (m.feed (m.given inputs before)).node n.id =
        .ok (n.feed (m.given inputs before)) := by
      rw [node_ok, feed, node?_mapNodes (fun k _ => (k.sameShape_feed _).id),
        node?_of_mem hwf.distinct hn, Option.map_some]
    have hassign : (m.feed (m.given inputs before)).assign inputs a =
        (((n.feed (m.given inputs before)).setInputTexts a.texts).mapError
          (.setting a.index)).map (m.feed (m.given inputs before)).replace := by
      simp only [assign, hid, hnode, Except.mapError, bind, Except.bind]
      cases (n.feed (m.given inputs before)).setInputTexts a.texts <;> rfl
    rw [hassign]
    rcases Node.setInputTexts_feed hinput (m.given inputs before) a.texts with
      ⟨values, hvalues, hlength, hset⟩ | ⟨e, herror, hset⟩ | ⟨values, hvalues, hlength, hset⟩
    · refine .inl ⟨hsuits.mpr ⟨hlength, values, hvalues⟩, ?_⟩
      rw [hset _ (given_append_self hid hvalues)]
      exact congrArg Except.ok (replace_feed hwf.distinct hn fun k hk => given_append_other hid hk)
    · refine .inr ⟨_, .unreadable hn hid herror, fun h => ?_, by rw [hset]; rfl⟩
      obtain ⟨-, values, hvalues⟩ := hsuits.mp h
      rw [herror] at hvalues
      cases hvalues
    · exact .inr ⟨_, .dimension hn hid hvalues hlength, fun h => hlength (hsuits.mp h).1,
        by rw [hset]; rfl⟩

/-- The run, by induction on the assignments. It carries them all out, or those before the first
that is refused. -/
theorem assignAll_feed (hwf : m.WellFormed) (hinputs : m.inputs = .ok inputs)
    (before rest : List Assignment) :
    ((∀ a ∈ rest, a.Suits inputs m) ∧ (m.feed (m.given inputs before)).assignAll inputs rest =
      (.ok (), m.feed (m.given inputs (before ++ rest)))) ∨
    (∃ first a after e, rest = first ++ a :: after ∧ (∀ b ∈ first, b.Suits inputs m) ∧
      a.Fails inputs m e ∧ ¬ a.Suits inputs m ∧
        (m.feed (m.given inputs before)).assignAll inputs rest =
          (.error e, m.feed (m.given inputs (before ++ first)))) := by
  induction rest generalizing before with
  | nil => exact .inl ⟨by simp, by rw [List.append_nil]; rfl⟩
  | cons a rest ih =>
    rw [assignAll]
    rcases assign_feed hwf hinputs before a with ⟨hsuits, hset⟩ | ⟨e, hfails, hrefused, herror⟩
    · rw [hset]
      rcases ih (before ++ [a]) with ⟨hall, hrun⟩ |
        ⟨first, b, after, e, rfl, hfirst, hfails, hrefused, hrun⟩
      · exact .inl ⟨List.forall_mem_cons.mpr ⟨hsuits, hall⟩, by simpa using hrun⟩
      · exact .inr ⟨a :: first, b, after, e, rfl, List.forall_mem_cons.mpr ⟨hsuits, hfirst⟩, hfails,
          hrefused, by simpa using hrun⟩
    · rw [herror]
      exact .inr ⟨[], a, rest, e, rfl, by simp, hfails, hrefused, by rw [List.append_nil]⟩

/-- After assignments that suit, every input node has as many values as elements. -/
theorem accepts_given (hwf : m.WellFormed) {assignments : List Assignment}
    (h : ∀ a ∈ assignments, a.Suits inputs m) : m.Accepts (m.given inputs assignments) := by
  intro n hn hinput
  cases hlast : (assignments.filter fun a => inputs[a.index]? = some n.id).getLast? with
  | none =>
    simp only [given, hlast, node?_of_mem hwf.distinct hn, Option.elim_some,
      List.length_replicate]
  | some a =>
    obtain ⟨ha, hid⟩ := List.mem_filter.mp (List.mem_of_getLast? hlast)
    obtain ⟨k, hk, hkid, hlength, hreadable⟩ := h a ha
    have hsame : n.id = k.id := Option.some.inj ((of_decide_eq_true hid).symm.trans hkid)
    obtain rfl := List.inj_on_of_nodup_map hwf.distinct hn hk hsame
    obtain ⟨values, hvalues⟩ := exists_mapM_ok.mpr hreadable
    simp only [given, hlast, hvalues, Except.toOption, Option.getD_some,
      ← (mapM_ok.mp hvalues).length_eq, hlength]

/-- Changing values does not change which nodes are output nodes. -/
theorem outputs_mapNodes {g : Node → Node} (hshape : ∀ n ∈ m.nodes, n.SameShape (g n))
    (hkind : ∀ n ∈ m.nodes, (g n).isOutput = n.isOutput) {outputs : List NodeId}
    (h : m.outputs = .ok outputs) : (m.mapNodes g).outputs = .ok outputs := by
  obtain ⟨ids, ho, hfilter⟩ := bind_ok.mp h
  obtain rfl := pure_ok.mp hfilter
  rw [outputs_of_order (order_mapNodes hshape ho)]
  refine congrArg Except.ok (List.filter_congr fun id _ => ?_)
  rw [node?_mapNodes fun n hn => (hshape n hn).id]
  cases hn : m.node? id with
  | none => rfl
  | some n => exact hkind n (node?_eq_some hn).1

theorem outputs_feed {outputs : List NodeId} (f : Feed) (h : m.outputs = .ok outputs) :
    (m.feed f).outputs = .ok outputs := by
  refine outputs_mapNodes (fun n _ => n.sameShape_feed f) (fun n _ => ?_) h
  rcases n with ⟨id, t, body, buffer⟩
  cases body <;> rfl

theorem Rebuffers.outputs {m' : Model} (h : m.Rebuffers m') {outputs : List NodeId}
    (houtputs : m.outputs = .ok outputs) : m'.outputs = .ok outputs := by
  obtain ⟨g, hg, rfl⟩ := h
  refine outputs_mapNodes (fun n hn => (hg n hn).sameShape) (fun n hn => ?_) houtputs
  obtain ⟨values, -, hvalues⟩ := hg n hn
  rw [hvalues]
  rcases n with ⟨id, t, body, buffer⟩
  cases body <;> rfl

/-- The texts of a computed model are those of what its output nodes mean. -/
theorem Settled.results {m' : Model} {ids outputs : List NodeId} (h : m.Settled m' ids)
    (hd : m.ids.Nodup) (ho : m.order = .ok ids) (houtputs : m.outputs = .ok outputs)
    (hdefined : ∀ n ∈ m.nodes, (m.reference n.type n.id).isSome) :
    ∃ results, m'.results = .ok results ∧ List.Forall₂ m.ResultOf outputs results := by
  obtain ⟨hr, hsettled⟩ := h
  refine ⟨_, bind_ok.mpr ⟨outputs, hr.outputs houtputs, rfl⟩, forall₂_filterMap fun id hid => ?_⟩
  -- the output node is there, and its buffer holds what it means
  obtain ⟨n, hn, -, rfl⟩ := (mem_outputs hd houtputs).mp hid
  obtain ⟨n', hn', held, -, rfl⟩ := hr.node? (node?_of_mem hd hn)
  obtain ⟨values, hvalues⟩ := Option.isSome_iff_exists.mp (hdefined n hn)
  have hbuffer := hsettled n.id ((order_perm ho).mem_iff.mpr (mem_ids.mpr ⟨n, hn, rfl⟩)) n.type
  rw [hvalues] at hbuffer
  obtain rfl : held = values := Option.some.inj ((buffer?_of_node? hn').symm.trans hbuffer)
  exact ⟨(n.id, held.map n.type.display), by rw [hn']; rfl, rfl, n, hn, rfl, held, hvalues, rfl⟩

/-- The three ways in which answering ends. -/
theorem WellFormed.answers_cases (hwf : m.WellFormed) (ha : m.Allocatable) (hunset : m.Unset)
    {outputs : List NodeId} (hinputs : m.inputs = .ok inputs) (houtputs : m.outputs = .ok outputs)
    (assignments : List Assignment) :
    (∃ results m', m.answers assignments = (.ok results, m') ∧
      (∀ a ∈ assignments, a.Suits inputs m) ∧
      (∀ n ∈ m.nodes, ((m.feed (m.given inputs assignments)).reference n.type n.id).isSome) ∧
      List.Forall₂ (m.feed (m.given inputs assignments)).ResultOf outputs results) ∨
    (∃ n ∈ m.nodes, (m.feed (m.given inputs assignments)).reference n.type n.id = none ∧
      (∀ a ∈ assignments, a.Suits inputs m) ∧
        ∃ e m', m.answers assignments = (.error (.graph e), m')) ∨
    (∃ before a after e, assignments = before ++ a :: after ∧ (∀ b ∈ before, b.Suits inputs m) ∧
      a.Fails inputs m e ∧ ¬ a.Suits inputs m ∧
        m.answers assignments = (.error e, m.feed (m.given inputs before))) := by
  obtain ⟨ids, ho⟩ := hwf.ordered
  have hrun := assignAll_feed hwf hinputs [] assignments
  rw [feed_given_nil hwf.distinct hunset] at hrun
  rcases hrun with ⟨hsuits, hset⟩ | ⟨before, a, after, e, hsplit, hsuits, hfails, hrefused, hset⟩
  · rw [List.nil_append] at hset
    have haccepts := accepts_given hwf hsuits
    have hwf' := haccepts.wellFormed hwf
    rcases hwf'.compute_cases (allocatable_feed _ ha) (.refl _) (order_feed _ ho) with
      ⟨m', hcompute, hsettled, hdefined⟩ | ⟨-, n, -, detail, m', -, hn, hcompute, -, -, hnone, -⟩
    · -- nodes are fed under their own ids, so that what is defined can be told of the model
      have hall : ∀ n ∈ m.nodes,
          ((m.feed (m.given inputs assignments)).reference n.type n.id).isSome := by
        intro n hn
        have hsome := hdefined _ (mem_feed hn)
        rwa [(n.sameShape_feed _).type, (n.sameShape_feed _).id] at hsome
      obtain ⟨results, hresults, hvalues⟩ :=
        hsettled.results hwf'.distinct (order_feed _ ho) (outputs_feed _ houtputs) hdefined
      refine .inl ⟨results, m', ?_, hsuits, hall, hvalues⟩
      simp only [answers, hinputs, hset, hcompute, hresults, Except.mapError]
    · have hanswers : m.answers assignments =
          (.error (.graph (.arithmetic n.id detail)), m') := by
        simp only [answers, hinputs, hset, hcompute]
      obtain ⟨k, hk, rfl⟩ := List.mem_map.mp hn
      rw [(k.sameShape_feed _).type, (k.sameShape_feed _).id] at hnone
      exact .inr (.inl ⟨k, hk, hnone, hsuits, _, m', hanswers⟩)
  · refine .inr (.inr ⟨before, a, after, e, hsplit, hsuits, hfails, hrefused, ?_⟩)
    rw [List.nil_append] at hset
    simp only [answers, hinputs, hset]

end Model

/-- There is only one first thing that is refused. -/
theorem append_cons_inj {α : Type} {P : α → Prop} {xs ys xs' ys' : List α} {x y : α}
    (h : xs ++ x :: xs' = ys ++ y :: ys') (hxs : ∀ z ∈ xs, P z) (hx : ¬ P x) (hys : ∀ z ∈ ys, P z)
    (hy : ¬ P y) : xs = ys ∧ x = y := by
  induction xs generalizing ys with
  | nil =>
    cases ys with
    | nil => exact ⟨rfl, (List.cons.inj h).1⟩
    | cons z ys =>
      obtain rfl := (List.cons.inj h).1
      exact absurd (hys x List.mem_cons_self) hx
  | cons z xs ih =>
    cases ys with
    | nil =>
      obtain rfl := (List.cons.inj h).1
      exact absurd (hxs z List.mem_cons_self) hy
    | cons z' ys =>
      obtain ⟨rfl, hrest⟩ := List.cons.inj h
      obtain ⟨rfl, hxy⟩ := ih hrest (fun w hw => hxs w (List.mem_cons_of_mem _ hw))
        fun w hw => hys w (List.mem_cons_of_mem _ hw)
      exact ⟨rfl, hxy⟩

/-- The tool computes what a model means under the assignments that it was given. It answers exactly
if each of them is to an input node, by its place among the input nodes in the order of the model,
with a text that can be read for each element, and if every node has a value when each input node
has the values last assigned to it, or else its defaults. The answer lists the output nodes in the
order of the model, each once, with the texts of their values. An assignment that is refused leaves
the model as those before it have left it, and so does any other attempt to set an input. -/
theorem Reachable.answers_eq_reference {s : Supply} {m : Model} (h : Reachable s m)
    (ha : m.Allocatable) (hunset : m.Unset) (assignments : List Assignment) :
    ∃ ids inputs outputs, m.order = .ok ids ∧ m.inputs = .ok inputs ∧
      inputs = ids.filter (fun id => (m.node? id).any Node.isInput) ∧ m.outputs = .ok outputs ∧
      outputs = ids.filter (fun id => (m.node? id).any Node.isOutput) ∧ outputs.Nodup ∧
      ((∃ results, (m.answers assignments).1 = .ok results) ↔
        (∀ a ∈ assignments, a.Suits inputs m) ∧
          ∀ n ∈ m.nodes, ((m.feed (m.given inputs assignments)).reference n.type n.id).isSome) ∧
      (∀ results, (m.answers assignments).1 = .ok results →
        List.Forall₂ (m.feed (m.given inputs assignments)).ResultOf outputs results) ∧
      (∀ before a after, assignments = before ++ a :: after → (∀ b ∈ before, b.Suits inputs m) →
        ¬ a.Suits inputs m → ∃ e, a.Fails inputs m e ∧
          m.answers assignments = (.error e, m.feed (m.given inputs before))) ∧
      (∀ n ∈ m.nodes, n.isInput = true →
        (∀ values, (∃ n', n.setInput values = .ok n') ↔ values.length = n.size) ∧
        ∀ texts, (∃ n', n.setInputTexts texts = .ok n') ↔
          texts.length = n.size ∧ ∀ text ∈ texts, ∃ v, n.type.parse text = .ok v) ∧
      ∀ (session : Session) (i : Nat) (id : NodeId) (e : GraphError),
        (∀ t values, (session.perform (.setInput i id t values)).1 = .error e →
          (session.perform (.setInput i id t values)).2 = session) ∧
        ∀ texts, (session.perform (.setInputTexts i id texts)).1 = .error e →
          (session.perform (.setInputTexts i id texts)).2 = session := by
  obtain ⟨hwf, -⟩ := h.wellFormed
  obtain ⟨ids, ho⟩ := hwf.ordered
  have hinputs := Model.inputs_of_order ho
  have houtputs := Model.outputs_of_order ho
  have hnodup : (ids.filter fun id => (m.node? id).any Node.isOutput).Nodup :=
    ((Model.order_perm ho).nodup_iff.mpr hwf.distinct).filter _
  refine ⟨ids, _, _, ho, hinputs, rfl, houtputs, rfl, hnodup, ?_, fun results hresults => ?_,
    fun before a after hsplit hsuits hrefused => ?_,
    fun n _ hinput => ⟨Node.exists_setInput hinput, Node.exists_setInputTexts hinput⟩,
    fun session i id e => ⟨fun t values herror => ?_, fun texts herror => ?_⟩⟩
  · rcases hwf.answers_cases ha hunset hinputs houtputs assignments with
      ⟨results, m', hrun, hsuits, hdefined, -⟩ | ⟨n, hn, hnone, -, e, m', hrun⟩ |
        ⟨before, a, after, e, rfl, -, -, hrefused, hrun⟩
    · exact ⟨fun _ => ⟨hsuits, hdefined⟩, fun _ => ⟨results, by rw [hrun]⟩⟩
    · refine ⟨fun ⟨results, hok⟩ => ?_, fun ⟨_, hdefined⟩ => ?_⟩
      · rw [hrun] at hok
        cases hok
      · have hsome := hdefined n hn
        rw [hnone] at hsome
        cases hsome
    · refine ⟨fun ⟨results, hok⟩ => ?_, fun ⟨hsuits, _⟩ => absurd (hsuits a (by simp)) hrefused⟩
      rw [hrun] at hok
      cases hok
  · rcases hwf.answers_cases ha hunset hinputs houtputs assignments with
      ⟨results', m', hrun, -, -, hvalues⟩ | ⟨n, -, -, -, e, m', hrun⟩ |
        ⟨before, a, after, e, -, -, -, -, hrun⟩
    · rw [hrun] at hresults
      obtain rfl := Except.ok.inj hresults
      exact hvalues
    · rw [hrun] at hresults
      cases hresults
    · rw [hrun] at hresults
      cases hresults
  · rcases hwf.answers_cases ha hunset hinputs houtputs assignments with
      ⟨results, m', -, hall, -⟩ | ⟨n, -, -, hall, -⟩ |
        ⟨first, b, rest, e, hfirst, hfirstSuits, hfails, hrefused', hrun⟩
    · exact absurd (hall a (by simp [hsplit])) hrefused
    · exact absurd (hall a (by simp [hsplit])) hrefused
    · obtain ⟨rfl, rfl⟩ :=
        append_cons_inj (hfirst.symm.trans hsplit) hfirstSuits hrefused' hsuits hrefused
      exact ⟨e, hfails, hrun⟩
  · exact Session.change_attempt_error (Prod.ext herror rfl)
  · exact Session.change_attempt_error (Prod.ext herror rfl)

/-- The second value for the divisor is the one that counts. -/
theorem answers_eq_reference_quotientModel :
    Reachable ⟨4⟩ quotientModel ∧ quotientModel.Allocatable ∧ quotientModel.Unset ∧
      ∃ inputs, quotientModel.inputs = .ok inputs ∧
        (quotientModel.answers [⟨0, ["2"]⟩, ⟨0, [" 3"]⟩]).1 = .ok [(⟨4⟩, ["2"])] ∧
          (quotientModel.feed (quotientModel.given inputs [⟨0, ["2"]⟩, ⟨0, [" 3"]⟩])).ResultOf ⟨4⟩
            (⟨4⟩, ["2"]) := by
  have hunset : quotientModel.Unset := by
    intro n hn values hbody
    simp only [quotientModel, List.mem_cons, List.not_mem_nil, or_false] at hn
    rcases hn with rfl | rfl | rfl | rfl
    · obtain rfl := Body.input.inj hbody
      rfl
    all_goals cases hbody
  have hanswer : (quotientModel.answers [⟨0, ["2"]⟩, ⟨0, [" 3"]⟩]).1 = .ok [(⟨4⟩, ["2"])] := rfl
  obtain ⟨_, inputs, outputs, -, hinputs, -, houtputs, -, -, -, hresults, -⟩ :=
    quotientModel_reachable.answers_eq_reference quotientModel_allocatable hunset
      [⟨0, ["2"]⟩, ⟨0, [" 3"]⟩]
  obtain rfl : outputs = [⟨4⟩] := (Except.ok.inj houtputs).symm
  cases hresults _ hanswer with
  | cons hresult _ =>
    exact ⟨quotientModel_reachable, quotientModel_allocatable, hunset, inputs, hinputs, hanswer,
      hresult⟩

/-- Two values for one element are refused, and the value before them stays. -/
example : quotientModel.answers [⟨0, ["2"]⟩, ⟨0, ["3", "4"]⟩] =
    (.error (.setting 0 (.invalidDimension ⟨1⟩ 1 2)),
      ⟨⟨⟨1⟩, .int, .input [(2 : Int32)], [(0 : Int32)]⟩ :: quotientModel.nodes.drop 1⟩) := rfl

end FlowGraph
