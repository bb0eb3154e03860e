import FlowGraph.Indexed.Session
import FlowGraph.Proofs.Counting
import FlowGraph.Proofs.Session

/-! A model with an index does what the model does that has none. Every operation on the image of a
model gives the image of what the operation gives on the model, with the same errors. -/
namespace FlowGraph

/-- The node with an outlet as large as its buffer. -/
@[reducible] def Node.slot (n : Node) : Slot := { n with size := n.size }

/-- The model with the position of every node in an index. -/
def Model.indexed (m : Model) : Indexed := ⟨m.nodes.map Node.slot, m.ids.zipIdx.reverse⟩

namespace Node

theorem make_slot (id : NodeId) (r : Recipe) : Slot.make id r = (r.make id).map slot := by
  cases r with
  | input t dimension =>
    simp [Slot.make, Recipe.make, Node.input, Except.map, Slot.fresh, slot, size]
  | constant t values =>
    simp [Slot.make, Recipe.make, Node.constant, Except.map, Slot.fresh, slot, size]
  | output t source =>
    simp [Slot.make, Recipe.make, Node.output, Except.map, Slot.fresh, slot, size]
  | operation t numeric op left right =>
    simp only [Slot.make, Recipe.make, Node.operation]
    split
    case isTrue => simp [Except.map, Slot.fresh, slot, size]
    case isFalse => rfl

theorem blank_slot (id : NodeId) (type : NodeType) : Slot.blank id type = (blank id type).slot := by
  cases type <;> rfl

variable (n : Node)

theorem setOutput_slot (values : List n.type.Value) :
    n.slot.setOutput values =
      (n.outlet.checkValues values).map fun values => { n with buffer := values }.slot := by
  rcases n with ⟨id, t, body, buffer⟩
  change (if values.length = buffer.length then _ else _) =
    Except.map _ (if values.length = buffer.length then _ else _)
  split
  case isTrue h =>
    -- the buffer gets as many values as the outlet has elements
    exact congrArg (fun k => Except.ok (⟨⟨id, t, body, values⟩, k⟩ : Slot)) h.symm
  case isFalse => rfl

theorem setInput_slot (values : List n.type.Value) :
    n.slot.setInput values = (n.setInput values).map slot := by
  rcases n with ⟨id, t, body, buffer⟩
  cases body with
  | input old =>
    change (if values.length = buffer.length then _ else _) =
      Except.map slot (if values.length = buffer.length then _ else _)
    split <;> rfl
  | _ => rfl

theorem setInputTexts_slot (texts : List String) :
    n.slot.setInputTexts texts = (n.setInputTexts texts).map slot := by
  unfold Slot.setInputTexts setInputTexts
  change (if n.isInput then _ else _) = _
  split
  case isFalse => rfl
  case isTrue =>
    cases texts.mapM n.type.parse with
    | error e => rfl
    | ok values => exact n.setInput_slot values

theorem setInputOf_slot (t : ElementType) (values : List t.Value) :
    n.slot.setInputOf t values = (n.setInputOf t values).map slot := by
  unfold Slot.setInputOf setInputOf
  by_cases same : t = n.type ∧ n.isInput = true
  · rw [dif_pos same, dif_pos (show t = n.slot.type ∧ n.slot.isInput = true from same)]
    exact n.setInput_slot _
  · rw [dif_neg same, dif_neg (show ¬ (t = n.slot.type ∧ n.slot.isInput = true) from same)]
    rfl

end Node

namespace Model

variable {m : Model}

@[simp] theorem model_indexed (m : Model) : m.indexed.model = m := by
  simp only [Indexed.model, indexed, List.map_map]
  exact congrArg Model.mk (List.map_id _)

@[simp] theorem ids_indexed (m : Model) : m.indexed.ids = m.ids := by
  simp only [Indexed.ids, indexed, List.map_map]
  rfl

@[simp] theorem size_indexed (m : Model) : m.indexed.size = m.size := List.length_map _

theorem indexed_insert (m : Model) (n : Node) :
    (m.insert n).indexed = m.indexed.insert n.slot := by
  simp only [indexed, Indexed.insert, ids_insert, List.zipIdx_append, List.reverse_append]
  rw [length_ids, Nat.zero_add]
  simp [insert, Indexed.size, size, Node.slot]

/-- What was put into the index one node after the other is where the nodes are. -/
@[simp] theorem lookup_indexed (m : Model) (id : NodeId) :
    m.indexed.index.lookup id = m.index id := by
  obtain ⟨nodes⟩ := m
  induction nodes using List.reverseRecOn with
  | nil => rfl
  | append_singleton nodes n ih =>
    change (insert ⟨nodes⟩ n).indexed.index.lookup id = (insert ⟨nodes⟩ n).index id
    rw [indexed_insert, index_insert, Indexed.insert, List.lookup_cons, size_indexed]
    by_cases hid : id = n.id
    · subst hid
      simp
    · rw [show (id == n.slot.id) = false from beq_eq_false_iff_ne.mpr hid, ih,
        Function.update_of_ne hid]

section Lookup

variable (hd : m.ids.Nodup)

include hd

theorem slot?_indexed (id : NodeId) : m.indexed.slot? id = (m.node? id).map Node.slot := by
  rw [node?_eq_index hd, Indexed.slot?, lookup_indexed]
  cases m.index id with
  | none => rfl
  | some k => exact List.getElem?_map

theorem contains_indexed (id : NodeId) : m.indexed.contains id = m.contains id := by
  rw [Indexed.contains, lookup_indexed, ← Option.not_isNone, index_isNone hd, Bool.not_not]

theorem slot_indexed (id : NodeId) : m.indexed.slot id = (m.node id).map Node.slot := by
  rw [Indexed.slot, slot?_indexed hd, node]
  cases m.node? id <;> rfl

/-- An address leads to the same node, or nowhere for the same reason. -/
theorem target_indexed (address : OutletRef) :
    (∃ n : Node, m.indexed.target address = .ok n.slot ∧ m.outlet address = .ok n.outlet) ∨
    ∃ e, m.indexed.target address = .error e ∧ m.outlet address = .error e := by
  unfold Indexed.target outlet
  rw [slot?_indexed hd]
  cases m.node? address.node with
  | none => exact .inr ⟨_, rfl, rfl⟩
  | some n =>
    simp only [Option.map_some, Node.outletNamed]
    split
    case isTrue => exact .inl ⟨n, rfl, rfl⟩
    case isFalse => exact .inr ⟨_, rfl, rfl⟩

theorem outlet_of_target {address : OutletRef} {o : Slot} (h : m.indexed.target address = .ok o) :
    ∃ n : Node, o = n.slot ∧ m.outlet address = .ok n.outlet := by
  rcases target_indexed hd address with ⟨n, ht, ho⟩ | ⟨e, ht, -⟩
  · exact ⟨n, Except.ok.inj (h.symm.trans ht), ho⟩
  · cases h.symm.trans ht

theorem target_of_outlet {address : OutletRef} {o : Outlet} (h : m.outlet address = .ok o) :
    ∃ n : Node, o = n.outlet ∧ m.indexed.target address = .ok n.slot := by
  rcases target_indexed hd address with ⟨n, ht, ho⟩ | ⟨e, -, ho⟩
  · exact ⟨n, Except.ok.inj (h.symm.trans ho), ht⟩
  · cases h.symm.trans ho

theorem checkSpan_indexed (i : Inlet) (s : Span) :
    m.indexed.checkSpan i s = m.checkSpan i s := by
  unfold Indexed.checkSpan checkSpan
  rcases target_indexed hd s.source with ⟨n, ht, ho⟩ | ⟨e, ht, ho⟩
  · rw [ht, ho]
    rfl
  · rw [ht, ho]

theorem checkNode_indexed (n : Node) : m.indexed.checkNode n = m.checkNode n := by
  have hspan : m.indexed.checkSpan = m.checkSpan := funext₂ (checkSpan_indexed hd)
  rw [Indexed.checkNode, hspan]
  rfl

theorem addUnchecked_indexed (n : Node) :
    m.indexed.addUnchecked n.slot = (m.addUnchecked n).map indexed := by
  rw [Indexed.addUnchecked, addUnchecked, ← indexed_insert]
  change (if m.indexed.contains n.id then _ else _) = _
  rw [contains_indexed hd]
  split <;> rfl

theorem add_indexed (n : Node) : m.indexed.add n.slot = (m.add n).map indexed := by
  unfold Indexed.add add
  rw [← indexed_insert]
  change (if m.indexed.contains n.id then _ else _) = _
  rw [contains_indexed hd]
  split
  case isTrue => rfl
  case isFalse =>
    change (m.indexed.checkNode n >>= _) = _
    rw [checkNode_indexed hd]
    cases m.checkNode n <;> rfl

theorem order_indexed : m.indexed.order = m.order := by
  -- a link is entered where the index finds its node, which is where it is
  have henter : m.indexed.enter = m.enter := by
    funext t link
    have hposition := lookup_indexed m link.2
    cases hj : m.index link.2 with
    | none => simp only [Indexed.enter, enter, hposition, hj]
    | some j => simp only [Indexed.enter, enter, hposition, hj]
  have htally : m.indexed.model.links.foldlM m.indexed.enter {} = m.tally := by
    rw [henter, model_indexed, tally]
  have hcounted : m.indexed.countedOrder = m.countedOrder := by
    unfold Indexed.countedOrder countedOrder
    rw [htally]
    cases m.tally with
    | error e => rfl
    | ok t => simp only [model_indexed, size_indexed]
  rw [Indexed.order, hcounted, countedOrder_eq hd, Option.getD_some]

theorem validate_indexed : m.indexed.validate = m.validate := by
  unfold Indexed.validate validate
  rw [order_indexed hd]
  congr 1
  rw [indexed, List.forM_eq_forM, List.forM_map]
  exact congrArg _ (funext (checkNode_indexed hd))

theorem ancestorsFrom_indexed (steps : Nat) (seen ids : List NodeId) :
    m.indexed.ancestorsFrom steps seen ids = m.ancestorsFrom steps seen ids := by
  induction steps generalizing seen ids with
  | zero => cases ids <;> rfl
  | succ steps ih =>
    cases ids with
    | nil => rfl
    | cons id rest =>
      rw [Indexed.ancestorsFrom, ancestorsFrom, slot?_indexed hd, ih]
      cases m.node? id with
      | none => rfl
      | some n => rw [Option.map_some]; exact congrArg _ (ih _ _)

theorem ancestors_indexed (roots : List NodeId) :
    m.indexed.ancestors roots = m.ancestors roots := by
  unfold Indexed.ancestors ancestors
  rw [ancestorsFrom_indexed hd]
  simp only [indexed, List.flatMap_map]

/-- A node is put back where it was found. -/
theorem put_indexed {n n' : Node} (hn : m.node? n.id = some n) (hid : n'.id = n.id) :
    m.indexed.put n.id n'.slot = (m.replace n').indexed := by
  have hids : (m.replace n').ids = m.ids := ids_mapNodes fun old _ => by
    split
    case isTrue heq => exact heq.symm
    case isFalse => rfl
  rw [node?_eq_index hd] at hn
  obtain ⟨k, hk, hnode⟩ := Option.bind_eq_some_iff.mp hn
  rw [Indexed.put, lookup_indexed, hk, indexed, indexed, hids]
  refine congrArg (Indexed.mk · _) (List.ext_getElem? fun j => ?_)
  -- the only node with the id is the one at its position
  rw [List.getElem?_set, replace, List.getElem?_map, List.map_map, List.getElem?_map]
  by_cases hj : k = j
  · subst hj
    obtain ⟨hlt, rfl⟩ := List.getElem?_eq_some_iff.mp hnode
    simp [hid, hlt]
  · rw [if_neg hj]
    cases hold : m.nodes[j]? with
    | none => rfl
    | some old =>
      have hne : old.id ≠ n'.id := by
        intro heq
        have hposition : m.index n.id = some j := by
          rw [index_eq_some hd, ids, List.getElem?_map, hold, Option.map_some, heq, hid]
        exact hj (Option.some.inj (hk.symm.trans hposition))
      simp [hne]

/-- What is made of a node, if it has still the id, goes into the place of the node. -/
theorem put_result_indexed {n : Node} (hn : m.node? n.id = some n)
    {result : Except GraphError Node} (hid : ∀ n', result = .ok n' → n'.id = n.id) :
    (result.map Node.slot >>= fun s => pure (m.indexed.put n.id s)) =
      (result >>= fun n' => pure (m.replace n')).map indexed := by
  cases hresult : result with
  | error e => rfl
  | ok n' => exact congrArg Except.ok (put_indexed hd hn (hid n' hresult))

theorem readSpan_indexed (t : ElementType) (s : Span) :
    m.indexed.readSpan t s = m.readSpan t s := by
  unfold Indexed.readSpan readSpan
  -- the bounds are those of the buffer; the size of the outlet is only told in the error
  rcases target_indexed hd s.source with ⟨⟨id, u, body, buffer⟩, ht, ho⟩ | ⟨e, ht, ho⟩
  · by_cases same : u = t
    · subst same
      have hvalues : m.values u s.source = .ok buffer := by
        rw [values, ho]
        exact dif_pos rfl
      rw [hvalues, ht]
      exact dif_pos rfl
    · have hvalues : m.values t s.source = .error (.typeMismatch s.source.text t u) := by
        rw [values, ho]
        exact dif_neg same
      rw [hvalues, ht]
      exact dif_neg same
  · rw [values, ht, ho]
    rfl

theorem outputs_indexed : m.indexed.outputs = m.outputs := by
  unfold Indexed.outputs outputs
  rw [order_indexed hd]
  congr 1
  funext ids
  congr 2
  funext id
  rw [slot?_indexed hd]
  cases m.node? id <;> rfl

theorem read_indexed (t : ElementType) (e : Selection) : m.indexed.read t e = m.read t e := by
  have hspan : m.indexed.readSpan t = m.readSpan t := funext (readSpan_indexed hd t)
  rw [Indexed.read, hspan, read]

theorem computed_indexed (n : Node) :
    (m.indexed.evaluate n.slot >>= n.slot.setOutput) = (m.computed n).map Node.slot := by
  have hset : ∀ values, n.slot.setOutput values = (n.outlet.checkValues values >>= fun values =>
      pure { n with buffer := values }).map Node.slot := by
    intro values
    rw [n.setOutput_slot]
    cases n.outlet.checkValues values <;> rfl
  -- the kinds of nodes differ in how they come to their values only
  rcases n with ⟨id, t, body, buffer⟩
  cases body with
  | input values => exact hset values
  | constant values => exact hset values
  | output source =>
    simp only [Indexed.evaluate, computed, evaluate, Node.slot, read_indexed hd]
    cases m.read t source with
    | error e => rfl
    | ok values => exact hset values
  | operation numeric op left right =>
    simp only [Indexed.evaluate, computed, evaluate, Node.slot, read_indexed hd]
    cases m.read t left with
    | error e => rfl
    | ok xs =>
      cases m.read t right with
      | error e => rfl
      | ok ys =>
        simp only [bind, Except.bind]
        cases Node.combine ⟨id, t, .operation numeric op left right, buffer⟩ op 0 xs ys with
        | error e => rfl
        | ok values => exact hset values

theorem computeNode_indexed (id : NodeId) :
    m.indexed.computeNode id = (m.computeNode id).map indexed := by
  unfold Indexed.computeNode computeNode
  rw [slot_indexed hd]
  cases hn : m.node id with
  | error e => rfl
  | ok n =>
    obtain ⟨-, rfl⟩ := node?_eq_some (node_ok.mp hn)
    change (m.indexed.evaluate n.slot >>= fun values =>
      n.slot.setOutput values >>= fun s => pure (m.indexed.put n.id s)) = _
    -- values are made and set in one step on the one side, and in two on the other
    rw [← bind_assoc, computed_indexed hd]
    exact put_result_indexed hd (node_ok.mp hn) fun n' hn' => (rebuffers_computed hn').sameShape.id

/-- Also where a failure stops it, the buffers are the same. -/
theorem computeAll_indexed (ids : List NodeId) :
    m.indexed.computeAll ids = ((m.computeAll ids).1, (m.computeAll ids).2.indexed) := by
  induction ids generalizing m with
  | nil => rfl
  | cons id rest ih =>
    rw [Indexed.computeAll, computeAll, computeNode_indexed hd]
    cases hnode : m.computeNode id with
    | error e => rfl
    | ok m' =>
      have hd' : m'.ids.Nodup := by rwa [(rebuffers_computeNode hd hnode).ids]
      exact ih hd'

theorem compute_indexed : m.indexed.compute = (m.compute.1, m.compute.2.indexed) := by
  rw [Indexed.compute, compute, order_indexed hd]
  cases m.order with
  | error e => rfl
  | ok ids => exact computeAll_indexed hd ids

theorem needed_indexed (e : Selection) : m.indexed.needed e = m.needed e := by
  have htarget : (fun s : Span => discard (m.indexed.target s.source)) =
      fun s => discard (m.outlet s.source) := by
    funext s
    rcases target_indexed hd s.source with ⟨n, ht, ho⟩ | ⟨e, ht, ho⟩ <;> rw [ht, ho] <;> rfl
  unfold Indexed.needed needed
  rw [htarget, ancestors_indexed hd, order_indexed hd]

theorem computeSelection_indexed (t : ElementType) (e : Selection) :
    m.indexed.computeSelection t e =
      ((m.computeSelection t e).1, (m.computeSelection t e).2.indexed) := by
  rw [Indexed.computeSelection, computeSelection, needed_indexed hd]
  cases m.needed e with
  | error e' => rfl
  | ok ids =>
    simp only [computeAll_indexed hd]
    -- what is read afterwards is read from the model with its new buffers
    have hd' : (m.computeAll ids).2.ids.Nodup := by rwa [(rebuffers_computeAll hd ids).ids]
    rcases hall : m.computeAll ids with ⟨result, m'⟩
    rw [hall] at hd'
    cases result with
    | error e' => rfl
    | ok u => exact congrArg (·, m'.indexed) (read_indexed hd' t e)

theorem setInput_indexed (id : NodeId) (t : ElementType) (values : List t.Value) :
    m.indexed.setInput id t values = (m.setInput id t values).map indexed := by
  unfold Indexed.setInput setInput
  rw [slot?_indexed hd]
  cases hn : m.node? id with
  | none => rfl
  | some n =>
    obtain ⟨-, rfl⟩ := node?_eq_some hn
    change (n.slot.setInputOf t values >>= fun s => pure (m.indexed.put n.id s)) = _
    rw [n.setInputOf_slot]
    exact put_result_indexed hd hn fun n' hn' => (Node.setInputOf_ok hn').1.id

theorem setInputTexts_indexed (id : NodeId) (texts : List String) :
    m.indexed.setInputTexts id texts = (m.setInputTexts id texts).map indexed := by
  unfold Indexed.setInputTexts setInputTexts
  rw [slot_indexed hd]
  cases hn : m.node id with
  | error e => rfl
  | ok n =>
    obtain ⟨-, rfl⟩ := node?_eq_some (node_ok.mp hn)
    change (n.slot.setInputTexts texts >>= fun s => pure (m.indexed.put n.id s)) = _
    rw [n.setInputTexts_slot]
    refine put_result_indexed hd (node_ok.mp hn) fun n' hn' => ?_
    obtain ⟨values, -, hset⟩ := Node.setInputTexts_ok hn'
    exact (Node.setInput_ok hset).1.id

end Lookup

end Model

end FlowGraph
