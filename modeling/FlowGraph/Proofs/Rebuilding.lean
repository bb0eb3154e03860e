import FlowGraph.Proofs.Indexing
import FlowGraph.Proofs.Loading

/-! Models that are built with an index are the images of those that are built without: the passes
make the same nodes under the same ids, or fail in the same way, and so does loading. -/
namespace FlowGraph

theorem Drawing.runWith_map {α β : Type} (f : α → β) (d : Drawing α) (s : Supply) :
    (f <$> d).runWith s = ((d.runWith s).1.map f, (d.runWith s).2) := by
  rw [map_eq_pure_bind, runWith_bind]
  rcases d.runWith s with ⟨result, s'⟩
  cases result <;> rfl

theorem Drawing.ofExcept_map {α β : Type} (f : α → β) (result : Except GraphError α) :
    ofExcept (result.map f) = f <$> ofExcept result := by
  cases result <;> rfl

theorem Archive.readObject_map {α β : Type} (a : Archive) (name : String)
    (read : Archive → Except Archive.Error α) (f : α → β) :
    a.readObject name (fun inner => (read inner).map f) = (a.readObject name read).map f := by
  unfold readObject within
  cases a.object name with
  | error e => rfl
  | ok inner =>
    simp only [bind, Except.bind]
    cases read inner <;> rfl

namespace Node

variable (n : Node)

/-- Both read the same size; what is behind it is a buffer of defaults. -/
theorem readOutlet_slot (a : Archive) :
    n.slot.readOutlet a =
      (Outlet.valuesOfArchive n.type a).map fun fresh => { n with buffer := fresh }.slot := by
  unfold Slot.readOutlet Outlet.valuesOfArchive Slot.resize Slot.freshBuffer
  cases checkStoredType n.type a with
  | error e => rfl
  | ok u =>
    cases a.read Archive.Value.asSize "size" with
    | error e => rfl
    | ok size =>
      by_cases hlimit : storedSizeLimit < size.toNat
      · simp [bind, Except.bind, hlimit, throw, throwThe, MonadExceptOf.throw, Except.map]
      · simp [bind, Except.bind, hlimit, pure, Except.pure, Except.map, Node.size]

theorem readObject_slot (a : Archive) :
    a.readObject outletName n.slot.readOutlet =
      (readBuffer a n.type).map fun fresh => { n with buffer := fresh }.slot := by
  rw [readBuffer, ← Archive.readObject_map]
  exact congrArg _ (funext n.readOutlet_slot)

theorem agree_slot (agreeing : Bool) (detail : String) :
    (agree agreeing detail >>= fun _ => pure n.slot) =
      Except.map slot (match (agree agreeing detail, n) with
        | (.ok (), n) => .ok n
        | (.error e, _) => .error e) := by
  cases agree agreeing detail <;> rfl

theorem restored_slot (a : Archive) : n.slot.restored a = (n.restored a).map slot := by
  -- both read the same properties in the same order, so that the first failure is the same one
  rcases n with ⟨id, t, body, buffer⟩
  cases body with
  | input values =>
    simp only [Slot.restored, restored, restore, readObject_slot]
    cases hbuffer : readBuffer a t with
    | error e => rfl
    | ok fresh =>
      -- the values get a size that has passed the limit as that of the outlet
      obtain ⟨hlimit, hdefault⟩ := readBuffer_ok hbuffer
      simp [Except.map, bind, Except.bind, pure, Except.pure, Slot.freshBuffer, leaving,
        Nat.not_lt.mpr hlimit, Node.size, ← hdefault]
  | constant values =>
    simp only [Slot.restored, restored, restore]
    cases a.read (Archive.Value.asList t.ofStored) "values" with
    | error e => rfl
    | ok values =>
      change (a.readObject outletName (slot ⟨id, t, .constant values, buffer⟩).readOutlet >>= _) = _
      rw [readObject_slot]
      cases readBuffer a t with
      | error e => rfl
      | ok fresh => exact agree_slot ⟨id, t, .constant values, fresh⟩ _ _
  | output source =>
    simp only [Slot.restored, restored, restore]
    cases readInlet a t "input" with
    | error e => rfl
    | ok source =>
      change (a.readObject outletName (slot ⟨id, t, .output source, buffer⟩).readOutlet >>= _) = _
      rw [readObject_slot]
      cases readBuffer a t with
      | error e => rfl
      | ok fresh => exact agree_slot ⟨id, t, .output source, fresh⟩ _ _
  | operation numeric op left right =>
    simp only [Slot.restored, restored, restore]
    cases readOperation a with
    | error e => rfl
    | ok op =>
      cases readInlet a t "input1" with
      | error e => rfl
      | ok left =>
        cases readInlet a t "input2" with
        | error e => rfl
        | ok right =>
          change (a.readObject outletName
            (slot ⟨id, t, .operation numeric op left right, buffer⟩).readOutlet >>= _) = _
          rw [readObject_slot]
          cases readBuffer a t with
          | error e => rfl
          | ok fresh => exact agree_slot ⟨id, t, .operation numeric op left right, fresh⟩ _ _

end Node

namespace Registry

theorem create_indexed (r : Registry) (name : String) :
    Indexed.create r name = Node.slot <$> r.create name := by
  unfold Indexed.create create
  cases r.entries.lookup name with
  | none => rfl
  | some type =>
    simp only [map_bind, Node.blank_slot]
    rfl

theorem ofArchive_slot (name : String) (result : Except Archive.Error Node) :
    ofArchive (Archive.within name (result.map Node.slot)) =
      Node.slot <$> ofArchive (Archive.within name result) := by
  cases result <;> rfl

theorem loadEntry_indexed (r : Registry) (index : Nat) (entry : Archive) :
    Indexed.loadEntry r index entry = Prod.map id Node.slot <$> r.loadEntry index entry := by
  unfold Indexed.loadEntry loadEntry
  simp only [map_bind, create_indexed, bind_map_left]
  refine bind_congr fun name => bind_congr fun stored => bind_congr fun blank => ?_
  rw [show blank.slot.restored = fun a => (blank.restored a).map Node.slot from
    funext blank.restored_slot, Archive.readObject_map, ofArchive_slot, bind_map_left]
  rfl

theorem loadEntries_indexed (r : Registry) (index : Nat) (known : List UInt64)
    (entries : List Archive) :
    Indexed.loadEntries r index known entries =
      List.map (Prod.map id Node.slot) <$> r.loadEntries index known entries := by
  induction entries generalizing index known with
  | nil => rfl
  | cons entry rest ih =>
    simp only [Indexed.loadEntries, loadEntries, loadEntry_indexed, map_bind, bind_map_left]
    refine bind_congr fun loaded => ?_
    -- that an id is taken is noticed only after its entry was read
    change (if known.contains loaded.1 then _ else _) = _
    split
    case isTrue => rfl
    case isFalse =>
      simp only [ih, map_bind, bind_map_left]
      rfl

theorem resolve_indexed (entries : List (UInt64 × Node)) (n : Node) :
    Indexed.resolve (entries.map (Prod.map id Node.slot)) n.slot =
      (resolve entries n).map Node.slot := by
  have hnodes : (entries.map (Prod.map id Node.slot)).map (fun p => (p.1, p.2.toNode)) =
      entries := by
    rw [List.map_map]
    exact List.map_id _
  unfold Indexed.resolve
  simp only [hnodes]
  cases hn : resolve entries n with
  | error e => rfl
  | ok n' =>
    obtain ⟨hmatches, -⟩ := resolve_ok hn
    exact congrArg (fun size => Except.ok (⟨n', size⟩ : Slot)) hmatches.size.symm

theorem resolveAll_indexed (entries : List (UInt64 × Node)) :
    (entries.map (Prod.map id Node.slot)).mapM
        (fun p => Indexed.resolve (entries.map (Prod.map id Node.slot)) p.2) =
      (entries.mapM fun p => resolve entries p.2).map (List.map Node.slot) := by
  rw [List.mapM_map]
  simp only [Function.comp_def, Prod.map_snd, resolve_indexed]
  exact FlowGraph.mapM_map _ _ _

/-- Nodes go into both models one after the other. -/
theorem foldlM_addUnchecked_indexed (nodes : List Node) {m : Model} (hd : m.ids.Nodup) :
    (nodes.map Node.slot).foldlM Indexed.addUnchecked m.indexed =
      (nodes.foldlM Model.addUnchecked m).map Model.indexed := by
  induction nodes generalizing m with
  | nil => rfl
  | cons n rest ih =>
    rw [List.map_cons, List.foldlM_cons, List.foldlM_cons, Model.addUnchecked_indexed hd]
    cases hadd : m.addUnchecked n with
    | error e => rfl
    | ok m' =>
      rw [Model.addUnchecked] at hadd
      split at hadd
      case isTrue => cases hadd
      case isFalse hnew =>
        obtain rfl := Except.ok.inj hadd
        -- a node goes in under a new id only, so that the ids stay distinct
        exact ih (Model.nodup_insert.mpr ⟨hd, by simpa [Model.contains_iff] using hnew⟩)

theorem assemble_indexed (nodes : List Node) :
    Indexed.assemble (nodes.map Node.slot) = (assemble nodes).map Model.indexed := by
  have hempty : Model.empty.ids.Nodup := List.nodup_nil
  unfold Indexed.assemble assemble
  change ((nodes.map Node.slot).foldlM Indexed.addUnchecked Model.empty.indexed >>= _) = _
  rw [foldlM_addUnchecked_indexed nodes hempty]
  cases hadded : nodes.foldlM Model.addUnchecked .empty with
  | error e => rfl
  | ok m =>
    have hd : m.ids.Nodup := ((foldlM_addUnchecked_ok hempty).mp hadded).2
    change (m.indexed.validate >>= _) = _
    rw [m.validate_indexed hd]
    simp only [bind, Except.bind]
    cases m.validate <;> rfl

theorem load_indexed (r : Registry) (a : Archive) :
    Indexed.load r a = Model.indexed <$> r.load a := by
  unfold Indexed.load load
  simp only [map_bind]
  refine bind_congr fun version => ?_
  split
  case isTrue => rfl
  case isFalse =>
    simp only [map_bind, loadEntries_indexed, bind_map_left]
    refine bind_congr fun items => bind_congr fun entries => ?_
    rw [resolveAll_indexed]
    cases entries.mapM fun p => resolve entries p.2 with
    | error e => rfl
    | ok nodes =>
      change Drawing.ofExcept (Indexed.assemble (nodes.map Node.slot)) = _
      rw [assemble_indexed, Drawing.ofExcept_map]
      rfl

end Registry

theorem Visit.perform_relocate (e : Selection) (w : Workspace) :
    (relocate e).perform w = (w.transformer.relocate e, w) := rfl

namespace Transformer

/-- The context with an index of the destination. -/
def Context.indexed (c : Context) : Indexed.Context :=
  ⟨c.destination.indexed, c.mapping, c.visited⟩

/-- Both have come to the same context, or failed with the same error. -/
def Images (result : Except GraphError Indexed.Context) (result' : Except GraphError Transformer) :
    Prop :=
  (∃ c : Context, c.destination.ids.Nodup ∧ result = .ok c.indexed ∧ result' = .ok ⟨some c⟩) ∨
  ∃ e, result = .error e ∧ result' = .error e

/-- A drawing and the visit of which it is an image have drawn as many ids, and come to the same
context or failed with the same error. -/
def Agrees (outcome : Except GraphError Indexed.Context × Supply)
    (outcome' : Except GraphError Unit × Workspace) : Prop :=
  (∃ (c : Context) (s : Supply), c.destination.ids.Nodup ∧ outcome = (.ok c.indexed, s) ∧
    outcome' = (.ok (), ⟨s, ⟨some c⟩⟩)) ∨
  ∃ e s t, outcome = (.error e, s) ∧ outcome' = (.error e, ⟨s, t⟩)

/-- A request that changes nothing but the transformer. -/
theorem Images.agrees {result : Except GraphError Indexed.Context}
    {result' : Except GraphError Transformer} (h : Images result result') (s : Supply)
    (t : Transformer) : Agrees (result, s) (Workspace.update ⟨s, t⟩ result' ()) := by
  rcases h with ⟨c, hd, rfl, rfl⟩ | ⟨e, rfl, rfl⟩
  · exact .inl ⟨c, s, hd, rfl, rfl⟩
  · exact .inr ⟨e, s, t, rfl, rfl⟩

theorem constants?_indexed {m : Model} (hd : m.ids.Nodup) (t : ElementType) (e : Selection) :
    m.indexed.constants? t e = m.constants? t e := by
  have hspan : m.indexed.constantSpan? t = m.constantSpan? t := by
    funext s
    rw [Indexed.constantSpan?, Model.constantSpan?, m.slot?_indexed hd]
    cases m.node? s.source.node <;> rfl
  rw [Indexed.constants?, hspan, Model.constants?]

theorem folded?_indexed {m : Model} (hd : m.ids.Nodup) (t : ElementType) (op : Operation)
    (left right : Selection) : m.indexed.folded? t op left right = m.folded? t op left right := by
  unfold Indexed.folded? Model.folded?
  simp only [constants?_indexed hd]

variable {c : Context} (hd : c.destination.ids.Nodup)

include hd

theorem add_indexed (n : Node) :
    Images (c.indexed.add n.slot) (Transformer.add ⟨some c⟩ n) := by
  unfold Indexed.Context.add Transformer.add
  rw [show c.indexed.destination.add n.slot = _ from Model.add_indexed hd n]
  simp only [running, Option.elim, bind, Except.bind]
  cases hm : c.destination.add n with
  | error e => exact .inr ⟨e, rfl, rfl⟩
  | ok m =>
    obtain ⟨hfresh, -, rfl⟩ := Model.add_ok.mp hm
    exact .inl ⟨{ c with destination := _ }, Model.nodup_insert.mpr ⟨hd, hfresh⟩, rfl, rfl⟩

theorem map_indexed (n : Node) (e : Selection) :
    Images (c.indexed.map n.slot e) (Transformer.map ⟨some c⟩ n.outlet e) := by
  have htarget : c.indexed.checkTarget n.slot = checkTarget c.destination n.outlet := by
    funext s
    unfold Indexed.Context.checkTarget checkTarget
    rcases Model.target_indexed hd s.source with ⟨k, ht, ho⟩ | ⟨e, ht, ho⟩
    · rw [show c.indexed.destination.target s.source = _ from ht, ho]
      rfl
    · rw [show c.indexed.destination.target s.source = _ from ht, ho]
      rfl
  unfold Indexed.Context.map Transformer.map
  rw [htarget]
  change Images (if n.size ≠ e.size then _ else _) (if n.size ≠ e.size then _ else _)
  split
  case isTrue => exact .inr ⟨_, rfl, rfl⟩
  case isFalse =>
    simp only [running, Option.elim, bind, Except.bind]
    cases e.spans.forM (checkTarget c.destination n.outlet) with
    | error err => exact .inr ⟨err, rfl, rfl⟩
    | ok u => exact .inl ⟨{ c with mapping := (n.address, e) :: c.mapping }, hd, rfl, rfl⟩

/-- A node made from the same recipe is put into the place of the same outlet. -/
theorem agrees_substitute (s : Supply) (n : Node) (r : Recipe) :
    Agrees ((c.indexed.substitute n.slot r).runWith s)
      ((do
        let id ← Visit.drawId
        let n' ← MonadExcept.ofExcept (r.make id)
        Visit.substitute n.outlet n' : Visit Unit).perform ⟨s, ⟨some c⟩⟩) := by
  rw [Visit.perform_bind]
  -- the id is drawn first, and stays drawn if there is no node to be made
  change Agrees (Slot.make s.draw.1 r >>= fun new =>
      c.indexed.add new >>= fun c' => c'.map n.slot new.all, s.draw.2)
    ((MonadExcept.ofExcept (r.make s.draw.1) >>= fun n' => Visit.substitute n.outlet n' :
      Visit Unit).perform ⟨s.draw.2, ⟨some c⟩⟩)
  rw [Node.make_slot]
  cases r.make s.draw.1 with
  | error e => exact .inr ⟨e, s.draw.2, ⟨some c⟩, rfl, rfl⟩
  | ok n' =>
    change Agrees (c.indexed.add n'.slot >>= fun c' => c'.map n.slot n'.slot.all, s.draw.2)
      ((Visit.add n' >>= fun _ => Visit.map n.outlet n'.outlet.all).perform
        ⟨s.draw.2, ⟨some c⟩⟩)
    have hperform : (Visit.add n').perform ⟨s.draw.2, ⟨some c⟩⟩ =
        Workspace.update ⟨s.draw.2, ⟨some c⟩⟩ (Transformer.add ⟨some c⟩ n') n'.id := rfl
    rw [Visit.perform_bind, hperform]
    rcases add_indexed hd n' with ⟨c', hd', hadd, hadd'⟩ | ⟨e, hadd, hadd'⟩
    · rw [hadd, hadd']
      exact (map_indexed hd' n n'.outlet.all).agrees s.draw.2 ⟨some c'⟩
    · rw [hadd, hadd']
      exact .inr ⟨e, s.draw.2, ⟨some c⟩, rfl, rfl⟩

theorem agrees_copy (s : Supply) (n : Node) :
    Agrees ((n.slot.copy c.indexed).runWith s) (n.copy.perform ⟨s, ⟨some c⟩⟩) := by
  rcases n with ⟨id, t, body, buffer⟩
  cases body with
  | input values =>
    exact agrees_substitute hd s ⟨id, t, .input values, buffer⟩ (.input t buffer.length)
  | constant values =>
    exact agrees_substitute hd s ⟨id, t, .constant values, buffer⟩ (.constant t values)
  | output source =>
    change Agrees ((Drawing.ofExcept ((Transformer.relocate ⟨some c⟩ source).map (.output t)) >>=
      c.indexed.substitute _).runWith s) _
    rw [Node.copy, Visit.perform_bind, Visit.perform_relocate]
    cases Transformer.relocate ⟨some c⟩ source with
    | error e => exact .inr ⟨e, s, ⟨some c⟩, rfl, rfl⟩
    | ok source' =>
      exact agrees_substitute hd s ⟨id, t, .output source, buffer⟩ (.output t source')
  | operation numeric op left right =>
    change Agrees ((Drawing.ofExcept (Transformer.relocate ⟨some c⟩ left >>= fun left' =>
      (Transformer.relocate ⟨some c⟩ right).map (.operation t numeric op left')) >>=
        c.indexed.substitute _).runWith s) _
    rw [Node.copy, Visit.perform_bind, Visit.perform_relocate]
    cases Transformer.relocate ⟨some c⟩ left with
    | error e => exact .inr ⟨e, s, ⟨some c⟩, rfl, rfl⟩
    | ok left' =>
      simp only [Visit.perform_bind (Visit.relocate right), Visit.perform_relocate]
      cases Transformer.relocate ⟨some c⟩ right with
      | error e => exact .inr ⟨e, s, ⟨some c⟩, rfl, rfl⟩
      | ok right' =>
        exact agrees_substitute hd s ⟨id, t, .operation numeric op left right, buffer⟩
          (.operation t numeric op left' right')

theorem agrees_fold (s : Supply) (n : Node) :
    Agrees ((n.slot.fold c.indexed).runWith s) (n.fold.perform ⟨s, ⟨some c⟩⟩) := by
  rcases n with ⟨id, t, body, buffer⟩
  cases body with
  | operation numeric op left right =>
    have hcopy := agrees_copy hd s ⟨id, t, .operation numeric op left right, buffer⟩
    have hconstant := fun values => agrees_substitute hd s
      ⟨id, t, .operation numeric op left right, buffer⟩ (.constant t values)
    have hrelocate : ∀ e, (Drawing.ofExcept (c.indexed.relocate e)).runWith s =
        (Transformer.relocate ⟨some c⟩ e, s) := fun _ => rfl
    have hdestination : Visit.destination.perform ⟨s, ⟨some c⟩⟩ =
        (.ok c.destination, ⟨s, ⟨some c⟩⟩) := rfl
    simp only [Slot.fold, Node.fold, Drawing.runWith_bind, Visit.perform_bind, hrelocate,
      Visit.perform_relocate]
    cases Transformer.relocate ⟨some c⟩ left with
    | error e => exact .inr ⟨e, s, ⟨some c⟩, rfl, rfl⟩
    | ok left' =>
      simp only [hrelocate]
      cases Transformer.relocate ⟨some c⟩ right with
      | error e => exact .inr ⟨e, s, ⟨some c⟩, rfl, rfl⟩
      | ok right' =>
        have hfolded : c.indexed.destination.folded? t op left' right' = _ :=
          folded?_indexed hd t op left' right'
        simp only [hdestination, hfolded]
        cases c.destination.folded? t op left' right' with
        -- the copy relocates both operands once more
        | none => exact hcopy
        | some values => exact hconstant values
  | _ => exact agrees_copy hd s _

end Transformer

namespace Model

open Transformer

section Rebuilding

variable {visitor : Node → Visit Unit}
  {visitor' : Slot → Indexed.Context → Drawing Indexed.Context}
  (hvisitor : ∀ (c : Context) (s : Supply) (n : Node), c.destination.ids.Nodup →
    Agrees ((visitor' n.slot c.indexed).runWith s) ((visitor n).perform ⟨s, ⟨some c⟩⟩))
  {source : Model} (hsource : source.ids.Nodup)

include hvisitor hsource

/-- All visits, by induction on the nodes that are still to be visited. -/
theorem agrees_visitAll (ids : List NodeId) {c : Context} (hd : c.destination.ids.Nodup)
    (s : Supply) :
    Agrees ((Indexed.visitAll visitor' source.indexed ids c.indexed).runWith s)
      (let (result, _, w) := Workspace.visitAll (fun n s => (·, s) <$> (visitor n).run) source ids
        () ⟨s, ⟨some c⟩⟩
      (result, w)) := by
  induction ids generalizing c s with
  | nil => exact .inl ⟨c, s, hd, rfl, rfl⟩
  | cons id rest ih =>
    simp only [Indexed.visitAll, Workspace.visitAll, slot_indexed hsource]
    cases source.node id with
    | error e => exact .inr ⟨e, s, ⟨some c⟩, rfl, rfl⟩
    | ok n =>
      change Agrees ((visitor' n.slot c.indexed >>= fun c' =>
        Indexed.visitAll visitor' source.indexed rest
          { c' with visited := id :: c'.visited }).runWith s) _
      rw [Drawing.runWith_bind]
      simp only [Visit.run_paired]
      rcases hvisitor c s n hd with ⟨c', s', hd', hleft, hright⟩ | ⟨e, s', t, hleft, hright⟩
      · simp only [hleft, hright]
        exact @ih { c' with visited := id :: c'.visited } hd' s'
      · simp only [hleft, hright]
        exact .inr ⟨e, s', t, rfl, rfl⟩

theorem rebuild_indexed : source.indexed.rebuild visitor' = indexed <$> source.rebuild visitor := by
  funext s
  change (source.indexed.rebuild visitor').runWith s =
    (indexed <$> source.rebuild visitor).runWith s
  rw [Drawing.runWith_map]
  simp only [Indexed.rebuild, order_indexed hsource]
  -- the transformer is idle at first, and nothing but the ids is left of the workspace at the end
  have hrun : (source.rebuild visitor).runWith s =
      ((Workspace.transform visitor source { supply := s }).1,
        (Workspace.transform visitor source { supply := s }).2.supply) := rfl
  rw [hrun]
  simp only [Workspace.transform, Workspace.transformWith, Transformer.isTransforming,
    Transformer.idle, Option.isSome_none, Bool.false_eq_true, if_false]
  cases source.order with
  | error e => rfl
  | ok ids =>
    have hvisits := @agrees_visitAll _ _ hvisitor _ hsource ids {} List.nodup_nil s
    change (Indexed.visitAll visitor' source.indexed ids (Context.indexed {}) >>= fun c =>
      Drawing.ofExcept c.destination.validate >>= fun _ => pure c.destination).runWith s = _
    rw [Drawing.runWith_bind]
    rcases hall : Workspace.visitAll (fun n s => (·, s) <$> (visitor n).run) source ids ()
      ⟨s, ⟨some {}⟩⟩ with ⟨result, u, w⟩
    rw [hall] at hvisits
    simp only [hall]
    rcases hvisits with ⟨c, s', hc, hleft, hright⟩ | ⟨e, s', t, hleft, hright⟩
    · obtain ⟨rfl, rfl⟩ := Prod.mk.inj hright
      have hvalid : c.indexed.destination.validate = c.destination.validate := validate_indexed hc
      simp only [hleft, hvalid]
      change _ = (Except.map indexed (c.destination.validate >>= fun _ => pure c.destination), s')
      cases c.destination.validate <;> rfl
    · obtain ⟨rfl, rfl⟩ := Prod.mk.inj hright
      rw [hleft]
      rfl

end Rebuilding

theorem pass_indexed {m : Model} (hd : m.ids.Nodup) (p : Pass) :
    Indexed.pass p m.indexed = indexed <$> p.run m := by
  cases p with
  | identity => exact rebuild_indexed (fun c s n hc => agrees_copy hc s n) hd
  | foldConstants => exact rebuild_indexed (fun c s n hc => agrees_fold hc s n) hd
  | prune =>
    change (Drawing.ofExcept (m.indexed.outputs >>= m.indexed.ancestors) >>= _) =
      indexed <$> (Drawing.ofExcept (m.outputs >>= m.ancestors) >>= _)
    have hancestors : m.indexed.ancestors = m.ancestors := funext (ancestors_indexed hd)
    rw [outputs_indexed hd, hancestors, map_bind]
    refine bind_congr fun live => rebuild_indexed (fun c s n hc => ?_) hd
    split
    case isTrue => exact agrees_copy hc s n
    case isFalse => exact .inl ⟨c, s, hc, rfl, rfl⟩

end Model

end FlowGraph
