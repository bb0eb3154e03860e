import FlowGraph.Proofs.Ancestors
import FlowGraph.Proofs.Elements
import FlowGraph.Proofs.Reference
import FlowGraph.Proofs.Restoring
import FlowGraph.Proofs.Visiting

/-! Carrying a model over into another one, node by node: each node gets one that stands for it
under the next id, and everything is wired to the same elements as before. -/
namespace FlowGraph

/-- `e'` names the elements of `e` at the nodes that stand for theirs. -/
def Selection.WiredBy (place : NodeId → NodeId) (e e' : Selection) : Prop :=
  e'.elements = e.elements.map fun x => (⟨place x.1.node, x.1.name⟩, x.2)

/-- All elements of the span are those of a node that has been carried over. -/
def Span.Placed (pairs : List (Node × Node)) (t : ElementType) (s : Span) : Prop :=
  ∃ p ∈ pairs, s.source = p.1.address ∧ p.1.type = t ∧ s.start.toNat + s.count.toNat ≤ p.1.size

/-- `n'` can stand for `n` in a destination. -/
structure Node.StandsFor (place : NodeId → NodeId) (destination : Model) (n n' : Node) : Prop where
  id : n'.id = place n.id
  type : n'.type = n.type
  size : n'.size = n.size
  sized : n'.Sized
  resolves : ∀ s ∈ n'.spans, s.Resolves destination n'.type

/-- What a transformer knows after it has carried over the first nodes of `pairs`: the second ones
are the destination, and whole outlets are mapped onto whole outlets. -/
structure Transformer.Carried (place : NodeId → NodeId) (pairs : List (Node × Node))
    (c : Context) : Prop where
  nodes : c.destination.nodes = pairs.map Prod.snd
  mapping : c.mapping = (pairs.map fun p => (p.1.address, p.2.outlet.all)).reverse
  visited : ∀ p ∈ pairs, p.1.id ∈ c.visited
  distinct : (pairs.map fun p => p.1.id).Nodup
  stands : ∀ p ∈ pairs, p.2.id = place p.1.id ∧ p.2.type = p.1.type ∧ p.2.size = p.1.size
  bounded : ∀ p ∈ pairs, p.1.size < sizeLimit
  wellFormed : c.destination.WellFormed
  follows : Follows [] c.destination.nodes

namespace Node

theorem toNat_size {n : Node} (h : n.size < sizeLimit) :
    (UInt64.ofNat n.size).toNat = n.size := by
  exact toNat_ofNat_of_le h.le

theorem elements_all {n : Node} (h : n.size < sizeLimit) :
    n.outlet.all.elements = (List.range' 0 n.size).map fun i => (n.address, i) := by
  have hsize := toNat_size h
  change (Selection.single ⟨n.address, 0, UInt64.ofNat n.size⟩).elements = _
  rw [Selection.elements_single, Span.elements]
  simp only [hsize]
  rfl

theorem fits_all {n : Node} (h : n.size < sizeLimit) : n.outlet.all.Fits := by
  intro s hs
  rw [List.mem_singleton.mp hs]
  show (0 : UInt64).toNat + (UInt64.ofNat n.size).toNat ≤ sizeLimit
  rw [toNat_size h, UInt64.toNat_zero]
  omega

theorem size_all {n : Node} (h : n.size < sizeLimit) : n.outlet.all.size = n.size := by
  rw [Selection.size_eq, elements_all h, List.length_map, List.length_range']
  omega

end Node

/-- A node that stands for the next one, under a new id, is taken into the destination. -/
theorem Node.StandsFor.substitute {place : NodeId → NodeId} {c : Transformer.Context} {n n' : Node}
    (hs : n.StandsFor place c.destination n') (hn : n.size < sizeLimit)
    (hfresh : place n.id ∉ c.destination.ids) (s : Supply) :
    (Visit.substitute n.outlet n').perform ⟨s, ⟨some c⟩⟩ =
      (.ok (), ⟨s, ⟨some (c.extend n.outlet n')⟩⟩) := by
  have hsize : n.outlet.size = n'.outlet.all.size := by
    rw [Node.size_all (hs.size ▸ hn), hs.size]
    rfl
  exact Transformer.substitute_ok.mpr ⟨hs.id ▸ hfresh, hs.resolves, hsize, hs.type, rfl⟩

namespace Transformer

variable {c : Context}

theorem corresponding_ok {address : OutletRef} {e : Selection} :
    Transformer.corresponding ⟨some c⟩ address = .ok e ↔
      address.node ∈ c.visited ∧ c.mapping.lookup address = some e := by
  simp only [Transformer.corresponding, running, Option.elim, bind_ok, Except.ok.injEq,
    exists_eq_left', Bool.not_eq_true', List.contains_eq_mem, decide_eq_false_iff_not]
  by_cases hvisited : address.node ∈ c.visited
  · rw [if_neg (not_not.mpr hvisited)]
    cases c.mapping.lookup address <;> simp [hvisited, pure_ok, throw_ok]
  · rw [if_pos hvisited]
    simp [hvisited, bind_ok, throw_ok]

theorem relocateSpan_ok {s : Span} {part : Selection} :
    Transformer.relocateSpan ⟨some c⟩ s = .ok part ↔
      ∃ e, Transformer.corresponding ⟨some c⟩ s.source = .ok e ∧
        e.slice? s.start.toNat s.count.toNat = some part := by
  rw [Transformer.relocateSpan, bind_ok]
  refine exists_congr fun e => and_congr_right fun _ => ?_
  cases e.slice? s.start.toNat s.count.toNat with
  | none => simp [throw_ok]
  | some found => simp [pure_ok]

theorem relocate_ok {e e' : Selection} :
    Transformer.relocate ⟨some c⟩ e = .ok e' ↔
      ∃ parts, List.Forall₂ (fun s part => Transformer.relocateSpan ⟨some c⟩ s = .ok part)
        e.spans parts ∧ e' = parts.foldl Selection.append .empty := by
  simp only [Transformer.relocate, bind_ok, pure_ok, mapM_ok, eq_comm (a := e')]

end Transformer

/-- The model has the element, and it is of type `t`. -/
def Model.HasElement (m : Model) (t : ElementType) (x : OutletRef × Nat) : Prop :=
  ∃ n, m.node? x.1.node = some n ∧ x.1.name = Node.outletName ∧ n.type = t ∧ x.2 < n.size

theorem Span.Resolves.hasElement {m : Model} {t : ElementType} {s : Span} (h : s.Resolves m t)
    (hfits : s.Fits) {x : OutletRef × Nat} (hx : x ∈ s.elements) : m.HasElement t x := by
  obtain ⟨n, hn, hname, htype, hstop⟩ := h
  obtain ⟨i, hi, rfl⟩ := List.mem_map.mp hx
  rw [List.mem_range'_1] at hi
  rw [Span.stop_of_fits hfits] at hstop
  exact ⟨n, hn, hname, htype, by omega⟩

/-- Spans with elements resolve where all their elements are. -/
theorem Selection.resolves_of_elements {m : Model} {t : ElementType} {e : Selection}
    (hfits : e.Fits) (hsolid : e.Solid) (h : ∀ x ∈ e.elements, m.HasElement t x) :
    ∀ s ∈ e.spans, s.Resolves m t := by
  intro s hs
  have hpos := Span.toNat_count_pos.mpr (hsolid s hs)
  -- the last element decides, since it has the highest index
  have hlast : (s.source, s.start.toNat + s.count.toNat - 1) ∈ e.elements := by
    refine List.mem_flatMap.mpr ⟨s, hs, List.mem_map.mpr ⟨_, ?_, rfl⟩⟩
    rw [List.mem_range'_1]
    omega
  obtain ⟨n, hn, hname, htype, hless⟩ := h _ hlast
  refine ⟨n, hn, hname, htype, ?_⟩
  rw [Span.stop_of_fits (hfits s hs)]
  omega

namespace Transformer.Carried

variable {place : NodeId → NodeId} {pairs : List (Node × Node)} {c : Context}

theorem corresponding (h : Carried place pairs c) {p : Node × Node} (hp : p ∈ pairs) :
    Transformer.corresponding ⟨some c⟩ p.1.address = .ok p.2.outlet.all := by
  -- an outlet is mapped once, since its node was visited once
  have hkeys : (c.mapping.map Prod.fst).Nodup := by
    rw [h.mapping, List.map_reverse, List.nodup_reverse, List.map_map]
    -- addresses differ, as the ids in them do
    have haddress :
        (pairs.map fun p => p.1.id).map (fun id => (⟨id, Node.outletName⟩ : OutletRef)) =
        pairs.map (Prod.fst ∘ fun p => (p.1.address, p.2.outlet.all)) := by
      rw [List.map_map]
      rfl
    rw [← haddress]
    refine List.Nodup.map ?_ h.distinct
    intro a b hab
    exact (OutletRef.mk.inj hab).1
  have hfound : c.mapping.lookup p.1.address = some p.2.outlet.all := by
    refine lookup_of_mem hkeys ?_
    rw [h.mapping, List.mem_reverse]
    exact List.mem_map.mpr ⟨p, hp, rfl⟩
  exact corresponding_ok.mpr ⟨h.visited p hp, hfound⟩

theorem relocateSpan (h : Carried place pairs c) {t : ElementType} {s : Span}
    (hs : s.Placed pairs t) : ∃ e, Transformer.relocateSpan ⟨some c⟩ s = .ok e ∧
      e.elements = s.elements.map (fun x => (⟨place x.1.node, x.1.name⟩, x.2)) ∧
        e.Fits ∧ e.Solid := by
  obtain ⟨p, hp, hsource, -, hstop⟩ := hs
  obtain ⟨hid, -, hsize⟩ := h.stands p hp
  have hbound : p.2.size < sizeLimit := hsize ▸ h.bounded p hp
  -- the span is a part of the outlet it is on, and so of what stands for that
  rw [← hsize, ← Node.size_all hbound] at hstop
  obtain ⟨e, hslice⟩ := Selection.slice?_eq_some hstop
  obtain ⟨helements, hfits⟩ := Selection.slice?_elements (Node.fits_all hbound) hslice
  refine ⟨e, ?_, ?_, hfits, Selection.slice?_solid (Node.fits_all hbound) hslice⟩
  · exact relocateSpan_ok.mpr ⟨p.2.outlet.all, hsource ▸ h.corresponding hp, hslice⟩
  · rw [Node.size_all hbound] at hstop
    rw [helements, Node.elements_all hbound, ← List.map_drop, ← List.map_take, List.drop_range',
      List.take_range'_of_length_ge (by omega), Span.elements, List.map_map, hsource]
    simp only [Node.address, hid, Nat.mul_one, Nat.zero_add, Function.comp_def]

theorem relocate (h : Carried place pairs c) {t : ElementType} {e : Selection}
    (he : ∀ s ∈ e.spans, s.Placed pairs t) :
    ∃ e', Transformer.relocate ⟨some c⟩ e = .ok e' ∧ e.WiredBy place e' ∧ e'.Fits ∧ e'.Solid := by
  have hparts : ∀ spans : List Span, (∀ s ∈ spans, s.Placed pairs t) → ∃ parts,
      spans.mapM (Transformer.relocateSpan ⟨some c⟩) = .ok parts ∧
        parts.flatMap Selection.elements = (spans.flatMap Span.elements).map
          (fun x => (⟨place x.1.node, x.1.name⟩, x.2)) ∧
            ∀ part ∈ parts, part.Fits ∧ part.Solid := by
    intro spans
    induction spans with
    | nil => exact fun _ => ⟨[], rfl, rfl, by simp⟩
    | cons s rest ih =>
      intro hspans
      obtain ⟨part, hpart, helements, hkept⟩ := h.relocateSpan (hspans s List.mem_cons_self)
      obtain ⟨parts, hparts, hall, hallKept⟩ := ih fun s hs => hspans s (List.mem_cons_of_mem _ hs)
      refine ⟨part :: parts, ?_, ?_, List.forall_mem_cons.mpr ⟨hkept, hallKept⟩⟩
      · rw [List.mapM_cons, hpart, hparts]
        rfl
      · rw [List.flatMap_cons, List.flatMap_cons, helements, hall, List.map_append]
  obtain ⟨parts, hmap, helements, hkept⟩ := hparts e.spans he
  obtain ⟨happend, hfits, hsolid⟩ :=
    Selection.foldl_append parts ⟨Selection.fits_empty, Selection.solid_empty⟩ hkept
  refine ⟨_, ?_, ?_, hfits, hsolid⟩
  · rw [Transformer.relocate, hmap]
    rfl
  · rw [Selection.WiredBy, happend, helements]
    rfl

theorem node? (h : Carried place pairs c) {p : Node × Node} (hp : p ∈ pairs) :
    c.destination.node? (place p.1.id) = some p.2 := by
  have hmem : p.2 ∈ c.destination.nodes := by
    rw [h.nodes]
    exact List.mem_map_of_mem hp
  rw [← (h.stands p hp).1]
  exact Model.node?_of_mem h.wellFormed.distinct hmem

/-- What is wired to elements of nodes that have been carried over resolves. -/
theorem resolves (h : Carried place pairs c) {t : ElementType} {e e' : Selection}
    (he : ∀ s ∈ e.spans, s.Placed pairs t) (hwired : e.WiredBy place e') (hfits : e'.Fits)
    (hsolid : e'.Solid) : ∀ s ∈ e'.spans, s.Resolves c.destination t := by
  refine Selection.resolves_of_elements hfits hsolid fun x hx => ?_
  rw [hwired] at hx
  -- it came from an element of the source, within the size of the node there
  obtain ⟨y, hy, rfl⟩ := List.mem_map.mp hx
  obtain ⟨s, hs, hy⟩ := List.mem_flatMap.mp hy
  obtain ⟨i, hi, rfl⟩ := List.mem_map.mp hy
  obtain ⟨p, hp, hsource, htype, hstop⟩ := he s hs
  obtain ⟨-, htype', hsize⟩ := h.stands p hp
  rw [List.mem_range'_1] at hi
  refine ⟨p.2, ?_, ?_, htype'.trans htype, by omega⟩
  · rw [hsource]
    exact h.node? hp
  · rw [hsource]
    rfl

theorem extend (h : Carried place pairs c) {n n' : Node} (hn : n.size < sizeLimit)
    (hs : n.StandsFor place c.destination n') (hfresh : place n.id ∉ c.destination.ids)
    (hnew : n.id ∉ pairs.map fun p => p.1.id) :
    Carried place (pairs ++ [(n, n')])
      { c.extend n.outlet n' with visited := n.id :: c.visited } where
  nodes := by
    show c.destination.nodes ++ [n'] = _
    rw [h.nodes, List.map_append]
    rfl
  mapping := by
    show (n.address, n'.outlet.all) :: c.mapping = _
    rw [h.mapping, List.map_append, List.reverse_append]
    rfl
  visited := by
    intro p hp
    rcases List.mem_append.mp hp with hp | hp
    · exact List.mem_cons_of_mem _ (h.visited p hp)
    · rw [List.mem_singleton.mp hp]
      exact List.mem_cons_self
  distinct := by
    rw [List.map_append, List.nodup_append]
    refine ⟨h.distinct, List.nodup_singleton _, fun a ha b hb hab => hnew ?_⟩
    rw [List.map_singleton, List.mem_singleton] at hb
    rwa [← hb, ← hab]
  stands := by
    intro p hp
    rcases List.mem_append.mp hp with hp | hp
    · exact h.stands p hp
    · rw [List.mem_singleton.mp hp]
      exact ⟨hs.id, hs.type, hs.size⟩
  bounded := by
    intro p hp
    rcases List.mem_append.mp hp with hp | hp
    · exact h.bounded p hp
    · rwa [List.mem_singleton.mp hp]
  wellFormed := Model.wellFormed_insert h.wellFormed hs.sized (hs.id ▸ hfresh) hs.resolves
  follows := by
    show Follows [] (c.destination.nodes ++ [n'])
    refine follows_append.mpr ⟨h.follows, fun id hid => ?_, trivial⟩
    obtain ⟨s, hspan, rfl⟩ := Node.mem_dependencies.mp hid
    exact Model.resolves_mem (hs.resolves s hspan)

/-- A node that is left out leaves no trace but that it was visited. -/
theorem skip (h : Carried place pairs c) (id : NodeId) :
    Carried place pairs { c with visited := id :: c.visited } :=
  { h with visited := fun p hp => List.mem_cons_of_mem _ (h.visited p hp) }

theorem ids_destination (h : Carried place pairs c) :
    c.destination.ids = (pairs.map fun p => p.1.id).map place := by
  rw [Model.ids, h.nodes, List.map_map, List.map_map]
  exact List.map_congr_left fun p hp => (h.stands p hp).1

end Transformer.Carried

theorem Transformer.carried_empty (place : NodeId → NodeId) : Carried place [] {} where
  nodes := rfl
  mapping := rfl
  visited := by simp
  distinct := List.nodup_nil
  stands := by simp
  bounded := by simp
  wellFormed := Model.wellFormed_empty
  follows := trivial

theorem Selection.WiredBy.size {place : NodeId → NodeId} {e e' : Selection}
    (h : e.WiredBy place e') : e'.size = e.size := by
  rw [Selection.size_eq, Selection.size_eq, h, List.length_map]

/-- The copy of a node that reads only what has been carried over. -/
theorem Node.copied?_carried {place : NodeId → NodeId} {pairs : List (Node × Node)}
    {c : Transformer.Context} (h : Transformer.Carried place pairs c) {n : Node}
    (hspans : ∀ s ∈ n.spans, s.Placed pairs n.type) (hsized : n.Sized) :
    ∃ n', n.copied? ⟨some c⟩ (place n.id) = .ok n' ∧ n.Matches (Selection.WiredBy place) n' ∧
      n'.Fresh ∧ n.StandsFor place c.destination n' := by
  rcases n with ⟨id, t, body, buffer⟩
  cases body with
  | input values =>
    have hsize : (input (place id) t buffer.length).size = buffer.length := List.length_replicate
    refine ⟨input (place id) t buffer.length, rfl, .of_bodies ?_ hsize _ _, ⟨?_, ?_⟩, ?_⟩
    · exact List.length_replicate.trans hsized.symm
    · rw [hsize]
      rfl
    · show List.replicate buffer.length _ = _
      rw [hsize]
      rfl
    · exact ⟨rfl, rfl, hsize, rfl, by simp [spans, inlets, input]⟩
  | constant values =>
    have hsize : (constant (place id) t values).size = buffer.length :=
      List.length_replicate.trans hsized
    have hlength : values.length = buffer.length := hsized
    refine ⟨constant (place id) t values, rfl, .of_bodies ?_ hsize _ _, ⟨?_, trivial⟩, ?_⟩
    · rfl
    · rw [hsize, ← hlength]
      rfl
    · exact ⟨rfl, rfl, hsize, List.length_replicate.symm, by simp [spans, inlets, constant]⟩
  | output source =>
    have hsource : ∀ s ∈ source.spans, s.Placed pairs t := by
      simpa [spans, inlets] using hspans
    obtain ⟨source', hrelocate, hwired, hfits, hsolid⟩ := h.relocate hsource
    have hsize : (output (place id) t source').size = buffer.length :=
      List.length_replicate.trans (hwired.size.trans hsized)
    refine ⟨output (place id) t source', ?_, .of_bodies ?_ hsize _ _, ⟨?_, trivial⟩, ?_⟩
    · simp only [copied?, hrelocate]
      rfl
    · exact hwired
    · rw [hsize, ← show source'.size = buffer.length from hwired.size.trans hsized]
      rfl
    · refine ⟨rfl, rfl, hsize, List.length_replicate.symm, ?_⟩
      simpa [spans, inlets, output] using h.resolves hsource hwired hfits hsolid
  | operation numeric op left right =>
    have hoperands : ∀ s, s ∈ left.spans ∨ s ∈ right.spans → s.Placed pairs t := by
      simpa [spans, inlets] using hspans
    have hleft : ∀ s ∈ left.spans, s.Placed pairs t := fun s hs => hoperands s (.inl hs)
    have hright : ∀ s ∈ right.spans, s.Placed pairs t := fun s hs => hoperands s (.inr hs)
    obtain ⟨left', hrelocateLeft, hwiredLeft, hfitsLeft, hsolidLeft⟩ := h.relocate hleft
    obtain ⟨right', hrelocateRight, hwiredRight, hfitsRight, hsolidRight⟩ := h.relocate hright
    have hsizes : left'.size = buffer.length ∧ right'.size = buffer.length :=
      ⟨hwiredLeft.size.trans hsized.1, hwiredRight.size.trans hsized.2⟩
    -- relocating keeps sizes, so the operation can be made again
    have hmade : operation (place id) t numeric op left' right' =
        .ok ⟨place id, t, .operation numeric op left' right',
          List.replicate left'.size t.default⟩ :=
      if_pos (hsizes.1.trans hsizes.2.symm)
    have hlength : (List.replicate left'.size t.default).length = buffer.length :=
      List.length_replicate.trans hsizes.1
    refine ⟨⟨place id, t, .operation numeric op left' right', List.replicate left'.size t.default⟩,
      ?_, .of_bodies ?_ hlength _ _, ⟨?_, trivial⟩, ?_⟩
    · simp only [copied?, hrelocateLeft, hrelocateRight]
      exact hmade
    · exact ⟨rfl, hwiredLeft, hwiredRight⟩
    · show List.replicate left'.size t.default = List.replicate (List.length _) t.default
      rw [List.length_replicate]
    · refine ⟨rfl, rfl, hlength, ⟨hsizes.1.trans hlength.symm, hsizes.2.trans hlength.symm⟩, ?_⟩
      intro s hs
      have hs' : s ∈ left'.spans ∨ s ∈ right'.spans := by simpa [spans, inlets] using hs
      rcases hs' with hs' | hs'
      · exact h.resolves hleft hwiredLeft hfitsLeft hsolidLeft s hs'
      · exact h.resolves hright hwiredRight hfitsRight hsolidRight s hs'

/-- A visitor that gives every node one that stands for it, and is related to it by `Rel`. -/
def Workspace.Carries (place : NodeId → NodeId) (Rel : Model → Node → Node → Prop)
    (visitor : Node → Visit Unit) : Prop :=
  ∀ (pairs : List (Node × Node)) (c : Transformer.Context) (s : Supply) (n : Node),
    Transformer.Carried place pairs c → (∀ span ∈ n.spans, span.Placed pairs n.type) →
      n.Sized → n.size < sizeLimit → place n.id = NodeId.nth s.drawn →
        place n.id ∉ c.destination.ids → ∃ n',
          (visitor n).perform ⟨s, ⟨some c⟩⟩ =
            (.ok (), ⟨s.draw.2, ⟨some (c.extend n.outlet n')⟩⟩) ∧
          n.StandsFor place c.destination n' ∧ Rel c.destination n n'

/-- A copy is wired to the copies of what the node reads, and has only default values. -/
theorem Node.carries_copy (place : NodeId → NodeId) :
    Workspace.Carries place
      (fun _ n n' => n.Matches (Selection.WiredBy place) n' ∧ n'.Fresh) Node.copy := by
  intro pairs c s n hc hspans hsized hsize hplace hfresh
  obtain ⟨n', hcopied, hmatches, hnew, hstands⟩ := copied?_carried hc hspans hsized
  refine ⟨n', copy_ok.mpr ⟨n', ?_, hstands.substitute hsize hfresh _⟩, hstands, hmatches, hnew⟩
  rw [← hplace]
  exact hcopied

namespace Model

/-- What a node reads has been carried over if all it depends on has. -/
theorem WellFormed.placed {m : Model} (hwf : m.WellFormed) (ha : m.Allocatable)
    {pairs : List (Node × Node)} (hpairs : ∀ p ∈ pairs, p.1 ∈ m.nodes) {n : Node}
    (hn : n ∈ m.nodes) (hready : n.dependencies ⊆ pairs.map fun p => p.1.id) :
    ∀ s ∈ n.spans, s.Placed pairs n.type := by
  intro s hs
  have hresolves := hwf.resolves n hn s hs
  have hstop := Span.stop_of_fits (fits_of_resolves ha hresolves)
  obtain ⟨k, hk, hname, htype, hbound⟩ := hresolves
  obtain ⟨p, hp, hid⟩ := List.mem_map.mp (hready (Node.mem_dependencies.mpr ⟨s, hs, rfl⟩))
  obtain ⟨hkmem, hkid⟩ := node?_eq_some hk
  obtain rfl : p.1 = k :=
    List.inj_on_of_nodup_map hwf.distinct (hpairs p hp) hkmem (hid.trans hkid.symm)
  refine ⟨p, hp, ?_, htype, by rwa [← hstop]⟩
  rw [Node.address, hid, ← hname]

/-- One step: a node is carried over if all it depends on has been. -/
theorem WellFormed.carry {place : NodeId → NodeId} {Rel : Model → Node → Node → Prop}
    {visitor : Node → Visit Unit} (hv : Workspace.Carries place Rel visitor)
    (hmono : ∀ (m : Model) (k n n' : Node), Rel m n n' → Rel (m.insert k) n n')
    {m : Model} (hwf : m.WellFormed) (ha : m.Allocatable) {pairs : List (Node × Node)}
    {c : Transformer.Context} {s : Supply} (hc : Transformer.Carried place pairs c)
    (hrel : ∀ p ∈ pairs, Rel c.destination p.1 p.2) (hpairs : ∀ p ∈ pairs, p.1 ∈ m.nodes)
    {n : Node} (hn : n ∈ m.nodes) (hready : n.dependencies ⊆ pairs.map fun p => p.1.id)
    (hnew : n.id ∉ pairs.map fun p => p.1.id)
    (hfresh : place n.id ∉ (pairs.map fun p => p.1.id).map place)
    (hnext : place n.id = NodeId.nth s.drawn) :
    ∃ n', (visitor n).perform ⟨s, ⟨some c⟩⟩ =
        (.ok (), ⟨s.draw.2, ⟨some (c.extend n.outlet n')⟩⟩) ∧
      Transformer.Carried place (pairs ++ [(n, n')])
        { c.extend n.outlet n' with visited := n.id :: c.visited } ∧
      (∀ p ∈ pairs ++ [(n, n')], Rel (c.destination.insert n') p.1 p.2) ∧
        ∀ p ∈ pairs ++ [(n, n')], p.1 ∈ m.nodes := by
  rw [← hc.ids_destination] at hfresh
  have hspans := hwf.placed ha hpairs hn hready
  obtain ⟨n', hperform, hstands, hnrel⟩ :=
    hv pairs c s n hc hspans (hwf.sized n hn) (ha n hn) hnext hfresh
  refine ⟨n', hperform, hc.extend (ha n hn) hstands hfresh hnew, ?_, ?_⟩
  · intro p hp
    rcases List.mem_append.mp hp with hp | hp
    · exact hmono _ _ _ _ (hrel p hp)
    · rw [List.mem_singleton.mp hp]
      exact hmono _ _ _ _ hnrel
  · intro p hp
    rcases List.mem_append.mp hp with hp | hp
    · exact hpairs p hp
    · rwa [List.mem_singleton.mp hp]

/-- The run, by induction on the nodes that are still to be visited. Those that are not `live` are
left out; the `kept` ones go into the destination that holds those before them. -/
theorem visits_carried {place : NodeId → NodeId} {Rel : Model → Node → Node → Prop}
    {visitor : Node → Visit Unit} (hv : Workspace.Carries place Rel visitor)
    (hmono : ∀ (m : Model) (k n n' : Node), Rel m n n' → Rel (m.insert k) n n')
    {m : Model} (hwf : m.WellFormed) (ha : m.Allocatable) (live : NodeId → Bool)
    {rest kept : List Node} {pairs : List (Node × Node)} {c : Transformer.Context} {s : Supply}
    (hc : Transformer.Carried place pairs c) (hrel : ∀ p ∈ pairs, Rel c.destination p.1 p.2)
    (hpairs : ∀ p ∈ pairs, p.1 ∈ m.nodes) (hrest : ∀ n ∈ rest, n ∈ m.nodes)
    (hkept : rest.filter (fun n => live n.id) = kept)
    (hfollows : Follows (pairs.map fun p => p.1.id) kept)
    (hnodup : ((pairs.map fun p => p.1.id) ++ kept.map Node.id).Nodup)
    (hplaces : (((pairs.map fun p => p.1.id) ++ kept.map Node.id).map place).Nodup)
    (hnext : kept.map (fun n => place n.id) = s.next kept.length) :
    ∃ pairs' c', pairs'.map Prod.fst = kept ∧
      Workspace.Visits (fun n => if live n.id then visitor n else pure ()) m (rest.map Node.id)
        ⟨s, ⟨some c⟩⟩ ⟨⟨s.drawn + kept.length⟩, ⟨some c'⟩⟩ ∧
      Transformer.Carried place (pairs ++ pairs') c' ∧
        ∀ p ∈ pairs ++ pairs', Rel c'.destination p.1 p.2 := by
  induction rest generalizing pairs c s kept with
  | nil =>
    obtain rfl := hkept
    exact ⟨[], c, rfl, rfl, by simpa using hc, by simpa using hrel⟩
  | cons n rest ih =>
    have hn := hrest n List.mem_cons_self
    have hrest' : ∀ k ∈ rest, k ∈ m.nodes := fun k hk => hrest k (List.mem_cons_of_mem _ hk)
    rw [List.filter_cons] at hkept
    by_cases hlive : live n.id = true
    · rw [if_pos hlive] at hkept
      subst hkept
      have hnew : n.id ∉ pairs.map fun p => p.1.id := fun hmem =>
        (List.nodup_append.mp hnodup).2.2 _ hmem _ List.mem_cons_self rfl
      have hfresh : place n.id ∉ (pairs.map fun p => p.1.id).map place := by
        rw [List.map_append, List.map_cons] at hplaces
        exact fun hmem => (List.nodup_append.mp hplaces).2.2 _ hmem _ List.mem_cons_self rfl
      rw [List.map_cons, List.length_cons, Supply.next_succ, List.cons.injEq] at hnext
      -- what `n` reads comes before it in the order, and has been carried over
      obtain ⟨n', hperform, hstep, hrel', hpairs'⟩ :=
        hwf.carry hv hmono ha hc hrel hpairs hn hfollows.1 hnew hfresh hnext.1
      have hseen : (pairs ++ [(n, n')]).map (fun p => p.1.id) =
          (pairs.map fun p => p.1.id) ++ [n.id] := by simp
      obtain ⟨pairs', c', hfirst, hvisits, hcarried, hall⟩ := ih hstep hrel' hpairs' hrest' rfl
        (by rw [hseen]; exact hfollows.2) (by rw [hseen]; simpa using hnodup)
        (by rw [hseen]; simpa using hplaces) hnext.2
      rw [← if_pos (c := live n.id = true) (t := visitor n) (e := pure ()) hlive] at hperform
      refine ⟨(n, n') :: pairs', c', by rw [List.map_cons, hfirst], ?_, ?_, ?_⟩
      · refine ⟨n, _, ⟨some { c.extend n.outlet n' with visited := n.id :: c.visited }⟩,
          node?_of_mem hwf.distinct hn, hperform, rfl, ?_⟩
        have hdrawn : ∀ k, s.drawn + (k + 1) = s.draw.2.drawn + k := by
          intro k
          show s.drawn + (k + 1) = s.drawn + 1 + k
          omega
        rw [List.length_cons, hdrawn]
        exact hvisits
      · simpa using hcarried
      · simpa using hall
    · rw [if_neg hlive] at hkept
      obtain ⟨pairs', c', hfirst, hvisits, hcarried, hall⟩ :=
        ih (hc.skip n.id) hrel hpairs hrest' hkept hfollows hnodup hplaces hnext
      have hperform : (if live n.id then visitor n else pure ()).perform ⟨s, ⟨some c⟩⟩ =
          (.ok (), ⟨s, ⟨some c⟩⟩) := by
        rw [if_neg hlive]
        rfl
      exact ⟨pairs', c', hfirst, ⟨n, _, _, node?_of_mem hwf.distinct hn, hperform, rfl, hvisits⟩,
        hcarried, hall⟩

/-- A visitor that carries the `live` nodes over, which read only from one another, builds a model
of the nodes that stand for them, in the order of the source. -/
theorem rebuild_live {Rel : Model → Node → Node → Prop} {visitor : Node → Visit Unit}
    {m : Model} (hwf : m.WellFormed) (ha : m.Allocatable) {ids : List NodeId}
    (ho : m.order = .ok ids) (live : NodeId → Bool)
    (hlive : ∀ n ∈ m.nodes, live n.id = true → ∀ d ∈ n.dependencies, live d = true) (s : Supply)
    (hv : Workspace.Carries (s.place (ids.filter live)) Rel visitor)
    (hmono : ∀ (m : Model) (k n n' : Node), Rel m n n' → Rel (m.insert k) n n') :
    ∃ pairs : List (Node × Node), ∃ r : Model,
      (m.rebuild fun n => if live n.id then visitor n else pure ()).runWith s =
          (.ok r, ⟨s.drawn + (ids.filter live).length⟩) ∧
        r.nodes = pairs.map Prod.snd ∧ ids.filter live = pairs.map (fun p => p.1.id) ∧
          r.ids = (ids.filter live).map (s.place (ids.filter live)) ∧
            r.ids = s.next (ids.filter live).length ∧ r.order = .ok r.ids ∧
              r.WellFormed ∧ r.Allocatable ∧ ∀ p ∈ pairs, p.1 ∈ m.nodes ∧
                p.2.id = s.place (ids.filter live) p.1.id ∧ p.2.type = p.1.type ∧
                  p.2.size = p.1.size ∧ Rel r p.1 p.2 := by
  obtain ⟨-, listed, rfl, hperm, hfollows⟩ := order_ok ho
  have hmem : ∀ n ∈ listed, n ∈ m.nodes := fun n hn => hperm.mem_iff.mp hn
  have hkept : (listed.map Node.id).filter live =
      (listed.filter fun n => live n.id).map Node.id := List.filter_map
  have hnodup : ((listed.map Node.id).filter live).Nodup :=
    ((order_perm ho).nodup_iff.mpr hwf.distinct).filter _
  have hnext := s.map_place hnodup
  have hplaces : (((listed.map Node.id).filter live).map
      (s.place ((listed.map Node.id).filter live))).Nodup := by
    rw [hnext]
    exact Supply.nodup_next (NodeId.length_le_of_nodup hnodup)
  have hkeptFollow : Follows [] (listed.filter fun n => live n.id) :=
    follows_filter hfollows fun n hn => hlive n (hmem n hn)
  obtain ⟨pairs, c, hfirst, hvisits, hcarried, hrel⟩ :=
    visits_carried hv hmono hwf ha live (Transformer.carried_empty _) (by simp) (by simp) hmem rfl
      hkeptFollow (by simpa [← hkept] using hnodup) (by simpa [← hkept] using hplaces) (s := s) (by
        rw [← List.length_map (f := Node.id), ← hkept, ← hnext, hkept, List.map_map]
        rfl)
  rw [List.nil_append] at hcarried hrel
  have hpairs : (listed.map Node.id).filter live = pairs.map fun p => p.1.id := by
    rw [hkept, ← hfirst, List.map_map]
    rfl
  have hrids : c.destination.ids = ((listed.map Node.id).filter live).map
      (s.place ((listed.map Node.id).filter live)) := by
    rw [hcarried.ids_destination, ← hpairs]
  have horder : c.destination.order = .ok c.destination.ids := order_of_follows hcarried.follows
  refine ⟨pairs, c.destination, rebuild_ok.mpr ⟨_, _, ho, hvisits, rfl, ?_, ?_⟩,
    hcarried.nodes, hpairs, hrids, by rw [hrids, hnext], horder, hcarried.wellFormed, ?_, ?_⟩
  · exact validate_ok.mpr ⟨hcarried.wellFormed.resolves, _, horder⟩
  · rw [hkept, List.length_map]
  · intro n' hn'
    rw [hcarried.nodes] at hn'
    obtain ⟨p, hp, rfl⟩ := List.mem_map.mp hn'
    rw [(hcarried.stands p hp).2.2]
    exact hcarried.bounded p hp
  · intro p hp
    obtain ⟨hid, htype, hsize⟩ := hcarried.stands p hp
    refine ⟨?_, hid, htype, hsize, hrel p hp⟩
    have hlisted : p.1 ∈ listed.filter fun n => live n.id := by
      rw [← hfirst]
      exact List.mem_map_of_mem hp
    exact hmem p.1 (List.mem_filter.mp hlisted).1

/-- A visitor that carries every node over builds a model of the nodes that stand for those of the
source, in its order. -/
theorem rebuild_carried {Rel : Model → Node → Node → Prop} {visitor : Node → Visit Unit}
    {m : Model} (hwf : m.WellFormed) (ha : m.Allocatable) {ids : List NodeId}
    (ho : m.order = .ok ids) (s : Supply)
    (hv : Workspace.Carries (s.place ids) Rel visitor)
    (hmono : ∀ (m : Model) (k n n' : Node), Rel m n n' → Rel (m.insert k) n n') :
    ∃ pairs : List (Node × Node), ∃ r : Model,
      (m.rebuild visitor).runWith s = (.ok r, ⟨s.drawn + m.size⟩) ∧
        r.nodes = pairs.map Prod.snd ∧ ids = pairs.map (fun p => p.1.id) ∧
          r.ids = ids.map (s.place ids) ∧ r.ids = s.next m.size ∧ r.order = .ok r.ids ∧
            r.WellFormed ∧ r.Allocatable ∧ ∀ p ∈ pairs, p.1 ∈ m.nodes ∧
              p.2.id = s.place ids p.1.id ∧ p.2.type = p.1.type ∧ p.2.size = p.1.size ∧
                Rel r p.1 p.2 := by
  have hall : ids.filter (fun _ => true) = ids := List.filter_eq_self.mpr fun _ _ => rfl
  have hrun := rebuild_live hwf ha ho (fun _ => true) (fun _ _ _ _ _ => rfl) s
    (by rwa [hall]) hmono
  simpa only [hall, length_order ho, if_true] using hrun

end Model

end FlowGraph
