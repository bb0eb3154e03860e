import FlowGraph.Proofs.Carrying

/-! Relocating is substitution, element by element: each element of the source is replaced by the
one that its outlet was mapped to, whatever spans carry the mapping. The first span for which that
cannot be done is told. -/
namespace FlowGraph

namespace Transformer

namespace Context

/-- The node of the span was visited, its outlet is mapped, and the mapping does not end before the
span does. -/
def Reaches (c : Context) (s : Span) : Prop :=
  s.source.node ∈ c.visited ∧
    ∃ e, c.mapping.lookup s.source = some e ∧ s.start.toNat + s.count.toNat ≤ e.size

/-- Why a span cannot be relocated. What is looked at first is told first. -/
inductive Blocks (c : Context) (s : Span) : GraphError → Prop
  | notVisited (unvisited : s.source.node ∉ c.visited) :
    Blocks c s (.notYetVisited s.source.node)
  | elided (visited : s.source.node ∈ c.visited) (unmapped : c.mapping.lookup s.source = none) :
    Blocks c s (.danglingReference s.source "the output was elided by the transform")
  | tooFar {e : Selection} (visited : s.source.node ∈ c.visited)
    (mapped : c.mapping.lookup s.source = some e)
    (beyond : e.size < s.start.toNat + s.count.toNat) :
    Blocks c s (.rangeOutOfBounds s.source s.start.toNat s.stop e.size)

/-- The element that an element of the source was mapped to. -/
def counterpart? (c : Context) (x : OutletRef × Nat) : Option (OutletRef × Nat) :=
  (c.mapping.lookup x.1).bind fun e => e.elements[x.2]?

/-- No mapping that is in force has a span that ends past the greatest size. -/
def Fits (c : Context) : Prop := ∀ address e, c.mapping.lookup address = some e → e.Fits

end Context

variable {c : Context} {s : Span} {e e' : Selection}

theorem exists_relocateSpan_ok :
    (∃ part, relocateSpan ⟨some c⟩ s = .ok part) ↔ c.Reaches s := by
  simp only [relocateSpan_ok, corresponding_ok, Context.Reaches]
  constructor
  · rintro ⟨part, e, ⟨hvisited, hmapped⟩, hslice⟩
    refine ⟨hvisited, e, hmapped, Nat.le_of_not_lt fun hbeyond => ?_⟩
    rw [Selection.slice?, if_pos hbeyond] at hslice
    cases hslice
  · rintro ⟨hvisited, e, hmapped, hbound⟩
    obtain ⟨part, hslice⟩ := Selection.slice?_eq_some hbound
    exact ⟨part, e, ⟨hvisited, hmapped⟩, hslice⟩

theorem Context.Blocks.relocateSpan_eq {error : GraphError} (h : c.Blocks s error) :
    relocateSpan ⟨some c⟩ s = .error error := by
  cases h with
  | notVisited hunvisited =>
    have hfound : corresponding ⟨some c⟩ s.source = .error (.notYetVisited s.source.node) := by
      simp [corresponding, running, hunvisited, bind, Except.bind, throw, throwThe,
        MonadExceptOf.throw]
    rw [relocateSpan, hfound]
    rfl
  | elided hvisited hunmapped =>
    have hfound : corresponding ⟨some c⟩ s.source =
        .error (.danglingReference s.source "the output was elided by the transform") := by
      simp [corresponding, running, hvisited, hunmapped, bind, Except.bind, throw,
        throwThe, MonadExceptOf.throw]
    rw [relocateSpan, hfound]
    rfl
  | @tooFar e hvisited hmapped hbeyond =>
    have hfound := corresponding_ok.mpr ⟨hvisited, hmapped⟩
    have hslice : e.slice? s.start.toNat s.count.toNat = none := if_pos hbeyond
    rw [relocateSpan, hfound]
    simp only [bind, Except.bind, hslice]
    rfl

/-- A span that is not reached is blocked, for one reason. -/
theorem relocateSpan_error {error : GraphError} :
    relocateSpan ⟨some c⟩ s = .error error ↔ c.Blocks s error := by
  refine ⟨fun h => ?_, Context.Blocks.relocateSpan_eq⟩
  have hblocked : ∀ other, c.Blocks s other → c.Blocks s error := by
    intro other hother
    rwa [Except.error.inj (h.symm.trans hother.relocateSpan_eq)]
  by_cases hvisited : s.source.node ∈ c.visited
  · cases hmapped : c.mapping.lookup s.source with
    | none => exact hblocked _ (.elided hvisited hmapped)
    | some e =>
      by_cases hbound : s.start.toNat + s.count.toNat ≤ e.size
      · obtain ⟨part, hpart⟩ := exists_relocateSpan_ok.mpr ⟨hvisited, e, hmapped, hbound⟩
        rw [h] at hpart
        cases hpart
      · exact hblocked _ (.tooFar hvisited hmapped (Nat.lt_of_not_le hbound))
  · exact hblocked _ (.notVisited hvisited)

/-- A span is replaced by the elements that its own were mapped to. -/
theorem elements_relocateSpan (hc : c.Fits) {part : Selection}
    (h : relocateSpan ⟨some c⟩ s = .ok part) :
    s.elements.mapM c.counterpart? = some part.elements ∧ part.Fits ∧ part.Solid := by
  obtain ⟨e, he, hslice⟩ := relocateSpan_ok.mp h
  obtain ⟨-, hmapped⟩ := corresponding_ok.mp he
  have hfits := hc s.source e hmapped
  obtain ⟨helements, hpart⟩ := Selection.slice?_elements hfits hslice
  obtain ⟨-, e₁, hmapped₁, hbound⟩ := exists_relocateSpan_ok.mp ⟨part, h⟩
  obtain rfl : e = e₁ := Option.some.inj (hmapped.symm.trans hmapped₁)
  refine ⟨?_, hpart, Selection.slice?_solid hfits hslice⟩
  -- all elements of the span are of one outlet, and so of one mapping
  have hlength : s.start.toNat + s.count.toNat ≤ e.elements.length := by
    rw [Selection.size_eq] at hbound
    omega
  rw [helements, Span.elements, List.mapM_map]
  simp only [Function.comp_def, Context.counterpart?, hmapped, Option.bind_some]
  exact mapM_getElem? e.elements _ _ hlength

/-- What was relocated has the elements that those of the source were mapped to, in their order. -/
theorem elements_relocate (hc : c.Fits) (h : relocate ⟨some c⟩ e = .ok e') :
    e.elements.mapM c.counterpart? = some e'.elements := by
  obtain ⟨parts, hparts, rfl⟩ := relocate_ok.mp h
  have hkept : ∀ part ∈ parts, part.Fits ∧ part.Solid := by
    intro part hmem
    obtain ⟨s, -, hs⟩ := forall₂_mem_right hparts hmem
    exact (elements_relocateSpan hc hs).2
  obtain ⟨helements, -⟩ :=
    Selection.foldl_append parts ⟨Selection.fits_empty, Selection.solid_empty⟩ hkept
  have hspans : e.spans.mapM (fun s => s.elements.mapM c.counterpart?) =
      some (parts.map Selection.elements) := by
    rw [mapM_some, List.forall₂_map_right_iff]
    exact hparts.imp fun s part hs => (elements_relocateSpan hc hs).1
  rw [helements, Selection.elements, mapM_flatMap, hspans, Option.map_some]
  rfl

theorem exists_relocate_ok :
    (∃ e', relocate ⟨some c⟩ e = .ok e') ↔ ∀ s ∈ e.spans, c.Reaches s := by
  simp only [relocate, bind_ok, pure_ok, exists_comm (α := Selection), exists_and_left,
    exists_eq', and_true, exists_mapM_ok, exists_relocateSpan_ok]

theorem relocate_error {error : GraphError} :
    relocate ⟨some c⟩ e = .error error ↔ ∃ before s after, e.spans = before ++ s :: after ∧
      (∀ k ∈ before, c.Reaches k) ∧ c.Blocks s error := by
  have hrun : relocate ⟨some c⟩ e = .error error ↔
      e.spans.mapM (relocateSpan ⟨some c⟩) = .error error := by
    rw [relocate]
    cases e.spans.mapM (relocateSpan ⟨some c⟩) <;> simp [bind, Except.bind, pure, Except.pure]
  simp only [hrun, mapM_error, exists_relocateSpan_ok, relocateSpan_error]

end Transformer

/-- At any point of a transform, relocating is substitution, element by element. It succeeds exactly
if the node of every span has been visited, its outlet is mapped and the mapping has all elements of
the span; then each element is replaced by the one that it was mapped to, so that there are as many
and their order stays. Otherwise the first span of which that is not so tells why. The transformer
is left as it was. -/
theorem Workspace.relocate_substitutes {w : Workspace} {c : Transformer.Context}
    (hw : w.transformer = ⟨some c⟩) (hc : c.Fits) (e : Selection) :
    (w.respond (.relocate e)).2 = w ∧
    ((∃ e', w.respond (.relocate e) = (.ok e', w)) ↔ ∀ s ∈ e.spans, c.Reaches s) ∧
    (∀ e', w.respond (.relocate e) = (.ok e', w) →
      e.elements.mapM c.counterpart? = some e'.elements ∧ e'.size = e.size) ∧
    ∀ error, w.respond (.relocate e) = (.error error, w) ↔
      ∃ before s after, e.spans = before ++ s :: after ∧ (∀ k ∈ before, c.Reaches k) ∧
        c.Blocks s error := by
  have hrespond : ∀ answer : Except GraphError Selection,
      w.respond (.relocate e) = (answer, w) ↔ Transformer.relocate ⟨some c⟩ e = answer := by
    intro answer
    rw [← hw]
    exact ⟨fun h => (Prod.mk.inj h).1, fun h => Prod.ext h rfl⟩
  refine ⟨rfl, ?_, fun e' h => ?_, fun error => ?_⟩
  · exact (exists_congr fun e' => hrespond (.ok e')).trans Transformer.exists_relocate_ok
  · have helements := Transformer.elements_relocate hc ((hrespond _).mp h)
    refine ⟨helements, ?_⟩
    rw [Selection.size_eq, Selection.size_eq, mapM_length helements]
  · exact (hrespond (.error error)).trans Transformer.relocate_error

/-- Five constants of the source in two nodes of the destination, the last three of them first, and
an outlet that was left out. -/
def scattered : Transformer.Context where
  destination := ⟨[.constant ⟨4⟩ .int [(3 : Int32), (4 : Int32), (5 : Int32)],
    .constant ⟨5⟩ .int [(1 : Int32), (2 : Int32)]]⟩
  mapping := [(⟨⟨1⟩, Node.outletName⟩,
    ⟨[⟨⟨⟨5⟩, Node.outletName⟩, 0, 2⟩, ⟨⟨⟨4⟩, Node.outletName⟩, 0, 3⟩]⟩)]
  visited := [⟨2⟩, ⟨1⟩]

theorem scattered_fits : scattered.Fits := by
  intro address e he
  obtain ⟨before, after, hmapping, -⟩ := List.lookup_eq_some_iff.mp he
  have hmem : (address, e) ∈ scattered.mapping := by simp [hmapping]
  obtain ⟨-, rfl⟩ := Prod.mk.inj (List.mem_singleton.mp hmem)
  simp only [Selection.Fits, List.forall_mem_cons, Span.Fits]
  exact ⟨by decide, by decide, List.forall_mem_nil _⟩

/-- The second to fourth element, nothing of the end, and the first element. -/
def rotated : Selection :=
  ⟨[⟨⟨⟨1⟩, Node.outletName⟩, 1, 3⟩, ⟨⟨⟨1⟩, Node.outletName⟩, 5, 0⟩,
    ⟨⟨⟨1⟩, Node.outletName⟩, 0, 1⟩]⟩

theorem relocate_substitutes_rotated :
    scattered.Fits ∧ ∃ e', Workspace.respond ⟨⟨5⟩, ⟨some scattered⟩⟩ (.relocate rotated) =
        (.ok e', ⟨⟨5⟩, ⟨some scattered⟩⟩) ∧
      rotated.elements.mapM scattered.counterpart? = some e'.elements ∧
        e'.size = rotated.size := by
  obtain ⟨-, hsuccess, helements, -⟩ :=
    Workspace.relocate_substitutes (w := ⟨⟨5⟩, ⟨some scattered⟩⟩) rfl scattered_fits rotated
  have hreaches : ∀ s ∈ rotated.spans, scattered.Reaches s := by
    intro s hs
    have hsource : s.source = ⟨⟨1⟩, Node.outletName⟩ ∧ s.start.toNat + s.count.toNat ≤ 5 := by
      revert s
      decide
    refine ⟨?_, _, congrArg (scattered.mapping.lookup ·) hsource.1, hsource.2⟩
    rw [hsource.1]
    decide
  obtain ⟨e', he'⟩ := hsuccess.mpr hreaches
  exact ⟨scattered_fits, e', he', helements e' he'⟩

/-- The part that lies across both nodes comes apart, and nothing is left of the empty span. -/
example : (Workspace.respond ⟨⟨5⟩, ⟨some scattered⟩⟩ (.relocate rotated)).1 =
    .ok ⟨[⟨⟨⟨5⟩, Node.outletName⟩, 1, 1⟩, ⟨⟨⟨4⟩, Node.outletName⟩, 0, 2⟩,
      ⟨⟨⟨5⟩, Node.outletName⟩, 0, 1⟩]⟩ := rfl

/-- A span without elements is blocked like any other: it starts past the end, and its count is
added to that. -/
example : (Workspace.respond ⟨⟨5⟩, ⟨some scattered⟩⟩ (.relocate
    ⟨[⟨⟨⟨1⟩, Node.outletName⟩, 6, 0⟩, ⟨⟨⟨2⟩, Node.outletName⟩, 0, 1⟩]⟩)).1 =
      .error (.rangeOutOfBounds ⟨⟨1⟩, Node.outletName⟩ 6 6 5) := rfl

end FlowGraph
