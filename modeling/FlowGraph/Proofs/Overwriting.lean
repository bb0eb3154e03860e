import FlowGraph.Proofs.Reachable
import FlowGraph.Proofs.RoundTrip

/-! Reading the state of a node into another one. The other one takes all of it over, whatever it
was before, and keeps only its id. -/
namespace FlowGraph

namespace Archive

mutual

/-- Ids that keep their places leave an archive as it is: over the tree, value by value. -/
theorem Value.relabel_id (name : String) : (v : Value) → v.relabel (fun id => id) name = v
  | .bool _ => rfl
  | .int _ => rfl
  | .uint n => by rw [Value.relabel, ite_self]
  | .float _ => rfl
  | .string _ => rfl
  | .array items => by rw [Value.relabel, relabelItems_id items]
  | .object properties => by rw [Value.relabel, relabelProperties_id properties]

theorem relabelItems_id : (items : List Value) → relabelItems (fun id => id) items = items
  | [] => rfl
  | item :: rest => by rw [relabelItems, item.relabel_id, relabelItems_id rest]

theorem relabelProperties_id : (properties : List (String × Value)) →
    relabelProperties (fun id => id) properties = properties
  | [] => rfl
  | (name, v) :: rest => by rw [relabelProperties, v.relabel_id, relabelProperties_id rest]

end

theorem relabel_id (a : Archive) : a.relabel (fun id => id) = a :=
  congrArg Archive.mk (relabelProperties_id a.properties)

end Archive

namespace Node

/-- The state of a node whose sizes agree can be read into any node of its type, which is then what
persists of the node, under the id it had. -/
theorem restore_toArchive {n target : Node} (hsized : n.Sized) (hlimit : n.size ≤ storedSizeLimit)
    (hfits : ∀ s ∈ n.spans, s.Fits) (htype : target.nodeType = n.nodeType) :
    target.restore n.toArchive = (.ok (), n.persisted (fun id => id) target.id) := by
  have hsize : n.size < sizeLimit := Nat.lt_of_le_of_lt hlimit storedSizeLimit_lt
  exact restore_ok.mpr ⟨rfl, (nodeType_persisted _ _ n).trans htype.symm,
    readFrom_toArchive hsized hsize hfits target.id, readBuffer_toArchive hlimit,
    sized_persisted hsized target.id⟩

/-- Reading the stored state of a node overwrites everything. Into any node of its type, in whatever
state that is, the reading succeeds; what is stored of that node afterwards is what was stored, all
its values are defaults in the new number, and only its id tells which node it was. -/
theorem Constructed.restore_overwrites {s : Supply} {n : Node} (hn : n.Constructed s)
    (hlimit : n.size ≤ storedSizeLimit) (hfits : ∀ span ∈ n.spans, span.Fits) {target : Node}
    (htype : target.nodeType = n.nodeType) :
    ∃ after, target.restore n.toArchive = (.ok (), after) ∧ after.toArchive = n.toArchive ∧
      after.id = target.id ∧ after.nodeType = n.nodeType ∧ after.size = n.size ∧ after.Fresh ∧
      ∀ other : Node, other.nodeType = n.nodeType → other.id = target.id →
        other.restore n.toArchive = (.ok (), after) := by
  have hsized : n.Sized := hn.sized.1
  refine ⟨n.persisted (fun id => id) target.id, restore_toArchive hsized hlimit hfits htype, ?_,
    rfl, nodeType_persisted _ _ n, size_persisted _ _ n, fresh_persisted _ _ n, ?_⟩
  · rw [toArchive_persisted, Archive.relabel_id]
  · intro other hother hid
    rw [restore_toArchive hsized hlimit hfits hother, hid]

/-- A quotient of three elements. -/
def storedQuotient : Node :=
  ⟨⟨1⟩, .int, .operation ElementType.isNumeric_int .divide (.single ⟨⟨⟨7⟩, "output"⟩, 2, 3⟩)
    ⟨[⟨⟨⟨8⟩, "output"⟩, 0, 1⟩, ⟨⟨⟨8⟩, "output"⟩, 4, 2⟩]⟩, [(0 : Int32), (0 : Int32), (0 : Int32)]⟩

/-- A product of other elements, computed at some time, whose sizes do not even agree. -/
def spentProduct : Node :=
  ⟨⟨2⟩, .int, .operation ElementType.isNumeric_int .multiply (.single ⟨⟨⟨5⟩, "output"⟩, 9, 1⟩)
    .empty, [(-4 : Int32), (6 : Int32)]⟩

theorem restore_overwrites_spentProduct :
    Constructed ⟨1⟩ storedQuotient ∧ storedQuotient.size ≤ storedSizeLimit ∧
      (∀ span ∈ storedQuotient.spans, span.Fits) ∧
      spentProduct.nodeType = storedQuotient.nodeType ∧
      ∃ after, spentProduct.restore storedQuotient.toArchive = (.ok (), after) ∧
        after.toArchive = storedQuotient.toArchive ∧ after.id = ⟨2⟩ ∧ after.size = 3 ∧
        after.Fresh := by
  have hquotient : Node.operation (NodeId.nth 0) .int rfl .divide
      (.single ⟨⟨⟨7⟩, "output"⟩, 2, 3⟩) ⟨[⟨⟨⟨8⟩, "output"⟩, 0, 1⟩, ⟨⟨⟨8⟩, "output"⟩, 4, 2⟩]⟩ =
        .ok storedQuotient := rfl
  have hmade : Constructed ⟨1⟩ storedQuotient := .operation ⟨0, Nat.one_pos, rfl⟩ hquotient
  have hlimit : storedQuotient.size ≤ storedSizeLimit := by decide
  have hfits : ∀ span ∈ storedQuotient.spans, span.Fits := by
    intro span hspan
    simp only [storedQuotient, spans, inlets, Selection.single, List.flatMap_cons, List.flatMap_nil,
      List.mem_append, List.mem_cons, List.not_mem_nil, or_false] at hspan
    rcases hspan with rfl | rfl | rfl <;> exact Nat.le_of_ble_eq_true rfl
  have htype : spentProduct.nodeType = storedQuotient.nodeType := rfl
  obtain ⟨after, hrestore, harchive, hid, -, hsize, hfresh, -⟩ :=
    hmade.restore_overwrites hlimit hfits htype
  exact ⟨hmade, hlimit, hfits, htype, after, hrestore, harchive, hid, hsize, hfresh⟩

end Node

end FlowGraph
