import FlowGraph.Graph.Outlet

/-! Reading into a span, a selection, an inlet or an outlet that is there. What a reader changes is
changed at once, and stays changed when the reader fails later on. -/
namespace FlowGraph

/-- Something that reads into a state. What it has changed when it fails stays changed. -/
abbrev Archive.Update (σ : Type) := ExceptT Archive.Error (StateM σ)

namespace Archive.Update

variable {σ τ α : Type}

def apply (u : Update σ α) (s : σ) : Except Error α × σ := u.run s

def ofExcept (result : Except Error α) : Update σ α := fun s => (result, s)

/-- Reads into a part of the state. An error is one in the property `name`. -/
def within (name : String) (part : σ → τ) (put : σ → τ → σ) (u : Update τ Unit) : Update σ Unit :=
  fun s =>
    let (result, t) := u.apply (part s)
    (Archive.within name result, put s t)

end Archive.Update

open Archive (Update)

/-- The address is set before the run is read. -/
def Span.restore (a : Archive) : Update Span Unit := do
  let node ← Update.ofExcept (a.read Archive.Value.asUInt64 "node")
  let name ← Update.ofExcept (a.read Archive.Value.asString "port")
  modify fun s => { s with source := ⟨⟨node⟩, name⟩ }
  let start ← Update.ofExcept (a.read Archive.Value.asSize "start")
  let count ← Update.ofExcept (a.read Archive.Value.asSize "count")
  if sizeLimit < start.toNat + count.toNat then
    throw (.outOfRange "element range"
      (toString start.toNat ++ " + " ++ toString count.toNat))
  modify fun s => { s with start, count }

namespace Selection

/-- Reads the item `index` and those after it, when `spans` with `total` elements have been read. -/
def restoreFrom (index total : Nat) (spans : List Span) : List Archive → Update Selection Unit
  | [] => set (⟨spans⟩ : Selection)
  | item :: rest => do
    -- the item is read into a span of its own, which is lost if that fails
    let (result, s) := (Span.restore item).apply default
    Update.ofExcept (Archive.within (Archive.itemName "ranges" index) result)
    if sizeLimit < total + s.count.toNat then
      throw (.outOfRange "element count" (toString total ++ " + " ++ toString s.count.toNat))
    restoreFrom (index + 1) (total + s.count.toNat) (spans ++ [s]) rest

def restore (a : Archive) : Update Selection Unit := do
  restoreFrom 0 0 [] (← Update.ofExcept (a.objects "ranges"))

end Selection

def Inlet.restore (a : Archive) : Update Inlet Unit := do
  Update.ofExcept (checkStoredType (← get).type a)
  let elements ← Update.ofExcept (a.object "elements")
  Update.within "elements" Inlet.selection (fun i selection => { i with selection })
    (Selection.restore elements)

/-- The values are replaced as a whole, once their number is known to be acceptable. -/
def Outlet.restore (a : Archive) : Update Outlet Unit := do
  Update.ofExcept (checkStoredType (← get).type a)
  let size ← Update.ofExcept (a.read Archive.Value.asSize "size")
  if storedSizeLimit < size.toNat then
    throw (.outOfRange "port size" (toString size.toNat))
  modify fun o => { o with values := List.replicate size.toNat o.type.default }

end FlowGraph
