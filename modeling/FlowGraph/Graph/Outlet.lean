import FlowGraph.Graph.Error

namespace FlowGraph

/-- The values in `start..stop`, unless that is out of bounds. -/
def valuesBetween? {α : Type} (values : List α) (start stop : Nat) : Option (List α) :=
  if start ≤ stop ∧ stop ≤ values.length then some ((values.drop start).take (stop - start))
  else none

/-- The greatest size of an outlet that is read from an archive. -/
def storedSizeLimit : Nat := 67108864

/-- Checks that something stored is for elements of type `t`. -/
def checkStoredType (t : ElementType) (a : Archive) : Except Archive.Error Unit := do
  let found ← a.read Archive.Value.asString "type"
  if found ≠ t.name then
    throw (.invalidValue ("port holds '" ++ found ++ "' elements, expected '" ++ t.name ++ "'"))

/-- The values a node has produced, as many as the outlet has elements. -/
structure Outlet where
  address : OutletRef
  type : ElementType
  values : List type.Value

namespace Outlet

def blank (address : OutletRef) (t : ElementType) (size : Nat) : Outlet :=
  ⟨address, t, List.replicate size t.default⟩

def size (o : Outlet) : Nat := o.values.length

def texts (o : Outlet) : List String := o.values.map o.type.display

/-- All elements of an outlet. -/
def all (o : Outlet) : Selection := .single ⟨o.address, 0, UInt64.ofNat o.size⟩

/-- Accepts new values if there are as many as before. -/
def checkValues (o : Outlet) (values : List o.type.Value) :
    Except GraphError (List o.type.Value) :=
  if values.length = o.size then .ok values
  else .error (.sizeMismatch o.address.text o.size values.length)

def set (o : Outlet) (values : List o.type.Value) : Except GraphError Outlet := do
  return { o with values := ← o.checkValues values }

/-- The type and the size; the values are not stored. -/
def toArchive (o : Outlet) : Archive :=
  .ofList [("name", .string o.address.name), ("type", .string o.type.name),
    ("size", .uint (UInt64.ofNat o.size))]

/-- The fresh values of a stored outlet for elements of type `t`. -/
def valuesOfArchive (t : ElementType) (a : Archive) : Except Archive.Error (List t.Value) := do
  checkStoredType t a
  let size ← a.read Archive.Value.asSize "size"
  if storedSizeLimit < size.toNat then
    throw (.outOfRange "port size" (toString size.toNat))
  return List.replicate size.toNat t.default

end Outlet

/-- What a node reads. -/
structure Inlet where
  node : NodeId
  name : String
  type : ElementType
  selection : Selection

namespace Inlet

def size (i : Inlet) : Nat := i.selection.size

def toArchive (i : Inlet) : Archive :=
  .ofList [("name", .string i.name), ("type", .string i.type.name),
    ("elements", i.selection.toArchive.toValue)]

/-- The selection of a stored inlet for elements of type `t`. -/
def selectionOfArchive (t : ElementType) (a : Archive) : Except Archive.Error Selection := do
  checkStoredType t a
  a.readObject "elements" Selection.ofArchive

end Inlet

end FlowGraph
