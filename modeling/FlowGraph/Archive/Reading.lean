import FlowGraph.Archive.Conversion

/-! Reading the properties of an archive. Every error names the way to the property it is about. -/
namespace FlowGraph.Archive

variable {α : Type}

/-- Puts an error into the property `name`. -/
def within (name : String) (result : Except Error α) : Except Error α :=
  result.mapError (.property name)

def value (a : Archive) (name : String) : Except Error Value :=
  match a.get? name with
  | some v => .ok v
  | none => .error (.missingProperty name)

def read (a : Archive) (as : Value → Except Error α) (name : String) : Except Error α := do
  within name (as (← a.value name))

/-- Like `read`, but a missing property has a default. -/
def readOr (a : Archive) (as : Value → Except Error α) (name : String) (default : α) :
    Except Error α :=
  if a.contains name then a.read as name else .ok default

def object (a : Archive) (name : String) : Except Error Archive := do
  within name (← a.value name).asArchive

/-- Reads the property `name` as an object, and from it something else. -/
def readObject (a : Archive) (name : String) (readInner : Archive → Except Error α) :
    Except Error α := do
  within name (readInner (← a.object name))

/-- The name of an item of an array property. -/
def itemName (name : String) (index : Nat) : String := name ++ "[" ++ toString index ++ "]"

/-- The items of an array property from `index` on, each of which has to be an object. -/
def objectsFrom (name : String) (index : Nat) : List Value → Except Error (List Archive)
  | [] => .ok []
  | item :: rest => do
    let first ← within (itemName name index) item.asArchive
    return first :: (← objectsFrom name (index + 1) rest)

def objects (a : Archive) (name : String) : Except Error (List Archive) := do
  match ← a.value name with
  | .array items => objectsFrom name 0 items
  | v => within name (v.wrongType .array)

end FlowGraph.Archive
