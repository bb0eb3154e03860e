import FlowGraph.Graph.Node

/-! The state of a node in an archive. Reading goes through the properties in their order and sets
each part as soon as it is read, so that a failed reading leaves the parts before the failure. -/
namespace FlowGraph

namespace ElementType

def toStored : (t : ElementType) → t.Value → Archive.Value
  | .bool, b => .bool b
  | .int, n => .ofInt32 n
  | .int64, n => .int n
  | .float, x => .ofSingle x
  | .double, x => .float x

def ofStored : (t : ElementType) → Archive.Value → Except Archive.Error t.Value
  | .bool => Archive.Value.asBool
  | .int => Archive.Value.asInt32
  | .int64 => Archive.Value.asInt64
  | .float => Archive.Value.asSingle
  | .double => Archive.Value.asDouble

end ElementType

namespace Node

/-- What persists of a node: constants, selections and sizes, but neither its id nor the values it
was set to or has produced. -/
def toArchive (n : Node) : Archive :=
  let inlets := n.inlets.map fun i => (i.name, i.toArchive.toValue)
  -- the properties are in the order in which `restore` reads them
  let own := match n.body with
    | .input _ | .output _ => []
    | .constant values => [("values", .ofList n.type.toStored values)]
    | .operation _ op _ _ => [("operation", .string op.name)]
  .ofList (own ++ inlets ++ [(outletName, n.outlet.toArchive.toValue)])

def readOperation (a : Archive) : Except Archive.Error Operation := do
  let name ← a.read Archive.Value.asString "operation"
  match Operation.ofName? name with
  | some op => return op
  | none =>
    throw (.property "operation" (.invalidValue ("unknown binary operation '" ++ name ++ "'")))

def readInlet (a : Archive) (t : ElementType) (name : String) : Except Archive.Error Selection :=
  a.readObject name (Inlet.selectionOfArchive t)

def readBuffer (a : Archive) (t : ElementType) : Except Archive.Error (List t.Value) :=
  a.readObject outletName (Outlet.valuesOfArchive t)

/-- Requires sizes to agree. -/
def agree (agreeing : Bool) (detail : String) : Except Archive.Error Unit :=
  if agreeing then .ok () else .error (.invalidValue detail)

/-- Goes on with what was read, or stops with the node as it is. -/
def leaving {α : Type} (n : Node) (result : Except Archive.Error α)
    (next : α → Except Archive.Error Unit × Node) : Except Archive.Error Unit × Node :=
  match result with
  | .ok a => next a
  | .error e => (.error e, n)

/-- Reads the state of a node of the same type. What it has produced is forgotten. -/
def restore (n : Node) (a : Archive) : Except Archive.Error Unit × Node :=
  match n with
  | ⟨id, t, .input values, buffer⟩ =>
    leaving ⟨id, t, .input values, buffer⟩ (readBuffer a t) fun fresh =>
    -- the size comes from the archive, the values are the defaults again
    (.ok (), ⟨id, t, .input fresh, fresh⟩)
  | ⟨id, t, .constant values, buffer⟩ =>
    leaving ⟨id, t, .constant values, buffer⟩
      (a.read (Archive.Value.asList t.ofStored) "values") fun values =>
    leaving ⟨id, t, .constant values, buffer⟩ (readBuffer a t) fun fresh =>
    (agree (fresh.length = values.length) (toString values.length ++
      " values for an output of size " ++ toString fresh.length), ⟨id, t, .constant values, fresh⟩)
  | ⟨id, t, .output source, buffer⟩ =>
    leaving ⟨id, t, .output source, buffer⟩ (readInlet a t "input") fun source =>
    leaving ⟨id, t, .output source, buffer⟩ (readBuffer a t) fun fresh =>
    (agree (source.size = fresh.length) ("input has " ++ toString source.size ++
      " elements but output has " ++ toString fresh.length), ⟨id, t, .output source, fresh⟩)
  | ⟨id, t, .operation numeric op left right, buffer⟩ =>
    leaving ⟨id, t, .operation numeric op left right, buffer⟩ (readOperation a) fun op =>
    leaving ⟨id, t, .operation numeric op left right, buffer⟩ (readInlet a t "input1") fun left =>
    leaving ⟨id, t, .operation numeric op left right, buffer⟩ (readInlet a t "input2") fun right =>
    leaving ⟨id, t, .operation numeric op left right, buffer⟩ (readBuffer a t) fun fresh =>
    -- everything is read by now, and stays when the sizes disagree
    (agree (left.size = right.size && left.size = fresh.length) ("port sizes disagree: input1 " ++
      toString left.size ++ ", input2 " ++ toString right.size ++ ", output " ++
      toString fresh.length), ⟨id, t, .operation numeric op left right, fresh⟩)

/-- The node after a reading that has succeeded. -/
def restored (n : Node) (a : Archive) : Except Archive.Error Node :=
  match n.restore a with
  | (.ok (), n) => .ok n
  | (.error e, _) => .error e

end Node

end FlowGraph
