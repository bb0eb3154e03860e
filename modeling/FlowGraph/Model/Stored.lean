import FlowGraph.Graph.Stored
import FlowGraph.Model.Order
import FlowGraph.Model.Registry

/-! Models as archives. The ids in an archive are only keys: a node that is read gets a fresh id,
and all selections are renamed when every node is there. -/
namespace FlowGraph

/-- The version of the layout of stored models. -/
def storedVersion : UInt64 := 1

def Node.toEntry (n : Node) : Archive :=
  .ofList [("type", .string n.nodeType.name), ("id", .uint n.id.value),
    ("state", n.toArchive.toValue)]

/-- The nodes of a model in the order in which they were added. -/
def Model.toArchive (m : Model) : Archive :=
  .ofList [("format_version", .uint storedVersion),
    ("nodes", .ofList (Archive.toValue ∘ Node.toEntry) m.nodes)]

namespace Registry

def ofArchive {α : Type} (result : Except Archive.Error α) : Drawing α :=
  Drawing.ofExcept (result.mapError .archive)

/-- Reads the entry at `index`: its stored id and its node, under a fresh id. -/
def loadEntry (r : Registry) (index : Nat) (entry : Archive) : Drawing (UInt64 × Node) := do
  let inEntry {α : Type} (result : Except Archive.Error α) : Drawing α :=
    ofArchive (Archive.within (Archive.itemName "nodes" index) result)
  let name ← inEntry (entry.read Archive.Value.asString "type")
  let stored ← inEntry (entry.read Archive.Value.asUInt64 "id")
  let blank ← r.create name
  let node ← inEntry (entry.readObject "state" blank.restored)
  return (stored, node)

/-- Reads entries from `index` on, after entries with the stored ids `known`. -/
def loadEntries (r : Registry) (index : Nat) (known : List UInt64) :
    List Archive → Drawing (List (UInt64 × Node))
  | [] => return []
  | entry :: rest => do
    let (stored, node) ← r.loadEntry index entry
    -- found out only now: the fresh id is drawn, and an error inside the entry comes first
    if known.contains stored then throw (.duplicateNode ⟨stored⟩)
    return (stored, node) :: (← loadEntries r (index + 1) (stored :: known) rest)

/-- Renames the selections of a node from stored ids to those of the nodes. -/
def resolve (entries : List (UInt64 × Node)) (n : Node) : Except GraphError Node :=
  let rename (id : NodeId) : Option NodeId := (entries.lookup id.value).map Node.id
  (n.renameInlets rename).mapError fun (name, address) =>
    .danglingReference address ("referenced by input '" ++ name ++ "' of " ++ n.id.text ++
      ", no node with that id in the archive")

/-- Puts nodes into a model and checks it as a whole. -/
def assemble (nodes : List Node) : Except GraphError Model := do
  let m ← nodes.foldlM Model.addUnchecked .empty
  m.validate
  return m

/-- Reads a model. -/
def load (r : Registry) (a : Archive) : Drawing Model := do
  let version ← ofArchive (a.read Archive.Value.asUInt64 "format_version")
  if version ≠ storedVersion then
    throw (.archive (.unsupportedVersion version storedVersion))
  let entries ← r.loadEntries 0 [] (← ofArchive (a.objects "nodes"))
  -- a node may read from one in a later entry, so no selection is renamed before all are read
  let nodes ← Drawing.ofExcept (entries.mapM fun (_, n) => resolve entries n)
  Drawing.ofExcept (assemble nodes)

end Registry

end FlowGraph
