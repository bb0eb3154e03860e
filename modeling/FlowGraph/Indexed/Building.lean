import FlowGraph.Indexed.Basic

/-! Models with an index that are built from another model, or from an archive. -/
namespace FlowGraph

namespace Indexed

/-- What a pass knows while it builds a model. -/
structure Context where
  destination : Indexed := {}
  mapping : List (OutletRef × Selection) := []
  visited : List NodeId := []

namespace Context

/-- The elements of the destination for those of the source. It takes no look at the destination
itself to tell which they are. -/
def relocate (c : Context) (e : Selection) : Except GraphError Selection :=
  Transformer.relocate ⟨some { mapping := c.mapping, visited := c.visited }⟩ e

def add (c : Context) (s : Slot) : Except GraphError Context := do
  return { c with destination := ← c.destination.add s }

def checkTarget (c : Context) (old : Slot) (s : Span) : Except GraphError Unit := do
  let o ← c.destination.target s.source
  if o.type ≠ old.type then throw (.typeMismatch old.address.text old.type o.type)

/-- Records where the elements of a node of the source are now. -/
def map (c : Context) (old : Slot) (e : Selection) : Except GraphError Context := do
  if old.size ≠ e.size then throw (.sizeMismatch old.address.text old.size e.size)
  e.spans.forM (c.checkTarget old)
  return { c with mapping := (old.address, e) :: c.mapping }

/-- Makes a node, adds it and maps the outlet of `old` onto the whole of its own. -/
def substitute (c : Context) (old : Slot) (r : Recipe) : Drawing Context := do
  let id ← Drawing.drawId
  Drawing.ofExcept do
    let new ← Slot.make id r
    (← c.add new).map old new.all

end Context

def constantSpan? (g : Indexed) (t : ElementType) (s : Span) : Option (List t.Value) := do
  let o ← g.slot? s.source.node
  let values ← o.constants? t
  valuesBetween? values s.start.toNat s.stop

def constants? (g : Indexed) (t : ElementType) (e : Selection) : Option (List t.Value) := do
  return (← e.spans.mapM (g.constantSpan? t)).flatten

def folded? (g : Indexed) (t : ElementType) (op : Operation) (left right : Selection) :
    Option (List t.Value) := do
  let xs ← g.constants? t left
  let ys ← g.constants? t right
  (xs.zip ys).mapM fun (x, y) => op.apply t x y

end Indexed

namespace Slot

/-- What the copy of a node is made from. -/
def recipe (s : Slot) (c : Indexed.Context) : Except GraphError Recipe :=
  match s.body with
  | .input _ => .ok (.input s.type s.size)
  | .constant values => .ok (.constant s.type values)
  | .output source => do return .output s.type (← c.relocate source)
  | .operation numeric op left right => do
    return .operation s.type numeric op (← c.relocate left) (← c.relocate right)

def copy (s : Slot) (c : Indexed.Context) : Drawing Indexed.Context := do
  c.substitute s (← Drawing.ofExcept (s.recipe c))

def fold (s : Slot) (c : Indexed.Context) : Drawing Indexed.Context := do
  match s.body with
  | .operation _ op left right =>
    let left ← Drawing.ofExcept (c.relocate left)
    let right ← Drawing.ofExcept (c.relocate right)
    match c.destination.folded? s.type op left right with
    | some values => c.substitute s (.constant s.type values)
    | none => s.copy c
  | _ => s.copy c

end Slot

namespace Indexed

/-- Visits nodes one after the other, up to the first failure. -/
def visitAll (visitor : Slot → Context → Drawing Context) (source : Indexed) :
    List NodeId → Context → Drawing Context
  | [], c => return c
  | id :: rest, c => do
    let c ← visitor (← Drawing.ofExcept (source.slot id)) c
    visitAll visitor source rest { c with visited := id :: c.visited }

/-- Visits every node in the order of the model, and checks what was built. -/
def rebuild (source : Indexed) (visitor : Slot → Context → Drawing Context) : Drawing Indexed := do
  let c ← visitAll visitor source (← Drawing.ofExcept source.order) {}
  Drawing.ofExcept c.destination.validate
  return c.destination

def prune (g : Indexed) : Drawing Indexed := do
  let live ← Drawing.ofExcept (do g.ancestors (← g.outputs))
  g.rebuild fun s c => if live.contains s.id then s.copy c else return c

def pass (p : Pass) (g : Indexed) : Drawing Indexed :=
  match p with
  | .identity => g.rebuild Slot.copy
  | .prune => g.prune
  | .foldConstants => g.rebuild Slot.fold

/-- Makes a node without elements. -/
def create (r : Registry) (name : String) : Drawing Slot :=
  match r.entries.lookup name with
  | some type => do return .blank (← Drawing.drawId) type
  | none => throw (.unknownNodeType name)

/-- Reads the entry at `index`: its stored id and its node, under a fresh id. -/
def loadEntry (r : Registry) (index : Nat) (entry : Archive) : Drawing (UInt64 × Slot) := do
  let inEntry {α : Type} (result : Except Archive.Error α) : Drawing α :=
    Registry.ofArchive (Archive.within (Archive.itemName "nodes" index) result)
  let name ← inEntry (entry.read Archive.Value.asString "type")
  let stored ← inEntry (entry.read Archive.Value.asUInt64 "id")
  let blank ← create r name
  let s ← inEntry (entry.readObject "state" blank.restored)
  return (stored, s)

def loadEntries (r : Registry) (index : Nat) (known : List UInt64) :
    List Archive → Drawing (List (UInt64 × Slot))
  | [] => return []
  | entry :: rest => do
    let (stored, s) ← loadEntry r index entry
    if known.contains stored then throw (.duplicateNode ⟨stored⟩)
    return (stored, s) :: (← loadEntries r (index + 1) (stored :: known) rest)

/-- Renames the selections of a node from stored ids to those of the nodes. -/
def resolve (entries : List (UInt64 × Slot)) (s : Slot) : Except GraphError Slot := do
  let nodes := entries.map fun (stored, s) => (stored, s.toNode)
  return { s with toNode := ← Registry.resolve nodes s.toNode }

/-- Puts nodes into a model and checks it as a whole. -/
def assemble (slots : List Slot) : Except GraphError Indexed := do
  let g ← slots.foldlM addUnchecked {}
  g.validate
  return g

def load (r : Registry) (a : Archive) : Drawing Indexed := do
  let version ← Registry.ofArchive (a.read Archive.Value.asUInt64 "format_version")
  if version ≠ storedVersion then
    throw (.archive (.unsupportedVersion version storedVersion))
  let entries ← loadEntries r 0 [] (← Registry.ofArchive (a.objects "nodes"))
  let slots ← Drawing.ofExcept (entries.mapM fun (_, s) => resolve entries s)
  Drawing.ofExcept (assemble slots)

end Indexed

end FlowGraph
