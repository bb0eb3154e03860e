import FlowGraph.Archive.Reading

namespace FlowGraph

/-- The identity of a node. -/
structure NodeId where
  value : UInt64
deriving DecidableEq, Repr, Inhabited

def NodeId.text (id : NodeId) : String := "node#" ++ toString id.value.toNat

/-- Where new ids come from: how many were handed out. Ids start at one, and at zero again after the
greatest of them. -/
structure Supply where
  drawn : Nat := 0
deriving Repr, Inhabited

def Supply.draw (s : Supply) : NodeId × Supply := (⟨UInt64.ofNat (s.drawn + 1)⟩, ⟨s.drawn + 1⟩)

/-- The address of an outlet: its node, and its name there. -/
structure OutletRef where
  node : NodeId
  name : String
deriving DecidableEq, Repr, Inhabited

def OutletRef.text (r : OutletRef) : String := r.node.text ++ "." ++ r.name

/-- The greatest size. Sums of sizes stop there, so that a span that cannot exist still ends past
every outlet. -/
def sizeLimit : Nat := UInt64.size - 1

/-- A run of elements of one outlet. -/
structure Span where
  source : OutletRef
  start : UInt64
  count : UInt64
deriving DecidableEq, Repr, Inhabited

namespace Span

/-- One past the last element. -/
def stop (s : Span) : Nat := min (s.start.toNat + s.count.toNat) sizeLimit

def text (s : Span) : String :=
  s.source.text ++ "[" ++ toString s.start.toNat ++ ".." ++ toString s.stop ++ "]"

/-- One span for two, if the second goes on where the first stops. -/
def join? (s next : Span) : Option Span :=
  if s.source = next.source ∧ s.stop = next.start.toNat ∧
      s.count.toNat + next.count.toNat ≤ sizeLimit then
    some { s with count := s.count + next.count }
  else none

def toArchive (s : Span) : Archive :=
  .ofList [("node", .uint s.source.node.value), ("port", .string s.source.name),
    ("start", .uint s.start), ("count", .uint s.count)]

def ofArchive (a : Archive) : Except Archive.Error Span := do
  let node ← a.read Archive.Value.asUInt64 "node"
  let name ← a.read Archive.Value.asString "port"
  let start ← a.read Archive.Value.asSize "start"
  let count ← a.read Archive.Value.asSize "count"
  if sizeLimit < start.toNat + count.toNat then
    throw (.outOfRange "element range"
      (toString start.toNat ++ " + " ++ toString count.toNat))
  return ⟨⟨⟨node⟩, name⟩, start, count⟩

end Span

end FlowGraph
