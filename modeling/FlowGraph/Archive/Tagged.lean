import FlowGraph.Archive.Value

/-! Stored values: a kind and a content. A reader meets content that precedes its kind before it can
tell what to make of it, so it holds such content back. Parts that were held back are read by
slightly different rules than parts that are met in their turn. -/
namespace FlowGraph.Archive

/-- Where the parts of a stored value stand: in a list, or under their names in either order. -/
inductive Arrangement
  | listed
  | kindFirst
  | contentFirst
deriving DecidableEq

/-- A stored value taken apart. The `others` are entries that have no meaning. -/
structure Tagged (α : Type) where
  arrangement : Arrangement
  kind : α
  content : α
  others : List α

/-- What an entry of a stored value is. -/
inductive Field
  | kind
  | content
  | other
deriving DecidableEq

def Field.ofName (name : String) : Field :=
  if name = "type" then kind else if name = "value" then content else other

/-- The parts under their names. There is one kind and one content. -/
def Tagged.ofEntries? {α : Type} (entries : List (Field × α)) : Option (Tagged α) :=
  let others := (entries.filter fun (field, _) => field = .other).map Prod.snd
  match entries.filter fun (field, _) => field ≠ .other with
  | [(.kind, kind), (.content, content)] => some ⟨.kindFirst, kind, content, others⟩
  | [(.content, content), (.kind, kind)] => some ⟨.contentFirst, kind, content, others⟩
  | _ => none

def Tagged.ofList? {α : Type} : List α → Option (Tagged α)
  | [kind, content] => some ⟨.listed, kind, content, []⟩
  | _ => none

def Tagged.contentFirst {α : Type} (t : Tagged α) : Bool := t.arrangement = .contentFirst

end FlowGraph.Archive
