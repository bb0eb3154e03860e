import FlowGraph.Graph.Span

namespace FlowGraph

/-- The elements that an inlet reads, in order. -/
structure Selection where
  spans : List Span := []
deriving DecidableEq, Repr, Inhabited

namespace Selection

def empty : Selection := ⟨[]⟩

def single (s : Span) : Selection := ⟨[s]⟩

/-- The number of elements, as far as sizes go. -/
def size (e : Selection) : Nat :=
  e.spans.foldl (fun total s => min (total + s.count.toNat) sizeLimit) 0

def isEmpty (e : Selection) : Bool := e.spans.isEmpty

def pushSpan (new : Span) : List Span → List Span
  | [] => [new]
  | [last] =>
    match last.join? new with
    | some joined => [joined]
    | none => [last, new]
  | s :: rest => s :: pushSpan new rest

/-- Appends a span, as a part of the last one if it goes on where that stops. -/
def push (e : Selection) (s : Span) : Selection := ⟨pushSpan s e.spans⟩

def append (e other : Selection) : Selection := other.spans.foldl push e

def ofSpans (spans : List Span) : Selection := spans.foldl push empty

/-- What is left of the spans after `skip` elements, `remaining` elements at most. -/
def cut (skip remaining : Nat) : List Span → List Span
  | [] => []
  | s :: rest =>
    if remaining = 0 then []
    -- the span ends before the part begins
    else if s.count.toNat ≤ skip then cut (skip - s.count.toNat) remaining rest
    else
      -- the next spans follow on, so nothing is skipped in them any more
      let taken := min (s.count.toNat - skip) remaining
      ⟨s.source, s.start + UInt64.ofNat skip, UInt64.ofNat taken⟩ ::
        cut 0 (remaining - taken) rest

/-- `count` elements from `start` on, unless that reaches past the end. -/
def slice? (e : Selection) (start count : Nat) : Option Selection :=
  if e.size < start + count then none else some (ofSpans (cut start count e.spans))

/-- The nodes read from, each once, in the order of their first span. -/
def nodes (e : Selection) : List NodeId := (e.spans.map (·.source.node)).eraseDups

def renameSpans (rename : NodeId → Option NodeId) : List Span → Except OutletRef Unit × List Span
  | [] => (.ok (), [])
  | s :: rest =>
    match rename s.source.node with
    | some id =>
      let (result, renamed) := renameSpans rename rest
      (result, { s with source := { s.source with node := id } } :: renamed)
    | none => (.error s.source, s :: rest)

/-- Renames the nodes span by span. The first address that cannot be renamed is the error; the spans
before it stay renamed. -/
def rename (e : Selection) (rename : NodeId → Option NodeId) : Except OutletRef Unit × Selection :=
  let (result, spans) := renameSpans rename e.spans
  (result, ⟨spans⟩)

/-- The selection of the inlet `name` with its nodes renamed. -/
def renamed (e : Selection) (rename : NodeId → Option NodeId) (name : String) :
    Except (String × OutletRef) Selection :=
  match e.rename rename with
  | (.ok (), e) => .ok e
  | (.error address, _) => .error (name, address)

def text (e : Selection) : String := "[" ++ ", ".intercalate (e.spans.map Span.text) ++ "]"

def toArchive (e : Selection) : Archive :=
  .ofList [("ranges", .ofList (Archive.toValue ∘ Span.toArchive) e.spans)]

/-- Reads spans from the item `index` on, after spans with `total` elements. -/
def spansOfArchive (index total : Nat) : List Archive → Except Archive.Error (List Span)
  | [] => .ok []
  | item :: rest => do
    let s ← Archive.within (Archive.itemName "ranges" index) (Span.ofArchive item)
    if sizeLimit < total + s.count.toNat then
      throw (.outOfRange "element count" (toString total ++ " + " ++ toString s.count.toNat))
    return s :: (← spansOfArchive (index + 1) (total + s.count.toNat) rest)

/-- The spans are kept as they are stored; only building a selection joins them. -/
def ofArchive (a : Archive) : Except Archive.Error Selection := do
  return ⟨← spansOfArchive 0 0 (← a.objects "ranges")⟩

end Selection

end FlowGraph
