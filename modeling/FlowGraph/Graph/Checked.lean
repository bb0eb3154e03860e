import FlowGraph.Graph.Selection

/-! Selections put together and sliced with words for sizes. A sum or a difference that is no size
ends the operation without a result, instead of going on with another size. -/
namespace FlowGraph

def addSizes? (a b : UInt64) : Option UInt64 :=
  if a.toNat + b.toNat ≤ sizeLimit then some (a + b) else none

def subSizes? (a b : UInt64) : Option UInt64 := if b ≤ a then some (a - b) else none

/-- Neither the end of `s` nor the count of both may be cut short here. -/
def Span.joinChecked (s next : Span) : Option (Option Span) := do
  if s.source ≠ next.source then return none
  let stop ← addSizes? s.start s.count
  if stop ≠ next.start then return none
  let count ← addSizes? s.count next.count
  return some { s with count }

namespace Selection

def pushSpanChecked (new : Span) : List Span → Option (List Span)
  | [] => some [new]
  | [last] => do
    match ← last.joinChecked new with
    | some joined => return [joined]
    | none => return [last, new]
  | s :: rest => do return s :: (← pushSpanChecked new rest)

def pushChecked (e : Selection) (s : Span) : Option Selection := do
  return ⟨← pushSpanChecked s e.spans⟩

def appendChecked (e other : Selection) : Option Selection := other.spans.foldlM pushChecked e

def ofSpansChecked (spans : List Span) : Option Selection := spans.foldlM pushChecked empty

/-- Goes through the spans, and appends to `part` what follows after `skip` elements, `remaining`
elements at most. -/
def sliceFrom (skip remaining : UInt64) (part : Selection) : List Span → Option Selection
  | [] => some part
  | s :: rest => do
    if remaining = 0 then return part
    if s.count ≤ skip then
      sliceFrom (← subSizes? skip s.count) remaining part rest
    else
      let taken := min (← subSizes? s.count skip) remaining
      let start ← addSizes? s.start skip
      let remaining ← subSizes? remaining taken
      sliceFrom 0 remaining (← part.pushChecked ⟨s.source, start, taken⟩) rest

/-- A part whose end is no size reaches past the end of every selection. -/
def sliceChecked (e : Selection) (start count : UInt64) : Option (Option Selection) :=
  match addSizes? start count with
  | none => some none
  | some stop =>
    if e.size < stop.toNat then some none
    else return some (← sliceFrom start count empty e.spans)

end Selection

end FlowGraph
