import FlowGraph.Text.CaseTable

namespace FlowGraph.Text

/-- The lowercase letter of `c`, or `c` itself. -/
def lowercaseChar (c : Char) : Char :=
  let point := c.toNat
  if point < 0x80 then c.toLower
  else
    match lowercaseRuns.find? fun run =>
        run.first ≤ point && point ≤ run.last && (point - run.first) % run.stride = 0 with
    | some run => Char.ofNat (run.lower + (point - run.first))
    | none => c

def inRanges (ranges : List (Nat × Nat)) (c : Char) : Bool :=
  ranges.any fun range => range.1 ≤ c.toNat && c.toNat ≤ range.2

/-- Whether the first character that case rules do not skip is a letter with case. -/
def startsCased (text : List Char) : Bool :=
  match text.dropWhile (inRanges caseIgnorableRanges) with
  | c :: _ => inRanges casedRanges c
  | [] => false

/-- Lowercases `text`, where `before` holds what precedes it, nearest character first. A capital
sigma at the end of a word has a form of its own, and a dotted capital I keeps its dot. -/
def lowercaseAfter (before : List Char) : List Char → List Char
  | [] => []
  | c :: rest =>
    let lower :=
      if c = 'Σ' then if startsCased before && !startsCased rest then ['ς'] else ['σ']
      else if c = 'İ' then ['i', '\u0307']
      else [lowercaseChar c]
    lower ++ lowercaseAfter (c :: before) rest

def lowercase (text : String) : String :=
  String.ofList (lowercaseAfter [] text.toList)

end FlowGraph.Text
