import FlowGraph.Element.Value
import FlowGraph.Graph.Selection

namespace FlowGraph

inductive Direction
  | input
  | output
deriving DecidableEq, Repr

def Direction.text : Direction → String
  | input => "input"
  | output => "output"

/-- What can go wrong with a graph. -/
inductive GraphError
  | invalidDimension (node : NodeId) (expected actual : Nat)
  | unknownName (node : NodeId) (direction : Direction) (name : String)
  | unknownNode (node : NodeId)
  | wrongNodeKind (node : NodeId) (expected : String)
  | typeMismatch (place : String) (expected actual : ElementType)
  | sizeMismatch (place : String) (expected actual : Nat)
  | rangeOutOfBounds (target : OutletRef) (start stop size : Nat)
  | duplicateNode (node : NodeId)
  | invalidValue (node : NodeId) (cause : Unreadable)
  | arithmetic (node : NodeId) (detail : String)
  | notYetVisited (node : NodeId)
  | transformerIdle
  | transformerBusy
  | cycleDetected (nodes : List NodeId)
  | unknownNodeType (name : String)
  | danglingReference (target : OutletRef) (detail : String)
  | archive (cause : Archive.Error)
deriving DecidableEq, Repr

namespace GraphError

def mismatch (what place expected actual : String) : String :=
  what ++ " mismatch on " ++ place ++ ": expected " ++ expected ++ ", found " ++ actual

def message : GraphError → String
  | invalidDimension node expected actual =>
    node.text ++ ": expected " ++ toString expected ++ " values, got " ++ toString actual
  | unknownName node direction name =>
    node.text ++ " has no " ++ direction.text ++ " port named '" ++ name ++ "'"
  | unknownNode node => node.text ++ " is not part of the model"
  | wrongNodeKind node expected => node.text ++ " is not " ++ expected
  | typeMismatch place expected actual => mismatch "type" place expected.name actual.name
  | sizeMismatch place expected actual =>
    mismatch "size" place (toString expected ++ " elements") (toString actual)
  | rangeOutOfBounds target start stop size =>
    "elements " ++ toString start ++ ".." ++ toString stop ++ " of " ++ target.text ++
      " are out of bounds (port size " ++ toString size ++ ")"
  | duplicateNode node => "duplicate node id " ++ node.text
  | invalidValue node cause => "invalid value for " ++ node.text ++ ": " ++ cause.message
  | arithmetic node detail => "arithmetic error in " ++ node.text ++ ": " ++ detail
  | notYetVisited node => node.text ++ " has not been visited by the transformer yet"
  | transformerIdle => "model transformer is idle"
  | transformerBusy => "model transformer is already transforming a model"
  | cycleDetected nodes =>
    "model contains a dependency cycle (" ++ toString nodes.length ++ " nodes unresolved)"
  | unknownNodeType name => "unknown node type '" ++ name ++ "'"
  | danglingReference target detail =>
    "dangling reference to " ++ target.text ++ ": " ++ detail
  | archive cause => "archive error: " ++ cause.message

/-- The message of the error and of everything inside it, outermost first. -/
def chain (e : GraphError) : List String :=
  e.message ::
    match e with
    | invalidValue _ cause => [cause.message]
    | archive cause => cause.chain
    | _ => []

/-- A coarse classification. -/
inductive Category
  | contractViolation
  | orderingViolation
  | unknownNodeType
  | danglingReference
  | archive
deriving DecidableEq, Repr

def category : GraphError → Category
  | notYetVisited _ | transformerIdle | transformerBusy | cycleDetected _ => .orderingViolation
  | unknownNodeType _ => .unknownNodeType
  | danglingReference _ _ => .danglingReference
  | archive _ => .archive
  | _ => .contractViolation

end GraphError

end FlowGraph
