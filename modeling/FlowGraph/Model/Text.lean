import FlowGraph.Model.Order

namespace FlowGraph.Model

def summary (m : Model) : String :=
  "Model: " ++ toString m.size ++ " nodes, " ++ toString (m.nodes.countP Node.isInput) ++
    " inputs, " ++ toString (m.nodes.countP Node.isOutput) ++ " outputs"

/-- The nodes in the order of the model, or as they were added if they have none. -/
def listed (m : Model) : List Node :=
  match m.order with
  | .ok ids => ids.filterMap m.node?
  | .error _ => m.nodes

def text (m : Model) : String :=
  m.summary ++ "\n" ++ String.join (m.listed.map fun n => "  " ++ n.summary ++ "\n")

/-- The model on one line, its nodes as they were added. -/
def inline (m : Model) : String :=
  let nodes := m.nodes.map fun n => "\"" ++ n.summary ++ "\""
  "Model \x7b nodes: [" ++ ", ".intercalate nodes ++ "] \x7d"

end FlowGraph.Model
