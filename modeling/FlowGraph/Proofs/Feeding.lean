import FlowGraph.Proofs.Reachable

/-! Giving values to all input nodes of a model at once. -/
namespace FlowGraph

/-- Values for nodes, as many as there are element types for each. -/
abbrev Feed := NodeId → (t : ElementType) → List t.Value

/-- The node with its values from `feed`, if it is an input node. -/
def Node.feed (feed : Feed) (n : Node) : Node :=
  match n.body with
  | .input _ => { n with body := .input (feed n.id n.type) }
  | _ => n

def Model.feed (feed : Feed) (m : Model) : Model := m.mapNodes (Node.feed feed)

/-- Every input node gets as many values as it has elements. -/
def Model.Accepts (m : Model) (feed : Feed) : Prop :=
  ∀ n ∈ m.nodes, n.isInput = true → (feed n.id n.type).length = n.size

/-- Feeding a node is setting its values. -/
theorem Node.setInput_eq_feed {feed : Feed} {n : Node} (hinput : n.isInput = true)
    (hlength : (feed n.id n.type).length = n.size) :
    n.setInput (feed n.id n.type) = .ok (n.feed feed) := by
  rcases n with ⟨id, t, body, buffer⟩
  cases body with
  | input values => exact if_pos hlength
  | _ => cases hinput

theorem Node.sameShape_feed (feed : Feed) (n : Node) : n.SameShape (n.feed feed) := by
  rcases n with ⟨id, t, body, buffer⟩
  cases body <;> exact ⟨rfl, rfl, rfl, rfl⟩

theorem Node.feed_of_isInput_eq_false {feed : Feed} {n : Node} (h : n.isInput = false) :
    n.feed feed = n := by
  rcases n with ⟨id, t, body, buffer⟩
  cases body with
  | input values => cases h
  | _ => rfl

/-- Only what an input node is fed matters. -/
theorem Node.feed_congr {feed other : Feed} {n : Node}
    (h : n.isInput = true → other n.id n.type = feed n.id n.type) : n.feed other = n.feed feed := by
  rcases n with ⟨id, t, body, buffer⟩
  cases body with
  | input values =>
    have hsame : other id t = feed id t := h rfl
    rw [Node.feed, Node.feed, hsame]
  | _ => rfl

/-- Feeding a node what it holds changes nothing. -/
theorem Node.feed_of_unset {n : Node} {f : Feed}
    (h : ∀ values, n.body = .input values → values = f n.id n.type) : n.feed f = n := by
  rcases n with ⟨id, t, body, buffer⟩
  cases body with
  | input values =>
    have hvalues : values = f id t := h values rfl
    rw [feed, hvalues]
  | _ => rfl

theorem Node.isInput_feed (feed : Feed) (n : Node) : (n.feed feed).isInput = n.isInput := by
  rcases n with ⟨id, t, body, buffer⟩
  cases body <;> rfl

/-- The values that the input nodes hold. -/
def Model.held (m : Model) : Feed :=
  fun id t => ((m.node? id).bind fun n => n.inputs? t).getD []

namespace Model

variable {m : Model} {feed : Feed}

theorem held_of_mem (hd : m.ids.Nodup) {n : Node} (hn : n ∈ m.nodes) {values : List n.type.Value}
    (hbody : n.body = .input values) : m.held n.id n.type = values := by
  rw [held, node?_of_mem hd hn, Option.bind_some, Node.inputs?, hbody]
  simp

theorem feed_held (hd : m.ids.Nodup) : m.feed m.held = m := by
  refine congrArg Model.mk ((List.map_congr_left fun n hn => ?_).trans (List.map_id m.nodes))
  exact Node.feed_of_unset fun values hbody => (held_of_mem hd hn hbody).symm

theorem accepts_held (hm : m.WellFormed) : m.Accepts m.held := by
  intro n hn hinput
  have hsized := hm.sized n hn
  have hvalues : ∀ values, n.body = .input values → m.held n.id n.type = values :=
    fun values hbody => held_of_mem hm.distinct hn hbody
  rcases n with ⟨id, t, body, buffer⟩
  cases body with
  | input values =>
    rw [hvalues values rfl]
    exact hsized
  | _ => cases hinput

theorem Accepts.sized (h : m.Accepts feed) (hm : m.WellFormed) {n : Node} (hn : n ∈ m.nodes) :
    (n.feed feed).Sized := by
  have hsized := hm.sized n hn
  have hlength := h n hn
  rcases n with ⟨id, t, body, buffer⟩
  cases body with
  | input values => exact hlength rfl
  | constant values => exact hsized
  | output source => exact hsized
  | operation numeric op left right => exact hsized

theorem Accepts.wellFormed (h : m.Accepts feed) (hm : m.WellFormed) :
    (m.feed feed).WellFormed :=
  wellFormed_mapNodes hm (fun n _ => n.sameShape_feed feed) fun _ hn => h.sized hm hn

theorem order_feed (feed : Feed) {ids : List NodeId} (ho : m.order = .ok ids) :
    (m.feed feed).order = .ok ids :=
  order_mapNodes (fun n _ => n.sameShape_feed feed) ho

theorem allocatable_feed (feed : Feed) (ha : m.Allocatable) : (m.feed feed).Allocatable := by
  intro n' hn'
  obtain ⟨n, hn, rfl⟩ := List.mem_map.mp hn'
  rw [(n.sameShape_feed feed).size]
  exact ha n hn

theorem mem_feed {n : Node} (hn : n ∈ m.nodes) : n.feed feed ∈ (m.feed feed).nodes :=
  List.mem_map_of_mem hn

end Model

end FlowGraph
