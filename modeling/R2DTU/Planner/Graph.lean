import R2DTU.Library.AndOr
import R2DTU.Library.BoundedLoop
import R2DTU.Planner.Action
import R2DTU.Planner.State

/-!
# The search graph

`Graph` is a vector of nodes that refer to their parent and children by index, and a frontier of
nodes still to be expanded. Or nodes carry global states; And nodes carry the state an action has
produced before it is split.

The two verdicts of a node, `solved` and `dead`, are tested and propagated by two families of
functions that differ in the flag they read and in which node type asks for all children. They are
written once over `AndOr.Mark`, and each source function is an instance.

`Graph::root` is never assigned by the source and is read as node 0, the first node created.
-/

namespace Del

open AndOr (Mark)

/-- `Node_Type`: an `or` node is a state in which an action is to be chosen; an `and` node is a
product update, whose global states all have to be solved. -/
inductive NodeType
  | or
  | and
  deriving DecidableEq

/-- `Node`: a state with its place in the tree and what is known of it: whether no strategy is left
(`dead`) or one has been found (`solved`). `action_from_parent` is the action that led to it. -/
structure Node where
  type : NodeType
  /-- The state before an action, or the product update of the action. -/
  state : State
  id : ℕ
  parent : ℕ
  /-- The action that led to it, which is read of And nodes. -/
  actionFromParent : Action
  /-- Whether it is the node of the initial state. -/
  root : Bool
  /-- No strategy starts here. -/
  dead : Bool
  /-- A strategy starts here. -/
  solved : Bool
  /-- The ids of the nodes below it, in the order of their creation. -/
  children : List ℕ
  deriving DecidableEq

namespace Node

/-- The constructor of Or nodes. Its action is a dummy. -/
def ofOr (state : State) (id parent : ℕ) (root : Bool) : Node :=
  ⟨.or, state, id, parent, Action.new 0 0, root, false, false, []⟩

/-- The constructor of And nodes. -/
def ofAnd (state : State) (id parent : ℕ) (actionFromParent : Action) (root : Bool) : Node :=
  ⟨.and, state, id, parent, actionFromParent, root, false, false, []⟩

def addChild (n : Node) (child : ℕ) : Node := { n with children := n.children ++ [child] }

/-- `is_dead` and `is_solved`. -/
def isMarked (n : Node) : Mark → Bool
  | .dead => n.dead
  | .solved => n.solved

/-- `set_dead` and `set_solved`. -/
def setMark (n : Node) : Mark → Node
  | .dead => { n with dead := true }
  | .solved => { n with solved := true }

def valuate (n : Node) (formula : BuiltFormula) : Bool := n.state.valuate formula

/-- A mark that all children have to carry: `solved` at And nodes and `dead` at Or nodes. -/
def needsAll (n : Node) : Mark → Bool
  | .dead => n.type = .or
  | .solved => n.type = .and

end Node

/-- `Graph`: the tree of the search, by the ids of its nodes, and the nodes that wait to be
expanded. -/
structure Graph where
  /-- The id of the initial node. -/
  root : ℕ
  /-- The Or nodes that are still to be expanded, the next one first. -/
  frontier : List ℕ
  /-- All nodes, each at the place of its id. -/
  nodes : List Node

namespace Graph

/-- The constructor: no nodes. -/
def empty : Graph := ⟨0, [], []⟩

/-- What is read outside the vector. -/
def outside : Node := Node.ofOr ⟨0, [], [], []⟩ 0 0 false

/-- `get_node`: the node with an id. -/
def getNode (g : Graph) (nodeId : ℕ) : Node := g.nodes.getD nodeId outside

/-- `get_root_node`: the node of the initial state. -/
def getRootNode (g : Graph) : Node := g.getNode g.root

/-- Change one node in place. -/
def modifyNode (g : Graph) (nodeId : ℕ) (f : Node → Node) : Graph :=
  { g with nodes := g.nodes.modify nodeId f }

/-- `create_or_node`: the new node and its entry in the parent's list of children. -/
def createOrNode (g : Graph) (state : State) (parent : ℕ) : Graph × ℕ :=
  let nodeId := g.nodes.length
  (modifyNode { g with nodes := g.nodes ++ [Node.ofOr state nodeId parent false] } parent
    (·.addChild nodeId), nodeId)

/-- `create_and_node`: a node for the outcome of an action, below the node the action is taken
at. -/
def createAndNode (g : Graph) (state : State) (parent : ℕ) (actionFromParent : Action) :
    Graph × ℕ :=
  let nodeId := g.nodes.length
  (modifyNode { g with nodes := g.nodes ++ [Node.ofAnd state nodeId parent actionFromParent false] }
    parent (·.addChild nodeId), nodeId)

/-- `create_root_node`: a node for the initial state, whose parent is never asked for. -/
def createRootNode (g : Graph) (state : State) : Graph × ℕ :=
  let nodeId := g.nodes.length
  ({ g with nodes := g.nodes ++ [Node.ofOr state nodeId 0 true] }, nodeId)

/-- `add_to_frontier`. The source throws on an id outside the vector; every call passes the id of a
node just created, which is the hypothesis here. -/
def addToFrontier (g : Graph) (nodeId : ℕ) (_h : nodeId < g.nodes.length) : Graph :=
  { g with frontier := g.frontier ++ [nodeId] }

theorem snd_createOrNode_lt (g : Graph) (state : State) (parent : ℕ) :
    (g.createOrNode state parent).2 < (g.createOrNode state parent).1.nodes.length := by
  simp [createOrNode, modifyNode]

theorem snd_createRootNode_lt (g : Graph) (state : State) :
    (g.createRootNode state).2 < (g.createRootNode state).1.nodes.length := by
  simp [createRootNode]

/-! ### Verdicts -/

/-- `check_if_dead` and `check_if_solved`: a node that has the mark keeps it, a node with the
opposite mark is left alone, and otherwise the children decide. The graph returned has the mark set
when the answer is `true`. -/
def checkIf (m : Mark) (g : Graph) (nodeId : ℕ) : Bool × Graph :=
  let node := g.getNode nodeId
  if node.isMarked m then (true, g)
  else if node.isMarked m.other then (false, g)
  else
    let due :=
      if node.needsAll m then node.children.all fun c ↦ (g.getNode c).isMarked m
      else node.children.any fun c ↦ (g.getNode c).isMarked m
    if due then (true, g.modifyNode nodeId (·.setMark m)) else (false, g)

def checkIfDead : Graph → ℕ → Bool × Graph := checkIf .dead

def checkIfSolved : Graph → ℕ → Bool × Graph := checkIf .solved

/-- One round of the loop that climbs from a node to its parent. -/
def propogateStep (m : Mark) (st : Graph × ℕ) : (Graph × ℕ) ⊕ Graph :=
  let (holds, g) := checkIf m st.1 st.2
  if holds then
    if (g.getNode st.2).root then Sum.inr g else Sum.inl (g, (g.getNode st.2).parent)
  else Sum.inr g

/-- `propogate_dead_end_node` and `propogate_solved_node`: set the mark on the node and climb. -/
def propogate (m : Mark) (g : Graph) (nodeId : ℕ) : Option Graph :=
  let g := g.modifyNode nodeId (·.setMark m)
  if (g.getNode nodeId).root then some g
  else BoundedLoop.run (propogateStep m) (g.nodes.length + 1) (g, (g.getNode nodeId).parent)

def propogateDeadEndNode : Graph → ℕ → Option Graph := propogate .dead

def propogateSolvedNode : Graph → ℕ → Option Graph := propogate .solved

end Graph

end Del
