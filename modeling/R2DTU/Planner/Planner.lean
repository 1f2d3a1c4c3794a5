import R2DTU.Planner.BisimulationDecision
import R2DTU.Planner.Graph

/-!
# The planner

`findPolicy` is the search loop: take the oldest node off the frontier; a goal node is marked solved
and the mark propagated; any other node is expanded with every action that applies, and marked dead
when there is none. The loop has no bound of its own, so the model has one: `findPolicy … fuel` is
`none` when the loop goes round `fuel` times without returning, and a call returns when some fuel
gives a policy.

`extractPolicy` walks the solved part of the graph with a stack, taking the first solved child of an
Or node and all solved children of an And node.

`problem` states the planning task itself, without a graph: which states are goals, and which lists
of outcomes the applicable actions have. `Solvable` is `AndOr.Problem.Solvable` of it.
-/

namespace Del

/-! ### Policies -/

/-- `Policy`: whether a strategy was found, and its states with the actions to take there. -/
structure Policy where
  /-- Whether a strategy was found. -/
  solved : Bool
  /-- Its states with the actions to take there; the first one that fits is taken. -/
  policy : List (State × Action)
  deriving DecidableEq

namespace Policy

/-- `is_solved`: whether a strategy was found. -/
def isSolved (p : Policy) : Bool := p.solved

/-- `add_policy_entry`: one more state with its action, at the end. -/
def addPolicyEntry (p : Policy) (state : State) (action : Action) : Policy :=
  { p with policy := p.policy ++ [(state, action)] }

/-- `get_action`: the action of the first entry whose state is bisimilar to the given one. -/
def getAction (order : HashOrder) (p : Policy) (state : State) : Action × Bool :=
  match p.policy.find? fun entry ↦ areStatesBisimilar order entry.1 state with
  | some entry => (entry.2, true)
  | none => (Action.new 0 0, false)

end Policy

/-! ### Extraction -/

/-- The children pushed for a node: all solved ones at an And node, the first one at an Or node. -/
def planChildren (g : Graph) (nodeId : ℕ) : List ℕ :=
  let solvedChildren := (g.getNode nodeId).children.filter fun c ↦ (g.getNode c).solved
  match (g.getNode nodeId).type with
  | .or => solvedChildren.take 1
  | .and => solvedChildren

/-- The entry added when a node is popped. -/
def addEntryFor (g : Graph) (policy : Policy) (nodeId : ℕ) : Policy :=
  match (g.getNode nodeId).type with
  | .and => policy.addPolicyEntry (g.getNode (g.getNode nodeId).parent).state
      (g.getNode nodeId).actionFromParent
  | .or => policy

/-- One round of `extract_policy`. The stack has its top first. -/
def extractStep (g : Graph) (st : List ℕ × Policy) : (List ℕ × Policy) ⊕ Policy :=
  match st.1 with
  | [] => Sum.inr st.2
  | current :: rest =>
    Sum.inl ((planChildren g current).reverse ++ rest, addEntryFor g st.2 current)

/-- `extract_policy`. Every round replaces a node by younger ones, so that `2 ^ n` rounds are enough
for `n` nodes. -/
def extractPolicy (g : Graph) : Option Policy :=
  BoundedLoop.run (extractStep g) (2 ^ g.nodes.length + 1) ([g.root], ⟨true, []⟩)

/-! ### The search loop -/

/-- `is_goal_node`: the goal holds in the state of the node. -/
def isGoalNode (node : Node) (goalFormula : BuiltFormula) : Bool := node.valuate goalFormula

/-- `is_valid_state`: some world is left, and some designated one. -/
def isValidState (s : State) : Bool := s.worlds.length > 0 && s.designatedWorlds.length > 0

/-- The product update of an action in a state, when the action applies and leaves a valid state. -/
def applyAction (order : HashOrder) (s : State) (a : Action) : Option State :=
  let tempPerspectiveShift := performPerspectiveShift order s a.owner
  if isActionApplicable tempPerspectiveShift a then
    let tempProductUpdate := performProductUpdate tempPerspectiveShift a
    if isValidState tempProductUpdate then some tempProductUpdate else none
  else none

/-- One Or node of an action: created below the action's And node and put on the frontier. -/
def addGlobalState (actionNode : ℕ) (g : Graph) (state : State) : Graph :=
  (g.createOrNode state actionNode).1.addToFrontier (g.createOrNode state actionNode).2
    (g.snd_createOrNode_lt state actionNode)

/-- The body of the loop over the library. The flag is `found_applicable_action`. -/
def expandAction (order : HashOrder) (current : ℕ) (st : Graph × Bool) (a : Action) :
    Graph × Bool :=
  match applyAction order (st.1.getNode current).state a with
  | none => st
  | some product =>
    let (g, actionNode) := st.1.createAndNode product current a
    ((splitIntoGlobalStates product a.owner).foldl (addGlobalState actionNode) g, true)

/-- One round of `find_policy`. A result of `none` would be a propagation or an extraction that does
not end. -/
def findPolicyStep (order : HashOrder) (goalFormula : BuiltFormula) (library : ActionLibrary)
    (g : Graph) : Graph ⊕ Option Policy :=
  match g.frontier with
  | [] => Sum.inr (some ⟨false, []⟩)
  | front :: rest =>
    let currentNode := (g.getNode front).id
    let g := { g with frontier := rest }
    if isGoalNode (g.getNode currentNode) goalFormula then
      match g.propogateSolvedNode currentNode with
      | none => Sum.inr none
      | some g => if g.getRootNode.solved then Sum.inr (extractPolicy g) else Sum.inl g
    else
      let (g, foundApplicableAction) :=
        library.actions.foldl (expandAction order currentNode) (g, false)
      if foundApplicableAction then Sum.inl g
      else
        match g.propogateDeadEndNode currentNode with
        | none => Sum.inr none
        | some g => if g.getRootNode.dead then Sum.inr (some ⟨false, []⟩) else Sum.inl g

/-- The graph the loop starts from. -/
def initialGraph (initialState : State) : Graph :=
  (Graph.empty.createRootNode initialState).1.addToFrontier
    (Graph.empty.createRootNode initialState).2
    (Graph.empty.snd_createRootNode_lt initialState)

/-- `find_policy` with at most `fuel` rounds. -/
def findPolicy (order : HashOrder) (goalFormula : BuiltFormula) (library : ActionLibrary)
    (initialState : State) (fuel : ℕ) : Option Policy :=
  (BoundedLoop.run (findPolicyStep order goalFormula library) fuel (initialGraph initialState)).join

/-! ### The planning task -/

/-- The task of `find_policy`: a state is a goal when it satisfies the formula, and a move is an
action of the library that applies after the shift to its owner's perspective and leaves a valid
state there; its outcomes are the global states of that state. -/
def problem (order : HashOrder) (goalFormula : BuiltFormula) (library : ActionLibrary) :
    AndOr.Problem State where
  goal := fun s ↦ s.valuate goalFormula = true
  move := fun s outcomes ↦ ∃ a ∈ library.actions,
    isActionApplicable (performPerspectiveShift order s a.owner) a = true ∧
      isValidState (performProductUpdate (performPerspectiveShift order s a.owner) a) = true ∧
      outcomes = splitIntoGlobalStates
        (performProductUpdate (performPerspectiveShift order s a.owner) a) a.owner

/-- A state from which some strategy reaches the goal on all outcomes. -/
def Solvable (order : HashOrder) (goalFormula : BuiltFormula) (library : ActionLibrary) :
    State → Prop :=
  (problem order goalFormula library).Solvable

end Del
