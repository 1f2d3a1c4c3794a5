import R2DTU.Library.ShortestStrategy
import R2DTU.Planner.Completeness

/-!
# The levels of the search

Nodes are taken off the frontier in the order of their depth, that is, of the number of actions
above them. `Layers` says so of a graph of the search: the frontier is `AndOr.Layered`, and nothing
below the level of the last node taken off is marked.

`frontierWeight` adds up a weight of the open nodes which may depend on their depth and their state.
A round trades the weight of the node in front for that of the outcomes of its actions.

* `Graph.Expanded.layers` is an action that applies, and `Layers.foldl` the loop over the library.
* `Layers.mark` is a propagation from the node in front.
* `Layers.round` is one round of the search, with the weight it leaves behind.
-/

namespace Del

open AndOr (Mark MarkedTree Layered)

variable {order : HashOrder} {goal : BuiltFormula} {library : ActionLibrary} {init : State}
  {g g' : Graph} {depth : ℕ → ℕ} {level : ℕ} {w : ℕ → State → ℕ}

/-- The levels of the nodes of a graph, where `level` is that of the last node taken off the
frontier. -/
structure Layers (g : Graph) (depth : ℕ → ℕ) (level : ℕ) : Prop where
  /-- Depths fit the tree. -/
  levels : g.tree.Levels depth
  /-- The root is at the top. -/
  depth_root : depth 0 = 0
  /-- The frontier is sorted by depth. -/
  layered : Layered depth level g.frontier
  /-- No deeper leaf is decided. -/
  marked_le {i : ℕ} {m : Mark} (hor : (g.getNode i).type = .or)
    (hleaf : (g.getNode i).children = []) (hm : g.tree.marked m i) : depth i ≤ level

/-- The weight of the open nodes. -/
def frontierWeight (w : ℕ → State → ℕ) (depth : ℕ → ℕ) (g : Graph) : ℕ :=
  (g.frontier.map fun i ↦ w (depth i) (g.getNode i).state).sum

/-- The weight of the outcomes of an action at a node of the level. -/
def outcomeWeight (w : ℕ → State → ℕ) (level : ℕ) (move : Action × State) : ℕ :=
  ((splitIntoGlobalStates move.2 move.1.owner).map (w (level + 1))).sum

/-- The weight of all outcomes at a node: goals are not expanded. -/
def spawnedWeight (order : HashOrder) (goal : BuiltFormula) (library : ActionLibrary)
    (w : ℕ → State → ℕ) (level : ℕ) (s : State) : ℕ :=
  if s.valuate goal then 0 else ((moves order library.actions s).map (outcomeWeight w level)).sum

/-! ### Expanding a node -/

/-- The depth of the nodes an action appends below a node of the level. -/
def deepen (depth : ℕ → ℕ) (size level : ℕ) (i : ℕ) : ℕ :=
  if i < size then depth i else if i = size then level else level + 1

theorem deepen_old {size i : ℕ} (hi : i < size) : deepen depth size level i = depth i :=
  if_pos hi

theorem deepen_action (size : ℕ) : deepen depth size level size = level := by
  rw [deepen, if_neg (Nat.lt_irrefl size), if_pos rfl]

theorem deepen_outcome (size k : ℕ) : deepen depth size level (size + 1 + k) = level + 1 := by
  rw [deepen, if_neg (by omega), if_neg (by omega)]

/-- The open nodes stay sorted: what is appended is in the last of the two levels. -/
theorem Graph.Expanded.layered_frontier {current : ℕ} {a : Action} {product : State}
    (he : g.Expanded g' current a product) (h : Layers g depth (depth current))
    (hs : Searching order goal library init (· = current) g) :
    Layered (deepen depth g.nodes.length (depth current)) (depth current) g'.frontier := by
  rw [he.frontier_eq]
  refine (h.layered.congr fun i hi ↦ deepen_old (hs.frontier_open hi).1).append fun i hi ↦ ?_
  obtain ⟨k, t, rfl, -⟩ := he.outcome_of_mem_range hi
  exact deepen_outcome g.nodes.length k

/-- **An action that applies** appends its outcomes one level below the node that is expanded. -/
theorem Graph.Expanded.layers {current : ℕ} {a : Action} {product : State}
    (he : g.Expanded g' current a product) (h : Layers g depth (depth current))
    (hs : Searching order goal library init (· = current) g) (hlt : current < g.nodes.length)
    (hor : (g.getNode current).type = .or) :
    Layers g' (deepen depth g.nodes.length (depth current)) (depth current) := by
  have htype : ∀ {i}, i < g.nodes.length → (g'.tree.isAnd i ↔ g.tree.isAnd i) := fun {i} hi ↦ by
    show (g'.getNode i).type = .and ↔ (g.getNode i).type = .and
    rw [he.type_old hi]
  have hnotAnd : ¬ g.tree.isAnd current := fun hand ↦ NodeType.noConfusion (hor.symm.trans hand)
  refine ⟨⟨fun {i c} _ hna hc ↦ ?_, fun {i c} _ hand hc ↦ ?_⟩, ?_, he.layered_frontier h hs,
    fun {i m} hi hnil hm ↦ ?_⟩
  · rcases he.cases_of_child hc with hold | ⟨rfl, rfl⟩ | ⟨rfl, -⟩
    · have hi := Graph.lt_length_of_mem_children hold
      rw [deepen_old (hs.child_lt hold), deepen_old hi]
      exact h.levels.of_or hi (fun hand ↦ hna ((htype hi).2 hand)) hold
    · rw [deepen_action, deepen_old hlt]
    · refine absurd ?_ hna
      show (g'.getNode g.nodes.length).type = .and
      rw [he.action_eq]
      rfl
  · rcases he.cases_of_child hc with hold | ⟨rfl, rfl⟩ | ⟨rfl, k, t, rfl, -⟩
    · have hi := Graph.lt_length_of_mem_children hold
      rw [deepen_old (hs.child_lt hold), deepen_old hi]
      exact h.levels.of_and hi ((htype hi).1 hand) hold
    · exact absurd ((htype hlt).1 hand) hnotAnd
    · rw [deepen_outcome, deepen_action]
  · rw [deepen_old hs.root_lt]
    exact h.depth_root
  · -- marked nodes are old
    have hold := he.lt_of_marked hm
    rw [he.type_old hold] at hi
    rw [deepen_old hold]
    exact h.marked_le hi (he.leaf_old hold hnil).2 ((he.isMarked_old hold m).1 hm)

/-- The weight of the open nodes grows by that of the outcomes. -/
theorem Graph.Expanded.frontierWeight_eq {current : ℕ} {a : Action} {product : State}
    (he : g.Expanded g' current a product)
    (hs : Searching order goal library init (· = current) g) :
    frontierWeight w (deepen depth g.nodes.length level) g' =
      frontierWeight w depth g + outcomeWeight w level (a, product) := by
  have hold : ∀ i ∈ g.frontier, w (deepen depth g.nodes.length level i) (g'.getNode i).state =
      w (depth i) (g.getNode i).state := fun i hi ↦ by
    have hlt := (hs.frontier_open hi).1
    rw [deepen_old hlt, he.state_old hlt]
  have hnew : ∀ i ∈ (g'.getNode g.nodes.length).children,
      w (deepen depth g.nodes.length level i) (g'.getNode i).state =
        w (level + 1) (g'.getNode i).state := fun i hi ↦ by
    rw [he.children_action] at hi
    obtain ⟨k, t, rfl, -⟩ := he.outcome_of_mem_range hi
    rw [deepen_outcome]
  rw [frontierWeight, he.frontier_eq, ← he.children_action, List.map_append, List.sum_append,
    List.map_congr_left hold, List.map_congr_left hnew, frontierWeight, outcomeWeight,
    ← he.states_outcomes, List.map_map]
  rfl

/-- The levels and the weight after some of the actions. -/
def Deepened (w : ℕ → State → ℕ) (g : Graph) (depth : ℕ → ℕ) (current : ℕ)
    (spawned : List (Action × State)) (g' : Graph) : Prop :=
  ∃ depth', Layers g' depth' (depth' current) ∧ depth' current = depth current ∧
    frontierWeight w depth' g' =
      frontierWeight w depth g + (spawned.map (outcomeWeight w (depth current))).sum

/-- **One action.** -/
theorem Expanding.deepened {current : ℕ} {done : List Action} {st : Graph × Bool}
    (h : Expanding order goal library init current done st)
    (hl : Layers st.1 depth (depth current)) (a : Action) :
    Deepened w st.1 depth current (moves order [a] (st.1.getNode current).state)
      (Del.expandAction order current st a).1 := by
  obtain ⟨g, found⟩ := st
  rcases ha : applyAction order (g.getNode current).state a with _ | product
  · have hskip : Del.expandAction order current (g, found) a = (g, found) := by
      simp only [Del.expandAction, ha]
    rw [hskip]
    refine ⟨depth, hl, rfl, ?_⟩
    rw [moves, List.filterMap_cons_none (by rw [ha]; rfl), List.filterMap_nil]
    rfl
  · obtain ⟨g', heq, he⟩ := @Graph.expanded_expandAction g order current a product found h.lt ha
    rw [heq]
    have hcurrent := @deepen_old depth (depth current) _ _ h.lt
    refine ⟨_, ?_, hcurrent, ?_⟩
    · rw [hcurrent]
      exact he.layers hl h.searching h.lt h.type_eq
    · rw [he.frontierWeight_eq h.searching, moves,
        List.filterMap_cons_some (by rw [ha]; rfl), List.filterMap_nil]
      rfl

/-- **The loop over the library.** -/
theorem Expanding.deepened_foldl {current : ℕ} {st : Graph × Bool}
    (h : Expanding order goal library init current [] st)
    (hl : Layers st.1 depth (depth current)) :
    Deepened w st.1 depth current (moves order library.actions (st.1.getNode current).state)
      (library.actions.foldl (Del.expandAction order current) st).1 := by
  have hfold : ∀ actions done st depth, Expanding order goal library init current done st →
      Layers st.1 depth (depth current) →
      Deepened w st.1 depth current (moves order actions (st.1.getNode current).state)
        (actions.foldl (Del.expandAction order current) st).1 := by
    intro actions
    induction actions with
    | nil => exact fun done st depth _ hl ↦ ⟨depth, hl, rfl, rfl⟩
    | cons a actions ih =>
      intro done st depth hst hl
      obtain ⟨depth₁, hl₁, hd₁, hw₁⟩ := @Expanding.deepened _ _ _ _ _ w _ _ _ hst hl a
      obtain ⟨new, hnew⟩ := (@Graph.grown_expandAction st.1 order current hst.lt st.2 a).current_eq
      have hstate := congrArg Node.state hnew
      obtain ⟨depth₂, hl₂, hd₂, hw₂⟩ := ih _ _ depth₁ (hst.expandAction a) hl₁
      refine ⟨depth₂, hl₂, hd₂.trans hd₁, ?_⟩
      rw [List.foldl_cons, hw₂, hw₁, hd₁, hstate, Nat.add_assoc, ← List.sum_append,
        ← List.map_append, moves, moves, moves, ← List.filterMap_append, List.singleton_append]
  exact hfold library.actions [] st depth h hl

/-! ### Marking a node -/

/-- **A propagation** from a node of the level changes no level. -/
theorem Layers.mark {current : ℕ} {m : Mark} (h : Layers g depth level)
    (hm : Graph.Marking m current g g') (hcurrent : depth current ≤ level) :
    Layers g' depth level where
  levels := by
    have hsize : g'.tree.size = g.tree.size := hm.skeleton.length_eq
    have hand : ∀ i, g'.tree.isAnd i ↔ g.tree.isAnd i := fun i ↦ by
      show (g'.getNode i).type = .and ↔ (g.getNode i).type = .and
      rw [hm.skeleton.type_eq]
    have hchildren : ∀ i, g'.tree.children i = g.tree.children i := hm.skeleton.children_eq
    refine ⟨fun {i c} hi hna hc ↦ ?_, fun {i c} hi ha hc ↦ ?_⟩
    · exact h.levels.of_or (hsize ▸ hi) (fun ha ↦ hna ((hand i).2 ha)) (hchildren i ▸ hc)
    · exact h.levels.of_and (hsize ▸ hi) ((hand i).1 ha) (hchildren i ▸ hc)
  depth_root := h.depth_root
  layered := by
    rw [hm.skeleton.frontier_eq]
    exact h.layered
  marked_le {i m'} hor hleaf hmark := by
    rw [hm.skeleton.type_eq] at hor
    rw [hm.skeleton.children_eq] at hleaf
    rcases hm.cases_of_leaf hleaf hmark with hold | ⟨-, rfl⟩
    · exact h.marked_le hor hleaf hold
    · exact hcurrent

theorem frontierWeight_mark {current : ℕ} {m : Mark} (hm : Graph.Marking m current g g') :
    frontierWeight w depth g' = frontierWeight w depth g := by
  rw [frontierWeight, frontierWeight, hm.skeleton.frontier_eq]
  exact congrArg List.sum (List.map_congr_left fun i _ ↦ by rw [hm.skeleton.state_eq])

/-! ### One round -/

/-- Taking a node off the frontier gives the next level. -/
theorem Layers.pop {front : ℕ} {rest : List ℕ} (h : Layers g depth level)
    (hf : g.frontier = front :: rest) : Layers { g with frontier := rest } depth (depth front) := by
  have hlayered := hf ▸ h.layered
  refine ⟨⟨h.levels.of_or, h.levels.of_and⟩, h.depth_root, hlayered.pop, fun hor hleaf hm ↦ ?_⟩
  exact (h.marked_le hor hleaf hm).trans (hlayered.mem List.mem_cons_self).1

/-- How a round ends: the root is undecided, or it has a mark and the search is over. -/
inductive RoundEnds (g' : Graph) : Graph ⊕ Option Policy → Prop
  | continues (h : g'.tree.Unmarked 0) : RoundEnds g' (Sum.inl g')
  | extracts (h : g'.tree.marked .solved 0) : RoundEnds g' (Sum.inr (extractPolicy g'))
  | refuses (h : g'.tree.marked .dead 0) : RoundEnds g' (Sum.inr (some ⟨false, []⟩))

/-- **One round of the search.** It takes the weight of the node in front off the frontier and
appends that of its outcomes. -/
theorem Layers.round (h : Layers g depth level) (hr : Ready order goal library init g) {front : ℕ}
    {rest : List ℕ} (hf : g.frontier = front :: rest) :
    ∃ g' depth', Searching order goal library init (fun _ ↦ False) g' ∧
      Layers g' depth' (depth front) ∧
      frontierWeight w depth' g' = frontierWeight w depth { g with frontier := rest } +
        spawnedWeight order goal library w (depth front) (g.getNode front).state ∧
      RoundEnds g' (findPolicyStep order goal library g) := by
  obtain ⟨hlt, hor, hnil, hu, -⟩ := hr.searching.frontier_open (hf ▸ List.mem_cons_self ..)
  have hpop := hr.searching.pop hf
  have hlpop := h.pop hf
  have hid : (g.getNode front).id = front := hr.searching.linked.id_eq hlt
  simp only [findPolicyStep, hf, hid]
  rcases hgoal : isGoalNode (Graph.getNode { g with frontier := rest } front) goal with _ | _
  · have hng : (g.getNode front).state.valuate goal = false := hgoal
    have hgrown := @Graph.grown_foldl order front library.actions
      ({ g with frontier := rest }, false) hlt
    have hend := (hr.expanding hf hng).foldl
    obtain ⟨depth', hl', hd', hw'⟩ := (hr.expanding hf hng).deepened_foldl (w := w) hlpop
    rw [hd'] at hl'
    rw [if_neg Bool.false_ne_true, spawnedWeight, hng, if_neg Bool.false_ne_true]
    rcases hst : library.actions.foldl (expandAction order front)
      ({ g with frontier := rest }, false) with ⟨g₁, found⟩
    rw [hst] at hgrown hend hl' hw'
    simp only
    cases found with
    | true =>
      rw [if_pos rfl]
      exact ⟨g₁, depth', hend.finish rfl, hl', hw', .continues hend.root_unmarked⟩
    | false =>
      -- no action applied, so the node is still a leaf
      have hleaf : (g₁.getNode front).children = [] :=
        not_not.1 fun hne ↦ Bool.false_ne_true (hend.found_iff.2 hne)
      have hstuck := hend.childMoves_eq
      rw [Graph.childMoves, hleaf, List.map_nil] at hstuck
      obtain ⟨g', heq, hmark, hexact⟩ := Graph.propogate_spec .dead hend.searching.linked
        hend.searching.exact hend.lt hleaf hend.unmarked
      have hs := hend.searching.mark hmark hexact (fun h ↦ Mark.noConfusion h)
        (fun _ ↦ ⟨hend.not_goal, hstuck.symm⟩) hleaf
      rw [if_neg Bool.false_ne_true, show g₁.propogateDeadEndNode front = some g' from heq]
      refine ⟨g', depth', hs, hl'.mark hmark hd'.le, (frontierWeight_mark hmark).trans hw', ?_⟩
      simp only [hs.getRootNode_eq]
      split_ifs with hdead
      · exact .refuses hdead
      · exact .continues (unmarked_root_of_marking hmark hend.root_unmarked hdead)
  · have hg : (g.getNode front).state.valuate goal = true := hgoal
    obtain ⟨g', heq, hmark, hexact⟩ :=
      Graph.propogate_spec .solved hpop.linked hpop.exact hlt hnil hu
    have hs := hpop.mark hmark hexact (fun _ ↦ hgoal) (fun h ↦ Mark.noConfusion h) hnil
    rw [if_pos rfl,
      show Graph.propogateSolvedNode { g with frontier := rest } front = some g' from heq,
      spawnedWeight, hg, if_pos rfl]
    refine ⟨g', depth, hs, hlpop.mark hmark le_rfl, frontierWeight_mark hmark, ?_⟩
    simp only [hs.getRootNode_eq]
    split_ifs with hsolved
    · exact .extracts hsolved
    · exact .continues (unmarked_root_of_marking hmark hr.root_unmarked hsolved)

end Del
