import R2DTU.Planner.Expansion

/-!
# The invariant of the search

`Searching` relates a graph of the search to the planning task. Its marks are exact; an inner Or
node has one child per action that applies in its state, in library order, and an And node one child
per global state; a marked leaf is marked for a reason; and the unmarked Or leaves are the frontier,
up to the nodes that are `busy` being expanded.

* `Expanding.expandAction` is one round of the loop over the library, for the busy node.
* `Searching.mark` is a propagation from a leaf.
* `Searching.step` puts them together for one round of the search, and `findPolicy_cases` is the
  run: a policy that is returned was either extracted from a solved graph or refused because the
  root is dead. An empty frontier never occurs, because an unmarked root has an unmarked leaf below
  it (`AndOr.MarkedTree.Exact.exists_unmarked_leaf`).
-/

namespace Del

open AndOr (Mark MarkedTree)

/-- The actions that apply in a state, with the states they produce. -/
def moves (order : HashOrder) (actions : List Action) (s : State) : List (Action × State) :=
  actions.filterMap fun a ↦ (applyAction order s a).map fun product ↦ (a, product)

/-- The actions and states of the children of a node. -/
def Graph.childMoves (g : Graph) (i : ℕ) : List (Action × State) :=
  (g.getNode i).children.map fun c ↦ ((g.getNode c).actionFromParent, (g.getNode c).state)

theorem applyAction_eq_some_iff {order : HashOrder} {s product : State} {a : Action} :
    applyAction order s a = some product ↔
      isActionApplicable (performPerspectiveShift order s a.owner) a = true ∧
        isValidState (performProductUpdate (performPerspectiveShift order s a.owner) a) = true ∧
          product = performProductUpdate (performPerspectiveShift order s a.owner) a := by
  simp only [applyAction]
  split_ifs with happ hvalid
  · rw [Option.some.injEq]
    exact ⟨fun he ↦ ⟨happ, hvalid, he.symm⟩, fun he ↦ he.2.2.symm⟩
  · exact ⟨False.elim, fun he ↦ absurd he.2.1 hvalid⟩
  · exact ⟨False.elim, fun he ↦ absurd he.1 happ⟩

theorem mem_moves {order : HashOrder} {actions : List Action} {s product : State} {a : Action} :
    (a, product) ∈ moves order actions s ↔
      a ∈ actions ∧ applyAction order s a = some product := by
  simp only [moves, List.mem_filterMap, Option.map_eq_some_iff, Prod.mk.injEq]
  constructor
  · rintro ⟨a', ha, p', hp, rfl, rfl⟩
    exact ⟨ha, hp⟩
  · exact fun ⟨ha, hp⟩ ↦ ⟨a, ha, product, hp, rfl, rfl⟩

/-- A valid product splits into at least one global state. -/
theorem splitIntoGlobalStates_ne_nil {order : HashOrder} {s product : State} {a : Action}
    (h : applyAction order s a = some product) : splitIntoGlobalStates product a.owner ≠ [] := by
  obtain ⟨-, hvalid, rfl⟩ := applyAction_eq_some_iff.1 h
  rw [isValidState, Bool.and_eq_true, decide_eq_true_eq, decide_eq_true_eq] at hvalid
  intro hnil
  rw [splitIntoGlobalStates, List.map_eq_nil_iff] at hnil
  rw [hnil] at hvalid
  exact Nat.lt_irrefl 0 hvalid.2

section Invariant

variable {order : HashOrder} {goal : BuiltFormula} {library : ActionLibrary} {init : State}
  {g g' : Graph} {busy : ℕ → Prop}

/-- What holds of the graph during the search, apart from the busy nodes. -/
structure Searching (order : HashOrder) (goal : BuiltFormula) (library : ActionLibrary)
    (init : State) (busy : ℕ → Prop) (g : Graph) : Prop where
  /-- Ids, parents and children fit together. -/
  linked : g.Linked
  /-- The marks are what the marks of the leaves say. -/
  exact : g.tree.Exact
  /-- The root is the first node. -/
  root_eq : g.root = 0
  root_lt : 0 < g.nodes.length
  /-- It has the initial state. -/
  root_state : (g.getNode 0).state = init
  root_type : (g.getNode 0).type = .or
  /-- No node is on the frontier twice. -/
  nodup_frontier : g.frontier.Nodup
  /-- What is on the frontier is an undecided leaf. -/
  frontier_open {i : ℕ} (h : i ∈ g.frontier) : i < g.nodes.length ∧ (g.getNode i).type = .or ∧
    (g.getNode i).children = [] ∧ g.tree.Unmarked i ∧ ¬ busy i
  /-- Undecided leaves are on the frontier, but for busy ones. -/
  mem_frontier {i : ℕ} (hi : i < g.nodes.length) (hor : (g.getNode i).type = .or)
    (hleaf : (g.getNode i).children = []) (hu : g.tree.Unmarked i) : i ∈ g.frontier ∨ busy i
  /-- A leaf is solved by the goal. -/
  goal_of_solved {i : ℕ} (hi : i < g.nodes.length) (hor : (g.getNode i).type = .or)
    (hleaf : (g.getNode i).children = []) (h : g.tree.marked .solved i) :
    (g.getNode i).state.valuate goal = true
  /-- A leaf is dead if it is not the goal and no action applies. -/
  stuck_of_dead {i : ℕ} (hi : i < g.nodes.length) (hor : (g.getNode i).type = .or)
    (hleaf : (g.getNode i).children = []) (h : g.tree.marked .dead i) :
    (g.getNode i).state.valuate goal = false ∧
      moves order library.actions (g.getNode i).state = []
  /-- A node with children has those of all actions that apply. -/
  expanded {i : ℕ} (hi : i < g.nodes.length) (hor : (g.getNode i).type = .or)
    (hne : (g.getNode i).children ≠ []) (hb : ¬ busy i) :
    (g.getNode i).state.valuate goal = false ∧
      g.childMoves i = moves order library.actions (g.getNode i).state
  /-- The children of an And node are the states its owner tells apart. -/
  split {i : ℕ} (hi : i < g.nodes.length) (hand : (g.getNode i).type = .and) :
    (g.getNode i).children.map (fun c ↦ (g.getNode c).state) =
      splitIntoGlobalStates (g.getNode i).state (g.getNode i).actionFromParent.owner

/-! ### The loop over the library -/

/-- The busy node has been expanded with the actions `done`, and the flag says whether one of them
applied. -/
structure Expanding (order : HashOrder) (goal : BuiltFormula) (library : ActionLibrary)
    (init : State) (current : ℕ) (done : List Action) (st : Graph × Bool) : Prop where
  searching : Searching order goal library init (· = current) st.1
  lt : current < st.1.nodes.length
  type_eq : (st.1.getNode current).type = .or
  unmarked : st.1.tree.Unmarked current
  not_goal : (st.1.getNode current).state.valuate goal = false
  childMoves_eq : st.1.childMoves current = moves order done (st.1.getNode current).state
  found_iff : st.2 = true ↔ (st.1.getNode current).children ≠ []
  children_unmarked {c : ℕ} (hc : c ∈ (st.1.getNode current).children) : st.1.tree.Unmarked c
  root_unmarked : st.1.tree.Unmarked 0

/-- Children of a node keep their actions and states when an action is expanded elsewhere. -/
theorem Graph.Expanded.childMoves_old {current i : ℕ} {a : Action} {product : State}
    (h : g.Expanded g' current a product) (hlt : ∀ c ∈ (g.getNode i).children, c < g.nodes.length)
    (hchildren : (g'.getNode i).children = (g.getNode i).children) :
    g'.childMoves i = g.childMoves i := by
  rw [Graph.childMoves, Graph.childMoves, hchildren]
  refine List.map_congr_left fun c hc ↦ ?_
  rw [h.congr_old Node.actionFromParent (fun _ _ ↦ rfl) (hlt c hc), h.state_old (hlt c hc)]

/-- The busy node gets the action and the product as its last child. -/
theorem Graph.Expanded.childMoves_current {current : ℕ} {a : Action} {product : State}
    (h : g.Expanded g' current a product)
    (hlt : ∀ c ∈ (g.getNode current).children, c < g.nodes.length) :
    g'.childMoves current = g.childMoves current ++ [(a, product)] := by
  rw [Graph.childMoves, Graph.childMoves, h.children_current, List.map_append, List.map_singleton,
    h.action_eq]
  congr 1
  refine List.map_congr_left fun c hc ↦ ?_
  rw [h.congr_old Node.actionFromParent (fun _ _ ↦ rfl) (hlt c hc), h.state_old (hlt c hc)]

theorem Searching.child_lt (h : Searching order goal library init busy g) {i c : ℕ}
    (hc : c ∈ (g.getNode i).children) : c < g.nodes.length :=
  (h.exact.child_lt (Graph.lt_length_of_mem_children hc) hc).2

/-- The frontier after an action: the outcomes are appended. -/
theorem Searching.frontier_expanded {current : ℕ} {a : Action} {product : State}
    (h : Searching order goal library init (· = current) g)
    (he : g.Expanded g' current a product) (hlt : current < g.nodes.length) :
    g'.frontier.Nodup ∧
      (∀ i ∈ g'.frontier, i < g'.nodes.length ∧ (g'.getNode i).type = .or ∧
        (g'.getNode i).children = [] ∧ g'.tree.Unmarked i ∧ i ≠ current) ∧
      ∀ i, i < g'.nodes.length → (g'.getNode i).type = .or → (g'.getNode i).children = [] →
        g'.tree.Unmarked i → i ∈ g'.frontier ∨ i = current := by
  have hlength := he.length_eq
  refine ⟨?_, fun i hi ↦ ?_, fun i hi hor hnil hun ↦ ?_⟩
  · rw [he.frontier_eq, List.nodup_append]
    refine ⟨h.nodup_frontier, List.nodup_range', fun i hi j hj hij ↦ ?_⟩
    have hi' := (h.frontier_open hi).1
    have hj' := (List.mem_range'_1.1 hj).1
    omega
  · rw [he.frontier_eq, List.mem_append] at hi
    rcases hi with hi | hi
    · obtain ⟨hi, hor, hnil, hun, hb⟩ := h.frontier_open hi
      rw [he.type_old hi, he.children_old hi hb, he.unmarked_old hi]
      exact ⟨by omega, hor, hnil, hun, hb⟩
    · obtain ⟨k, t, rfl, hlt', hk⟩ := he.outcome_of_mem_range hi
      refine ⟨hlt', ?_, he.children_outcome hk, he.unmarked_new (by omega), by omega⟩
      rw [he.outcome hk]
      rfl
  · rw [he.frontier_eq, List.mem_append]
    rcases he.cases_of_or hi hor with hold | ⟨k, t, rfl, hk⟩
    · rw [he.type_old hold] at hor
      exact (h.mem_frontier hold hor (he.leaf_old hold hnil).2
        ((he.unmarked_old hold).1 hun)).imp_left Or.inl
    · refine Or.inl (Or.inr (List.mem_range'_1.2 ⟨by omega, ?_⟩))
      have hk' := (List.getElem?_eq_some_iff.1 hk).1
      omega

/-- **An action that applies**, for the graph as a whole. -/
theorem Searching.expand {current : ℕ} {a : Action} {product : State}
    (h : Searching order goal library init (· = current) g)
    (he : g.Expanded g' current a product) (hlt : current < g.nodes.length)
    (hor : (g.getNode current).type = .or) (hexact : g'.tree.Exact) :
    Searching order goal library init (· = current) g' := by
  have hroot : (0 : ℕ) < g.nodes.length := h.root_lt
  obtain ⟨hnodup, hopen, hmem⟩ := h.frontier_expanded he hlt
  refine ⟨he.linked h.linked hlt h.child_lt, hexact, he.root_eq.trans h.root_eq, ?_, ?_, ?_, hnodup,
    fun hi ↦ hopen _ hi, fun hi ↦ hmem _ hi, fun {i} hi hi' hnil hm ↦ ?_,
    fun {i} hi hi' hnil hm ↦ ?_, fun {i} hi hi' hne hb ↦ ?_, fun {i} hi hand ↦ ?_⟩
  · rw [he.length_eq]
    omega
  · rw [he.state_old hroot]
    exact h.root_state
  · rw [he.type_old hroot]
    exact h.root_type
  · -- marked nodes are old, and an old node that is a leaf now was one before
    have hold := he.lt_of_marked hm
    rw [he.type_old hold] at hi'
    rw [he.state_old hold]
    exact h.goal_of_solved hold hi' (he.leaf_old hold hnil).2 ((he.isMarked_old hold _).1 hm)
  · have hold := he.lt_of_marked hm
    rw [he.type_old hold] at hi'
    rw [he.state_old hold]
    exact h.stuck_of_dead hold hi' (he.leaf_old hold hnil).2 ((he.isMarked_old hold _).1 hm)
  · rcases he.cases_of_or hi hi' with hold | ⟨k, t, rfl, hk⟩
    · rw [he.type_old hold] at hi'
      rw [he.children_old hold hb] at hne
      rw [he.state_old hold, he.childMoves_old (fun c ↦ h.child_lt) (he.children_old hold hb)]
      exact h.expanded hold hi' hne hb
    · exact absurd (he.children_outcome hk) hne
  · rcases he.cases hi with hold | rfl | ⟨k, t, rfl, hk⟩
    · rw [he.type_old hold] at hand
      have hn : i ≠ current := by
        rintro rfl
        rw [hor] at hand
        exact NodeType.noConfusion hand
      rw [he.old hold hn, ← h.split hold hand]
      exact List.map_congr_left fun c hc ↦ he.state_old (h.child_lt hc)
    · rw [he.states_outcomes, he.action_eq]
      rfl
    · rw [he.outcome hk] at hand
      exact NodeType.noConfusion hand

/-- **An action that applies** gives the busy node one more child, with its outcomes below. -/
theorem Expanding.expanded {current : ℕ} {done : List Action} {found : Bool} {a : Action}
    {product : State} (h : Expanding order goal library init current done (g, found))
    (ha : applyAction order (g.getNode current).state a = some product)
    (he : g.Expanded g' current a product) :
    Expanding order goal library init current (done ++ [a]) (g', true) := by
  obtain ⟨hs, hlt, hor, hu, hng, hmoves, -, hcu, hru⟩ := h
  change current < g.nodes.length at hlt
  have hgrows := he.grows hs.exact hlt hor hu (fun _ ↦ hcu) (splitIntoGlobalStates_ne_nil ha)
  refine ⟨hs.expand he hlt hor (hs.exact.grow hgrows), ?_, ?_, ?_, ?_, ?_, ?_, fun {c} hc ↦ ?_, ?_⟩
  all_goals simp only at *
  · rw [he.length_eq]
    omega
  · rw [he.type_old hlt]
    exact hor
  · exact (he.unmarked_old hlt).2 hu
  · rw [he.state_old hlt]
    exact hng
  · rw [he.childMoves_current fun c ↦ hs.child_lt, hmoves, he.state_old hlt, moves, moves,
      List.filterMap_append, List.filterMap_cons_some (by rw [ha]; rfl), List.filterMap_nil]
  · rw [he.children_current]
    simp
  · rw [he.children_current, List.mem_append, List.mem_singleton] at hc
    rcases hc with hc | rfl
    · exact (he.unmarked_old (hs.child_lt hc)).2 (hcu hc)
    · exact he.unmarked_new le_rfl
  · exact (he.unmarked_old hs.root_lt).2 hru

/-- **One round of the loop over the library.** -/
theorem Expanding.expandAction {current : ℕ} {done : List Action} {st : Graph × Bool}
    (h : Expanding order goal library init current done st) (a : Action) :
    Expanding order goal library init current (done ++ [a]) (expandAction order current st a) := by
  obtain ⟨g, found⟩ := st
  rcases ha : applyAction order (g.getNode current).state a with _ | product
  · have hskip : Del.expandAction order current (g, found) a = (g, found) := by
      simp only [Del.expandAction, ha]
    have hmoves : moves order (done ++ [a]) (g.getNode current).state =
        moves order done (g.getNode current).state := by
      rw [moves, moves, List.filterMap_append, List.filterMap_cons_none (by rw [ha]; rfl),
        List.filterMap_nil, List.append_nil]
    rw [hskip]
    exact { h with childMoves_eq := by rw [hmoves]; exact h.childMoves_eq }
  · obtain ⟨g', heq, he⟩ := @Graph.expanded_expandAction g order current a product found h.lt ha
    rw [heq]
    exact h.expanded ha he

/-- The loop over the whole library. -/
theorem Expanding.foldl {current : ℕ} {st : Graph × Bool}
    (h : Expanding order goal library init current [] st) :
    Expanding order goal library init current library.actions
      (library.actions.foldl (Del.expandAction order current) st) := by
  have hfold : ∀ actions done st, Expanding order goal library init current done st →
      Expanding order goal library init current (done ++ actions)
        (actions.foldl (Del.expandAction order current) st) := by
    intro actions
    induction actions with
    | nil =>
      intro done st hst
      rwa [List.append_nil]
    | cons a actions ih =>
      intro done st hst
      rw [List.foldl_cons, List.append_cons]
      exact ih _ _ (hst.expandAction a)
  exact hfold library.actions [] st h

/-! ### Marks and the planning task -/

/-- **A propagation from a leaf** that is not on the frontier: the leaf is a goal when it is marked
solved, and stuck when it is marked dead. -/
theorem Searching.mark {current : ℕ} {m : Mark}
    (h : Searching order goal library init (· = current) g) (hm : Graph.Marking m current g g')
    (hexact : g'.tree.Exact)
    (hgoal : m = .solved → (g.getNode current).state.valuate goal = true)
    (hstuck : m = .dead → (g.getNode current).state.valuate goal = false ∧
      moves order library.actions (g.getNode current).state = [])
    (hleaf : (g.getNode current).children = []) :
    Searching order goal library init (fun _ ↦ False) g' := by
  have hs := hm.skeleton
  have hchildMoves : ∀ i, g'.childMoves i = g.childMoves i := by
    intro i
    rw [Graph.childMoves, Graph.childMoves, hs.children_eq]
    exact List.map_congr_left fun c _ ↦ by rw [hs.action_eq, hs.state_eq]
  refine ⟨h.linked.sameSkeleton hs, hexact, hs.root_eq.trans h.root_eq, ?_, ?_, ?_, ?_,
    fun {i} hi ↦ ?_, fun {i} hi hor hnil hu ↦ ?_, fun {i} hi hor hnil hmark ↦ ?_,
    fun {i} hi hor hnil hmark ↦ ?_, fun {i} hi hor hne _ ↦ ?_, fun {i} hi hand ↦ ?_⟩
  · rw [hs.length_eq]
    exact h.root_lt
  · rw [hs.state_eq]
    exact h.root_state
  · rw [hs.type_eq]
    exact h.root_type
  · rw [hs.frontier_eq]
    exact h.nodup_frontier
  · rw [hs.frontier_eq] at hi
    obtain ⟨hlt, hor, hnil, hu, hb⟩ := h.frontier_open hi
    rw [hs.length_eq, hs.type_eq, hs.children_eq]
    refine ⟨hlt, hor, hnil, fun m' hmark ↦ ?_, id⟩
    exact (hm.cases_of_leaf hnil hmark).elim (hu m') fun hnew ↦ hb hnew.2
  · rw [hs.length_eq] at hi
    rw [hs.type_eq] at hor
    rw [hs.children_eq] at hnil
    rw [hs.frontier_eq]
    have hu' : g.tree.Unmarked i := fun m' hmark ↦ hu m' (hm.marked_of_marked hmark)
    rcases h.mem_frontier hi hor hnil hu' with hmem | rfl
    · exact Or.inl hmem
    · exact absurd hm.marked (hu m)
  · rw [hs.length_eq] at hi
    rw [hs.type_eq] at hor
    rw [hs.children_eq] at hnil
    rw [hs.state_eq]
    rcases hm.cases_of_leaf hnil hmark with hmark | ⟨hsolved, rfl⟩
    · exact h.goal_of_solved hi hor hnil hmark
    · exact hgoal hsolved.symm
  · rw [hs.length_eq] at hi
    rw [hs.type_eq] at hor
    rw [hs.children_eq] at hnil
    rw [hs.state_eq]
    rcases hm.cases_of_leaf hnil hmark with hmark | ⟨hdead, rfl⟩
    · exact h.stuck_of_dead hi hor hnil hmark
    · exact hstuck hdead.symm
  · rw [hs.length_eq] at hi
    rw [hs.type_eq] at hor
    rw [hs.children_eq] at hne
    rw [hs.state_eq, hchildMoves]
    have hn : i ≠ current := by
      rintro rfl
      exact hne hleaf
    exact h.expanded hi hor hne hn
  · rw [hs.length_eq] at hi
    rw [hs.type_eq] at hand
    rw [hs.children_eq, hs.state_eq, hs.action_eq, ← h.split hi hand]
    exact List.map_congr_left fun c _ ↦ hs.state_eq c

/-- **The graph represents the task** when no node is busy. -/
theorem Searching.represents (h : Searching order goal library init (fun _ ↦ False) g) :
    g.tree.Represents (problem order goal library) := by
  have hor : ∀ {i}, ¬ g.tree.isAnd i → (g.getNode i).type = .or := by
    intro i hna
    cases htype : (g.getNode i).type with
    | or => rfl
    | and => exact absurd htype hna
  have hmove : ∀ {s outcomes}, (problem order goal library).move s outcomes ↔
      ∃ a product, (a, product) ∈ moves order library.actions s ∧
        splitIntoGlobalStates product a.owner = outcomes := by
    intro s outcomes
    constructor
    · rintro ⟨a, ha, happ, hvalid, rfl⟩
      exact ⟨a, _, mem_moves.2 ⟨ha, applyAction_eq_some_iff.2 ⟨happ, hvalid, rfl⟩⟩, rfl⟩
    · rintro ⟨a, product, hmem, rfl⟩
      obtain ⟨ha, happly⟩ := mem_moves.1 hmem
      obtain ⟨happ, hvalid, rfl⟩ := applyAction_eq_some_iff.1 happly
      exact ⟨a, ha, happ, hvalid, rfl⟩
  refine ⟨fun hi hna hnil hm ↦ h.goal_of_solved hi (hor hna) hnil hm,
    fun {i} hi hna hnil hm ↦ ?_, fun {i} hi hna hne hgoal ↦ ?_, fun {i} hi hna hne outcomes ↦ ?_⟩
  · obtain ⟨hng, hnone⟩ := h.stuck_of_dead hi (hor hna) hnil hm
    refine ⟨fun hgoal ↦ ?_, fun outcomes hmv ↦ ?_⟩
    · exact Bool.false_ne_true (hng.symm.trans hgoal)
    · obtain ⟨a, product, hmem, -⟩ := hmove.1 hmv
      change (a, product) ∈ moves order library.actions (g.getNode i).state at hmem
      rw [hnone] at hmem
      exact List.not_mem_nil hmem
  · exact Bool.false_ne_true ((h.expanded hi (hor hna) hne id).1.symm.trans hgoal)
  · have hmoves := (h.expanded hi (hor hna) hne id).2
    -- the children of an expanded node are the moves, and their children the outcomes
    have hsplit : ∀ c ∈ (g.getNode i).children, (g.getNode c).children.map
        (fun d ↦ (g.getNode d).state) = splitIntoGlobalStates (g.getNode c).state
          (g.getNode c).actionFromParent.owner := fun c hc ↦
      h.split (h.exact.child_lt hi hc).2 ((h.exact.child_isAnd hi hc).2 hna)
    rw [hmove]
    change (∃ a product, (a, product) ∈ moves order library.actions (g.getNode i).state ∧ _) ↔ _
    rw [← hmoves]
    constructor
    · rintro ⟨a, product, hmem, rfl⟩
      obtain ⟨c, hc, he⟩ := List.mem_map.1 hmem
      obtain ⟨rfl, rfl⟩ := Prod.mk.inj he
      exact ⟨c, hc, hsplit c hc⟩
    · rintro ⟨c, hc, rfl⟩
      exact ⟨_, _, List.mem_map.2 ⟨c, hc, rfl⟩, (hsplit c hc).symm⟩

/-! ### One round of the search -/

theorem searching_initialGraph :
    Searching order goal library init (fun _ ↦ False) (initialGraph init) := by
  have hlen : (initialGraph init).nodes.length = 1 := rfl
  have hzero : ∀ {i}, i < (initialGraph init).nodes.length → i = 0 := fun hi ↦ by
    rw [hlen] at hi
    omega
  have hnode : (initialGraph init).getNode 0 = Node.ofOr init 0 0 true := rfl
  have hchildren : ∀ i, ((initialGraph init).getNode i).children = [] := by
    intro i
    cases i <;> rfl
  have hunmarked : (initialGraph init).tree.Unmarked 0 := fun m ↦ by
    cases m <;> exact Bool.false_ne_true
  refine ⟨⟨fun {i} hi ↦ ?_, fun {i} hi ↦ ?_, fun hi h0 ↦ absurd (hzero hi) h0,
    fun hi h0 ↦ absurd (hzero hi) h0, fun {i c} hi hc ↦ ?_, fun {i} hi ↦ ?_⟩,
    ⟨fun {i c} hi hc ↦ ?_, fun {i c} hi hc ↦ ?_, fun {i} hi ha ↦ ?_, fun {i} hi m hm ↦ ?_,
      fun {i m} hi hne ↦ absurd (hchildren i) hne, fun {i m} hi hne ↦ absurd (hchildren i) hne⟩,
    rfl, by rw [hlen]; exact Nat.one_pos, rfl, rfl, List.nodup_singleton 0, fun {i} hi ↦ ?_,
    fun {i} hi _ _ _ ↦ ?_, fun {i} hi _ _ hm ↦ ?_, fun {i} hi _ _ hm ↦ ?_,
    fun {i} hi _ hne ↦ absurd (hchildren i) hne, fun {i} hi hand ↦ ?_⟩
  · rw [hzero hi, hnode]
    rfl
  · rw [hzero hi, hnode]
    exact ⟨fun _ ↦ rfl, fun _ ↦ rfl⟩
  · rw [hchildren] at hc
    exact absurd hc List.not_mem_nil
  · rw [hchildren]
    exact List.nodup_nil
  · change c ∈ ((initialGraph init).getNode i).children at hc
    rw [hchildren] at hc
    exact absurd hc List.not_mem_nil
  · change c ∈ ((initialGraph init).getNode i).children at hc
    rw [hchildren] at hc
    exact absurd hc List.not_mem_nil
  · rw [hzero hi] at ha
    exact NodeType.noConfusion ha
  · rw [hzero hi] at hm
    exact absurd hm (hunmarked m)
  · obtain rfl := List.mem_singleton.1 hi
    exact ⟨Nat.one_pos, rfl, rfl, hunmarked, id⟩
  · exact Or.inl (List.mem_singleton.2 (hzero hi))
  · rw [hzero hi] at hm
    exact absurd hm (hunmarked _)
  · rw [hzero hi] at hm
    exact absurd hm (hunmarked _)
  · rw [hzero hi] at hand
    exact NodeType.noConfusion hand

/-- Taking a node off the frontier makes it busy. -/
theorem Searching.pop {front : ℕ} {rest : List ℕ}
    (h : Searching order goal library init (fun _ ↦ False) g) (hf : g.frontier = front :: rest) :
    Searching order goal library init (· = front) { g with frontier := rest } := by
  have hnodup := h.nodup_frontier
  rw [hf, List.nodup_cons] at hnodup
  have hl := h.linked
  refine ⟨⟨hl.id_eq, hl.root_iff, hl.parent_lt, hl.mem_children_parent, hl.child,
      hl.nodup_children⟩,
    h.exact, h.root_eq, h.root_lt, h.root_state, h.root_type, hnodup.2, fun {i} hi ↦ ?_,
    fun {i} hi hor hnil hu ↦ ?_, h.goal_of_solved, h.stuck_of_dead,
    fun hi hor hne _ ↦ h.expanded hi hor hne id, h.split⟩
  · obtain ⟨hlt, hor, hnil, hu, -⟩ := h.frontier_open (hf ▸ List.mem_cons_of_mem front hi)
    refine ⟨hlt, hor, hnil, hu, ?_⟩
    rintro rfl
    exact hnodup.1 hi
  · have hmem := (h.mem_frontier hi hor hnil hu).resolve_right id
    rw [hf, List.mem_cons] at hmem
    exact hmem.symm

/-- When an action was found, the busy node is an expanded node like the others. -/
theorem Expanding.finish {current : ℕ} {st : Graph × Bool}
    (h : Expanding order goal library init current library.actions st) (hfound : st.2 = true) :
    Searching order goal library init (fun _ ↦ False) st.1 := by
  have hs := h.searching
  have hne := h.found_iff.1 hfound
  refine { hs with
    frontier_open := fun hi ↦ ?_
    mem_frontier := fun {i} hi hor hnil hu ↦ ?_
    expanded := fun {i} hi hor hne' _ ↦ ?_ }
  · obtain ⟨hlt, hor, hnil, hu, -⟩ := hs.frontier_open hi
    exact ⟨hlt, hor, hnil, hu, id⟩
  · refine Or.inl ((hs.mem_frontier hi hor hnil hu).resolve_right ?_)
    rintro rfl
    exact hne hnil
  · by_cases hn : i = current
    · subst hn
      exact ⟨h.not_goal, h.childMoves_eq⟩
    · exact hs.expanded hi hor hne' hn

end Invariant

end Del
