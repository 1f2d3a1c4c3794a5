import R2DTU.Planner.Levels

/-!
# The shortest plans, and how long the search takes

`SolvableIn n` says that some strategy needs `n` actions at most, whatever the outcomes. It is a
notion of the planning task alone; `Attains n` is the same bound for the entries of one policy.

While the root is undecided, the node in front of the frontier is not below the depth of the
shortest strategy or refutation (`Layers.front_le`), because everything above it is decided. Two
things follow.

* No leaf below that depth is ever solved, so the plan that is extracted is not deeper
  (`LayeredSolution.attains`): the policy that is returned is the shortest possible, and executions
  that find one action at every step are no longer (`Attains.run`).
* The rounds of the search are the nodes of the game tree down to that depth at most, which
  `treeSize` counts (`Ready.returns_within`).
-/

namespace Del

open AndOr (Mark MarkedTree)

/-- A strategy reaches the goal after `n` actions at most. -/
def SolvableIn (order : HashOrder) (goal : BuiltFormula) (library : ActionLibrary) (n : ℕ) :
    State → Prop :=
  (problem order goal library).SolvableIn n

/-- After `n` actions at most there is an outcome without a goal and without an action. -/
def RefutableIn (order : HashOrder) (goal : BuiltFormula) (library : ActionLibrary) (n : ℕ) :
    State → Prop :=
  (problem order goal library).RefutableIn n

/-- The entries of the policy lead from a state to the goal in `n` actions at most, whatever the
outcomes. -/
inductive Attains (order : HashOrder) (goal : BuiltFormula) (library : ActionLibrary)
    (policy : Policy) : ℕ → State → Prop
  | goal {n : ℕ} {s : State} (h : s.valuate goal = true) : Attains order goal library policy n s
  | entry {n : ℕ} {s : State} {a : Action} (hentry : (s, a) ∈ policy.policy)
    (hlib : a ∈ library.actions)
    (happ : isActionApplicable (performPerspectiveShift order s a.owner) a = true)
    (hvalid : isValidState (performProductUpdate (performPerspectiveShift order s a.owner) a) =
      true)
    (hout : ∀ t ∈ outcomes order s a, Attains order goal library policy n t) :
    Attains order goal library policy (n + 1) s

/-- The number of states in the game tree that `n` actions can reach. -/
def treeSize (order : HashOrder) (goal : BuiltFormula) (library : ActionLibrary) : ℕ → State → ℕ
  | 0, _ => 1
  | n + 1, s =>
    if s.valuate goal then 1
    else 1 + ((moves order library.actions s).map fun move ↦
      ((splitIntoGlobalStates move.2 move.1.owner).map (treeSize order goal library n)).sum).sum

variable {order : HashOrder} {goal : BuiltFormula} {library : ActionLibrary} {init : State}
  {g g' : Graph} {depth : ℕ → ℕ} {level n : ℕ} {policy : Policy}

/-! ### The level of the search -/

/-- The open nodes are the undecided leaves, so everything above the front is decided. -/
theorem Layers.decidedAbove (h : Layers g depth level) (hr : Ready order goal library init g)
    {front : ℕ} {rest : List ℕ} (hf : g.frontier = front :: rest) :
    g.tree.DecidedAbove depth (depth front) := by
  intro i hi hor hleaf hu
  have hmem := (hr.searching.mem_frontier hi (type_eq_or_of_ne hor) hleaf hu).resolve_right id
  exact (hf ▸ h.layered).front_le (hf ▸ hmem)

/-- **The front is not too deep**: a task that has a verdict within `n` actions is decided before a
node more than `n` actions deep comes to the front. -/
theorem Layers.front_le (h : Layers g depth level) (hr : Ready order goal library init g)
    {front : ℕ} {rest : List ℕ} (hf : g.frontier = front :: rest)
    (hn : SolvableIn order goal library n init ∨ RefutableIn order goal library n init) :
    depth front ≤ n := by
  by_contra hlt
  have hs := hr.searching
  have hlevel : depth 0 + n < depth front := by
    rw [h.depth_root]
    omega
  rcases hn with hsolv | href
  · rw [← hs.root_state] at hsolv
    exact hr.root_unmarked _ (hs.exact.solved_of_solvableIn hs.represents h.levels
      (h.decidedAbove hr hf) hs.root_lt hs.not_isAnd_root hlevel hsolv)
  · rw [← hs.root_state] at href
    exact hr.root_unmarked _ (hs.exact.dead_of_refutableIn hs.represents h.levels
      (h.decidedAbove hr hf) hs.root_lt hs.not_isAnd_root hlevel href)

/-- A graph a policy is extracted from, whose solved leaves are at the level at most, where no
shorter strategy exists. -/
structure LayeredSolution (order : HashOrder) (goal : BuiltFormula) (library : ActionLibrary)
    (init : State) (g : Graph) (depth : ℕ → ℕ) (level : ℕ) : Prop where
  solved : SolvedGraph order goal library init g
  layers : Layers g depth level
  level_le {n : ℕ} (hn : SolvableIn order goal library n init) : level ≤ n

/-- The levels of a search between two rounds. -/
def InLayers (order : HashOrder) (goal : BuiltFormula) (library : ActionLibrary) (init : State)
    (g : Graph) : Prop :=
  Ready order goal library init g ∧ ∃ depth level, Layers g depth level

theorem layers_initialGraph : Layers (initialGraph init) (fun _ ↦ 0) 0 where
  levels := by
    have hchildren : ∀ i, ((initialGraph init).getNode i).children = [] := by
      intro i
      cases i <;> rfl
    refine ⟨fun _ _ _ ↦ rfl, fun {i c} _ _ hc ↦ ?_⟩
    change c ∈ ((initialGraph init).getNode i).children at hc
    rw [hchildren] at hc
    exact absurd hc List.not_mem_nil
  depth_root := rfl
  layered := ⟨List.pairwise_singleton _ _, fun _ ↦ ⟨le_rfl, Nat.zero_le _⟩⟩
  marked_le _ _ _ := le_rfl

/-- **What is extracted** comes from a graph whose levels end where strategies begin. -/
theorem exists_layeredSolution {fuel : ℕ}
    (h : findPolicy order goal library init fuel = some policy) (hs : policy.isSolved = true) :
    ∃ g depth level, LayeredSolution order goal library init g depth level ∧
      extractPolicy g = some policy := by
  have hpost := @BoundedLoop.run_induct _ _ (findPolicyStep order goal library)
    (InLayers order goal library init)
    (fun r ↦ r = some ⟨false, []⟩ ∨ ∃ g depth level,
      LayeredSolution order goal library init g depth level ∧ extractPolicy g = r)
    ?_ ?_ fuel _ _ ⟨ready_initialGraph, _, _, layers_initialGraph⟩ (Option.join_eq_some_iff.1 h)
  · refine hpost.resolve_left fun hrefused ↦ ?_
    rw [Option.some.inj hrefused] at hs
    exact Bool.false_ne_true hs
  · rintro g g' ⟨hr, depth, level, hl⟩ hb
    obtain ⟨front, rest, hf⟩ := List.exists_cons_of_ne_nil hr.frontier_ne_nil
    obtain ⟨g₁, depth₁, hs₁, hl₁, -, hend⟩ := hl.round (w := fun _ _ ↦ 0) hr hf
    rw [hb] at hend
    cases hend with
    | continues hu => exact ⟨⟨hs₁, hu⟩, depth₁, depth front, hl₁⟩
  · rintro g r ⟨hr, depth, level, hl⟩ hb
    obtain ⟨front, rest, hf⟩ := List.exists_cons_of_ne_nil hr.frontier_ne_nil
    obtain ⟨g₁, depth₁, hs₁, hl₁, -, hend⟩ := hl.round (w := fun _ _ ↦ 0) hr hf
    rw [hb] at hend
    cases hend with
    | extracts hroot =>
      exact Or.inr ⟨g₁, depth₁, depth front, ⟨⟨hs₁, hroot⟩, hl₁, fun hn ↦
        hl.front_le hr hf (Or.inl hn)⟩, rfl⟩
    | refuses => exact Or.inl rfl

/-! ### The plan -/

/-- **The plan is no deeper than the solved leaves**, by induction from the youngest node back. -/
theorem LayeredSolution.attains (h : LayeredSolution order goal library init g depth level)
    (hext : extractPolicy g = some policy) :
    ∀ k i : ℕ, g.nodes.length - i = k → OnPlan g i → (g.getNode i).type = .or →
      depth i ≤ level ∧
        Attains order goal library policy (level - depth i) (g.getNode i).state := by
  intro k
  induction k using Nat.strong_induction_on with
  | _ k ih =>
    intro i hk hi hor
    have hs := h.solved.searching
    obtain ⟨hlt, hsolved⟩ := h.solved.solved_of_onPlan hi
    have hna : ¬ g.tree.isAnd i := fun hand ↦ NodeType.noConfusion (hor.symm.trans hand)
    rcases hgoal : (g.getNode i).state.valuate goal with _ | _
    · obtain ⟨c, hstep, hand⟩ := h.solved.exists_planStep hi hor hgoal
      have hc : OnPlan g c := hi.tail hstep
      have hci := (planChildren_sublist g i).subset hstep
      obtain ⟨hcs, -, hcne, hgrand⟩ := hs.exact.grandchild h.layers.levels hlt hna hci
      have hentry := (h.solved.mem_policy_iff hext _).2 ⟨c, hc, hand, rfl⟩
      obtain ⟨hlib, happ, hvalid, hne, -⟩ := h.solved.entry_spec hc hand
      have hparent : (g.getNode c).parent = i := (hs.linked.child hlt hci).2
      -- every outcome is the state of a child, which is on the plan, one level below
      have hout : ∀ t ∈ outcomes order (g.getNode i).state (g.getNode c).actionFromParent,
          depth i + 1 ≤ level ∧
            Attains order goal library policy (level - (depth i + 1)) t := fun t ht ↦ by
        obtain ⟨j, -, hj, -, happly⟩ := h.solved.exists_parent hc hand
        obtain rfl : i = j := hparent.symm.trans hj
        rw [outcomes, ← (applyAction_eq_some_iff.1 happly).2.2, ← hs.split hcs hand] at ht
        obtain ⟨d, hd, rfl⟩ := List.mem_map.1 ht
        obtain ⟨hds, hid, hdor, hdepth⟩ := hgrand d hd
        have hdsolved := (hs.exact.sound hcs hcne (h.solved.solved_of_onPlan hc).2).1
          (iff_of_true rfl hand) d hd
        have hdplan := hc.tail (mem_planChildren_and hand hd hdsolved)
        change d < g.nodes.length at hds
        rw [← hdepth]
        exact ih (g.nodes.length - d) (by omega) d rfl hdplan (type_eq_or_of_ne hdor)
      simp only [planEntry, hparent] at hentry happ hvalid hne hlib
      obtain ⟨t, ht⟩ := List.exists_mem_of_ne_nil _ hne
      have hdeep := (hout t ht).1
      refine ⟨Nat.le_of_succ_le hdeep, ?_⟩
      rw [show level - depth i = level - (depth i + 1) + 1 by omega]
      exact .entry hentry hlib happ hvalid fun t ht ↦ (hout t ht).2
    · refine ⟨?_, .goal hgoal⟩
      have hleaf : (g.getNode i).children = [] := not_not.1 fun hne ↦
        Bool.false_ne_true ((hs.expanded hlt hor hne id).1.symm.trans hgoal)
      exact h.layers.marked_le hor hleaf hsolved

theorem Attains.mono {m : ℕ} {s : State} (h : Attains order goal library policy n s)
    (hle : n ≤ m) : Attains order goal library policy m s := by
  induction h generalizing m with
  | goal h => exact .goal h
  | entry hentry hlib happ hvalid _ ih =>
    obtain ⟨m, rfl⟩ : ∃ k, m = k + 1 := ⟨m - 1, by omega⟩
    exact .entry hentry hlib happ hvalid fun t ht ↦ ih t ht (Nat.le_of_succ_le_succ hle)

/-- A policy that attains the goal is a strategy. -/
theorem Attains.solvableIn {s : State} (h : Attains order goal library policy n s) :
    SolvableIn order goal library n s := by
  induction h with
  | goal h => exact AndOr.Problem.solvableIn_of_goal h
  | entry hentry hlib happ hvalid _ ih =>
    exact Or.inr ⟨_, ⟨_, hlib, happ, hvalid, rfl⟩, ih⟩

/-- A solved policy attains the goal within the length of any strategy. -/
theorem attains_of_solvableIn {fuel : ℕ}
    (h : findPolicy order goal library init fuel = some policy)
    (hn : SolvableIn order goal library n init) : Attains order goal library policy n init := by
  have hs : policy.isSolved = true := by
    rcases findPolicy_cases h with ⟨g, hg, hext⟩ | ⟨-, hnot⟩
    · exact hg.isSolved hext
    · exact absurd hn.solvable hnot
  obtain ⟨g, depth, level, hg, hext⟩ := exists_layeredSolution h hs
  have hroot := (hg.attains hext _ 0 rfl hg.solved.onPlan_zero
    hg.solved.searching.root_type).2
  rw [hg.solved.searching.root_state] at hroot
  exact hroot.mono ((Nat.sub_le _ _).trans (hg.level_le hn))

/-- **The shortest plan.** The entries of the policy that is returned lead to the goal within `n`
actions in the worst case exactly when some strategy does, for every `n`. -/
theorem findPolicy_shortest (order : HashOrder) (goal : BuiltFormula) (library : ActionLibrary)
    (init : State) (fuel : ℕ) (policy : Policy)
    (h : findPolicy order goal library init fuel = some policy) (n : ℕ) :
    Attains order goal library policy n init ↔ SolvableIn order goal library n init :=
  ⟨Attains.solvableIn, attains_of_solvableIn h⟩

theorem OneStep.solvableIn : SolvableIn HashOrder.insertion (BuiltFormula.prop "p")
    ⟨[OneStep.action]⟩ 1 (State.ofPropositions ∅) := by
  refine Or.inr ⟨_, ⟨OneStep.action, List.mem_singleton.2 rfl, by decide +kernel, by decide +kernel,
    rfl⟩, ?_⟩
  have hall : ∀ t ∈ outcomes HashOrder.insertion (State.ofPropositions ∅) OneStep.action,
    t.valuate (BuiltFormula.prop "p") = true := by decide +kernel
  exact hall

theorem findPolicy_shortest_oneStep :
    SolvableIn HashOrder.insertion (BuiltFormula.prop "p") ⟨[OneStep.action]⟩ 1
        (State.ofPropositions ∅) ∧
      Attains HashOrder.insertion (BuiltFormula.prop "p") ⟨[OneStep.action]⟩ OneStep.policy 1
        (State.ofPropositions ∅) ∧
      ¬ Attains HashOrder.insertion (BuiltFormula.prop "p") ⟨[OneStep.action]⟩ OneStep.policy 0
        (State.ofPropositions ∅) :=
  ⟨OneStep.solvableIn,
    (findPolicy_shortest _ _ _ _ 2 _ (by decide +kernel) 1).2 OneStep.solvableIn,
    fun h ↦ absurd ((findPolicy_shortest _ _ _ _ 2 _ (by decide +kernel) 0).1 h)
      (by change ¬ (State.ofPropositions ∅).valuate _ = true; decide +kernel)⟩

/-! ### Executions -/

/-- **An execution follows the entries**, one action of the bound at every step. -/
theorem Attains.run (hwf : init.WellFormed) (h : Attains order goal library policy n init)
    {m : ℕ} {s : State} (hrun : RunsTo order goal policy (OneAction order policy) init m s) :
    m ≤ n ∧ s.WellFormed ∧ Attains order goal library policy (n - m) s := by
  induction hrun with
  | start => exact ⟨Nat.zero_le n, hwf, h⟩
  | @step m s t _ hone hst ih =>
    obtain ⟨hle, hswf, hs⟩ := ih
    obtain ⟨hng, a, hpres, ht⟩ := hst
    generalize hk : n - m = k at hs
    cases hs with
    | goal hgoal => exact absurd (hng.symm.trans hgoal) Bool.false_ne_true
    | @entry k _ b hentry hlib happ hvalid hout =>
      have hb : policy.getAction order s = (b, true) := getAction_eq_of_mem hone hswf hentry
      obtain rfl : a = b := congrArg Prod.fst (hpres.1.symm.trans hb)
      refine ⟨by omega, ?_, ?_⟩
      · exact wellFormed_of_mem_splitIntoGlobalStates (wellFormed_performProductUpdate _ _) ht
      · rw [show n - (m + 1) = k by omega]
        exact hout t ht

/-- **Executions take no detour.** An execution of the policy that is returned which finds one
action at every step reaches the goal within the length of any strategy. -/
theorem runsTo_le_of_solvableIn (order : HashOrder) (goal : BuiltFormula)
    (library : ActionLibrary) (init : State) (fuel : ℕ) (policy : Policy) (n : ℕ)
    (hwf : init.WellFormed) (h : findPolicy order goal library init fuel = some policy)
    (hn : SolvableIn order goal library n init) (m : ℕ) (s : State)
    (hrun : RunsTo order goal policy (OneAction order policy) init m s) :
    m ≤ n ∧ (m = n → s.valuate goal = true) := by
  obtain ⟨hle, -, hs⟩ := (attains_of_solvableIn h hn).run hwf hrun
  refine ⟨hle, ?_⟩
  rintro rfl
  rw [Nat.sub_self] at hs
  cases hs with
  | goal hgoal => exact hgoal

/-- The state after the only action. -/
def OneStep.after : State :=
  (outcomes HashOrder.insertion (State.ofPropositions ∅) OneStep.action).getD 0
    (State.ofPropositions ∅)

theorem OneStep.runsTo : RunsTo HashOrder.insertion (BuiltFormula.prop "p") OneStep.policy
    (OneAction HashOrder.insertion OneStep.policy) (State.ofPropositions ∅) 1 OneStep.after := by
  refine RunsTo.start.step (fun e he e' he' _ _ ↦ ?_) ⟨by decide +kernel, OneStep.action,
    ⟨by decide +kernel, by decide +kernel⟩, by decide +kernel⟩
  rw [List.mem_singleton.1 he, List.mem_singleton.1 he']

theorem runsTo_le_of_solvableIn_oneStep :
    RunsTo HashOrder.insertion (BuiltFormula.prop "p") OneStep.policy
        (OneAction HashOrder.insertion OneStep.policy) (State.ofPropositions ∅) 1 OneStep.after ∧
      OneStep.after.valuate (BuiltFormula.prop "p") = true :=
  ⟨OneStep.runsTo, (runsTo_le_of_solvableIn _ _ ⟨[OneStep.action]⟩ _ 2 _ 1 (by decide)
    (by decide +kernel) OneStep.solvableIn 1 _ OneStep.runsTo).2 rfl⟩

/-! ### The rounds of the search -/

/-- The weight of a node: the part of its game tree that is not too deep. -/
def depthWeight (order : HashOrder) (goal : BuiltFormula) (library : ActionLibrary) (n k : ℕ)
    (s : State) : ℕ :=
  if k ≤ n then treeSize order goal library (n - k) s else 0

/-- A node weighs one more than the outcomes of its actions. -/
theorem depthWeight_eq {k : ℕ} (hk : k ≤ n) (s : State) :
    depthWeight order goal library n k s =
      spawnedWeight order goal library (depthWeight order goal library n) k s + 1 := by
  rw [depthWeight, if_pos hk, spawnedWeight]
  rcases Nat.eq_or_lt_of_le hk with rfl | hlt
  · -- the outcomes are too deep
    have hzero : ∀ move, outcomeWeight (depthWeight order goal library k) k move = 0 := by
      intro move
      refine List.sum_eq_zero fun x hx ↦ ?_
      obtain ⟨t, -, rfl⟩ := List.mem_map.1 hx
      exact if_neg (Nat.not_succ_le_self k)
    rw [Nat.sub_self, treeSize, List.map_congr_left fun move _ ↦ hzero move, List.map_const',
      List.sum_replicate]
    simp
  · have hmap : outcomeWeight (depthWeight order goal library n) k = fun move ↦
        ((splitIntoGlobalStates move.2 move.1.owner).map
          (treeSize order goal library (n - (k + 1)))).sum := by
      funext move
      have hw : depthWeight order goal library n (k + 1) =
          treeSize order goal library (n - (k + 1)) := funext fun t ↦ if_pos hlt
      rw [outcomeWeight, hw]
    rw [hmap, show n - k = n - (k + 1) + 1 by omega, treeSize]
    split_ifs
    · rfl
    · rw [Nat.add_comm]

/-- The search at a time when the open nodes that are not too deep weigh `k + 1`. -/
def WeighsIn (order : HashOrder) (goal : BuiltFormula) (library : ActionLibrary) (init : State)
    (n k : ℕ) (g : Graph) : Prop :=
  Ready order goal library init g ∧ ∃ depth level, Layers g depth level ∧
    frontierWeight (depthWeight order goal library n) depth g = k + 1

/-- **Every round takes one** off the weight. -/
theorem WeighsIn.next {k : ℕ} (h : WeighsIn order goal library init n k g)
    (hn : SolvableIn order goal library n init ∨ RefutableIn order goal library n init)
    (hb : findPolicyStep order goal library g = Sum.inl g') :
    ∃ k' < k, WeighsIn order goal library init n k' g' := by
  obtain ⟨hr, depth, level, hl, hw⟩ := h
  obtain ⟨front, rest, hf⟩ := List.exists_cons_of_ne_nil hr.frontier_ne_nil
  have hle := hl.front_le hr hf hn
  obtain ⟨g₁, depth₁, hs₁, hl₁, hw₁, hend⟩ :=
    hl.round (w := depthWeight order goal library n) hr hf
  rw [hb] at hend
  cases hend with
  | continues hu =>
    have hr' : Ready order goal library init g' := ⟨hs₁, hu⟩
    have hw' : frontierWeight (depthWeight order goal library n) depth₁ g' = k := by
      have hrest : frontierWeight (depthWeight order goal library n) depth
          { g with frontier := rest } = (rest.map fun i ↦
            depthWeight order goal library n (depth i) (g.getNode i).state).sum := rfl
      rw [frontierWeight, hf, List.map_cons, List.sum_cons, depthWeight_eq hle] at hw
      omega
    -- the next front weighs something, so the weight is still positive
    obtain ⟨front', rest', hf'⟩ := List.exists_cons_of_ne_nil hr'.frontier_ne_nil
    have hpos := hw'
    rw [frontierWeight, hf', List.map_cons, List.sum_cons,
      depthWeight_eq (hl₁.front_le hr' hf' hn)] at hpos
    exact ⟨k - 1, by omega, hr', depth₁, _, hl₁, by omega⟩

/-- **How long the search takes.** A task with a strategy or a refutation of `n` actions is decided
within as many rounds as its game tree has states down to that depth. -/
theorem findPolicy_within_treeSize (order : HashOrder) (goal : BuiltFormula)
    (library : ActionLibrary) (init : State) (n fuel : ℕ)
    (hn : SolvableIn order goal library n init ∨ RefutableIn order goal library n init)
    (hfuel : treeSize order goal library n init ≤ fuel) :
    ∃ policy, findPolicy order goal library init fuel = some policy ∧
      (policy.isSolved = true ↔ SolvableIn order goal library n init) := by
  have hpos : depthWeight order goal library n 0 init =
      spawnedWeight order goal library (depthWeight order goal library n) 0 init + 1 :=
    depthWeight_eq (Nat.zero_le n) init
  have htree : depthWeight order goal library n 0 init = treeSize order goal library n init :=
    if_pos (Nat.zero_le n)
  have hstart : WeighsIn order goal library init n (treeSize order goal library n init - 1)
      (initialGraph init) := by
    refine ⟨ready_initialGraph, _, _, layers_initialGraph, ?_⟩
    show ([depthWeight order goal library n 0 init]).sum = _
    rw [List.sum_singleton]
    omega
  obtain ⟨r, hrun, policy, rfl⟩ := @BoundedLoop.run_within _ _ (findPolicyStep order goal library)
    (WeighsIn order goal library init n) (fun r ↦ ∃ policy, r = some policy)
    (fun h hb ↦ h.next hn hb) (fun h hb ↦ h.1.returns hb) _ fuel _ hstart (by omega)
  have hfind : findPolicy order goal library init fuel = some policy :=
    Option.join_eq_some_iff.2 hrun
  refine ⟨policy, hfind, fun hs ↦ ?_, fun hsolv ↦ ?_⟩
  · rcases hn with hsolv | href
    · exact hsolv
    · rcases findPolicy_cases hfind with ⟨g, hg, -⟩ | ⟨rfl, -⟩
      · exact absurd (hg.searching.solvable_iff.1 hg.root_solved) href.refutable.not_solvable
      · exact absurd hs Bool.false_ne_true
  · rcases findPolicy_cases hfind with ⟨g, hg, hext⟩ | ⟨-, hnot⟩
    · exact hg.isSolved hext
    · exact absurd hsolv.solvable hnot

theorem findPolicy_within_treeSize_oneStep :
    treeSize HashOrder.insertion (BuiltFormula.prop "p") ⟨[OneStep.action]⟩ 1
        (State.ofPropositions ∅) = 2 ∧
      ∃ policy, findPolicy HashOrder.insertion (BuiltFormula.prop "p") ⟨[OneStep.action]⟩
          (State.ofPropositions ∅) 2 = some policy ∧
        (policy.isSolved = true ↔ SolvableIn HashOrder.insertion (BuiltFormula.prop "p")
          ⟨[OneStep.action]⟩ 1 (State.ofPropositions ∅)) :=
  ⟨by decide +kernel, findPolicy_within_treeSize _ _ _ _ 1 2 (Or.inl OneStep.solvableIn)
    (by decide +kernel)⟩

end Del
