import R2DTU.Planner.Verdict

/-!
# Executing a policy

An execution asks the policy for an action, performs it from its owner's perspective and goes on
with any one of the global states that result, until the goal holds.

The search tree keeps an execution on plan as long as the policy returns the action of the node the
execution is at: node ids then increase from state to state, so the execution is finite and ends at
a solved leaf. But entries are looked up by bisimilarity alone. When two nodes of the plan have
bisimilar states and different actions, the entry found may belong to the other node, and an
execution can be led round in a circle (`findPolicy_circle`).

`OneAction` excludes this at a state, and `endsInGoal_of_oneAction` is the result for the executions
that meet it at every step. What the policy promises without any condition is `findPolicy_closed`:
the states of its entries are closed under their own actions, up to goal states.
-/

namespace Del

/-- The global states an action can lead to. -/
def outcomes (order : HashOrder) (s : State) (a : Action) : List State :=
  splitIntoGlobalStates (performProductUpdate (performPerspectiveShift order s a.owner) a) a.owner

/-- The policy has an action for the state, and it applies there. -/
def Prescribes (order : HashOrder) (policy : Policy) (s : State) (a : Action) : Prop :=
  policy.getAction order s = (a, true) ∧
    isActionApplicable (performPerspectiveShift order s a.owner) a = true

/-- One step of an execution. -/
def ExecStep (order : HashOrder) (goal : BuiltFormula) (policy : Policy) (s t : State) : Prop :=
  s.valuate goal = false ∧ ∃ a, Prescribes order policy s a ∧ t ∈ outcomes order s a

/-- `n` steps of an execution lead from `init` to the state, and `C` holds before each of them. -/
inductive RunsTo (order : HashOrder) (goal : BuiltFormula) (policy : Policy) (C : State → Prop)
    (init : State) : ℕ → State → Prop
  | start : RunsTo order goal policy C init 0 init
  | step {n : ℕ} {s t : State} (h : RunsTo order goal policy C init n s) (hC : C s)
    (hst : ExecStep order goal policy s t) : RunsTo order goal policy C init (n + 1) t

/-- Executions that meet `C` at every step are finite and end in the goal: their lengths have a
bound, and a state they reach satisfies the goal or has a next step. -/
def EndsInGoal (order : HashOrder) (goal : BuiltFormula) (policy : Policy) (C : State → Prop)
    (init : State) : Prop :=
  (∃ bound, ∀ n s, RunsTo order goal policy C init n s → n ≤ bound) ∧
    ∀ n s, RunsTo order goal policy C init n s → C s →
      s.valuate goal = true ∨ ∃ a, Prescribes order policy s a ∧ outcomes order s a ≠ []

/-- All entries of the policy that are bisimilar to the state have one action. -/
def OneAction (order : HashOrder) (policy : Policy) (s : State) : Prop :=
  ∀ e ∈ policy.policy, ∀ e' ∈ policy.policy, areStatesBisimilar order e.1 s = true →
    areStatesBisimilar order e'.1 s = true → e.2 = e'.2

/-- What a state needs to be covered by the policy: it is a goal, or the state of an entry. -/
def Covered (goal : BuiltFormula) (policy : Policy) (s : State) : Prop :=
  s.valuate goal = true ∨ ∃ e ∈ policy.policy, e.1 = s

section Plan

variable {order : HashOrder} {goal : BuiltFormula} {library : ActionLibrary} {init : State}
  {g : Graph} {policy : Policy}

/-- With one action among the matching entries, the policy returns the action of any of them. -/
theorem getAction_eq_of_mem {s : State} {a : Action} (hone : OneAction order policy s)
    (hs : s.WellFormed) (h : (s, a) ∈ policy.policy) : policy.getAction order s = (a, true) := by
  have hself := areStatesBisimilar_self order hs
  unfold Policy.getAction
  cases hfind : policy.policy.find? fun entry ↦ areStatesBisimilar order entry.1 s with
  | none =>
    have hnone := List.find?_eq_none.1 hfind (s, a) h
    exact absurd hself hnone
  | some entry =>
    have hmatch := List.find?_some hfind
    have hmem := List.mem_of_find?_eq_some hfind
    show (entry.2, true) = (a, true)
    rw [hone entry hmem (s, a) h hmatch hself]

/-- Nodes of the plan are solved nodes of the graph. -/
theorem SolvedGraph.solved_of_onPlan (h : SolvedGraph order goal library init g) {i : ℕ}
    (hi : OnPlan g i) : i < g.nodes.length ∧ g.tree.marked .solved i := by
  induction hi with
  | refl =>
    rw [h.searching.root_eq]
    exact ⟨h.searching.root_lt, h.root_solved⟩
  | tail _ hstep ih =>
    have hchild := (planChildren_sublist g _).subset hstep
    exact ⟨(h.searching.exact.child_lt ih.1 hchild).2, solved_of_mem_planChildren hstep⟩

theorem type_eq_or_of_ne {i : ℕ} (h : ¬ g.tree.isAnd i) : (g.getNode i).type = .or := by
  cases htype : (g.getNode i).type with
  | or => rfl
  | and => exact absurd htype h

/-- The plan goes on below an Or node that is not a goal, because a solved leaf is one. -/
theorem SolvedGraph.exists_planStep (h : SolvedGraph order goal library init g) {i : ℕ}
    (hi : OnPlan g i) (hor : (g.getNode i).type = .or)
    (hng : (g.getNode i).state.valuate goal = false) :
    ∃ d, PlanStep g i d ∧ (g.getNode d).type = .and := by
  have hs := h.searching
  obtain ⟨hlt, hsolved⟩ := h.solved_of_onPlan hi
  have hna : ¬ g.tree.isAnd i := fun hand ↦ NodeType.noConfusion (hor.symm.trans hand)
  have hne : (g.getNode i).children ≠ [] := fun hnil ↦
    Bool.false_ne_true (hng.symm.trans (hs.goal_of_solved hlt hor hnil hsolved))
  obtain ⟨c, hc, hcs⟩ := (hs.exact.sound hlt hne hsolved).2 fun hall ↦ hna (hall.1 rfl)
  obtain ⟨d, hd⟩ := exists_planChildren_or hor hc hcs
  have hdc := (planChildren_sublist g i).subset hd
  exact ⟨d, hd, (hs.exact.child_isAnd hlt hdc).2 hna⟩

/-- An And node of the plan hangs below an Or node of the plan, whose state it produces its own
state from. -/
theorem SolvedGraph.exists_parent (h : SolvedGraph order goal library init g) {c : ℕ}
    (hc : OnPlan g c) (hand : (g.getNode c).type = .and) :
    ∃ i, i < c ∧ (g.getNode c).parent = i ∧
      (g.getNode c).actionFromParent ∈ library.actions ∧
      applyAction order (g.getNode i).state (g.getNode c).actionFromParent =
        some (g.getNode c).state := by
  have hs := h.searching
  rcases Relation.ReflTransGen.cases_tail hc with rfl | ⟨i, hi, hstep⟩
  · rw [hs.root_eq, hs.root_type] at hand
    exact NodeType.noConfusion hand
  · have hci := (planChildren_sublist g i).subset hstep
    obtain ⟨hlt, -⟩ := h.solved_of_onPlan hi
    have hor := type_eq_or_of_ne ((hs.exact.child_isAnd hlt hci).1 hand)
    have hmem : ((g.getNode c).actionFromParent, (g.getNode c).state) ∈ g.childMoves i :=
      List.mem_map.2 ⟨c, hci, rfl⟩
    rw [(hs.expanded hlt hor (List.ne_nil_of_mem hci) id).2] at hmem
    exact ⟨i, (hs.exact.child_lt hlt hci).1, (hs.linked.child hlt hci).2, mem_moves.1 hmem⟩

/-- **What an entry of the policy promises**: its action is one of the library and applies in its
state with a valid product, and every outcome is the state of a younger Or node of the plan. -/
theorem SolvedGraph.entry_spec (h : SolvedGraph order goal library init g) {c : ℕ}
    (hc : OnPlan g c) (hand : (g.getNode c).type = .and) :
    (planEntry g c).2 ∈ library.actions ∧
      isActionApplicable (performPerspectiveShift order (planEntry g c).1 (planEntry g c).2.owner)
        (planEntry g c).2 = true ∧
      isValidState (performProductUpdate (performPerspectiveShift order (planEntry g c).1
        (planEntry g c).2.owner) (planEntry g c).2) = true ∧
      outcomes order (planEntry g c).1 (planEntry g c).2 ≠ [] ∧
      ∀ t ∈ outcomes order (planEntry g c).1 (planEntry g c).2,
        t.WellFormed ∧ ∃ d, OnPlan g d ∧ c < d ∧ (g.getNode d).type = .or ∧
          (g.getNode d).state = t := by
  have hs := h.searching
  obtain ⟨i, -, hparent, hlib, happly⟩ := h.exists_parent hc hand
  obtain ⟨hlt, hsolved⟩ := h.solved_of_onPlan hc
  obtain ⟨happ, hvalid, hproduct⟩ := applyAction_eq_some_iff.1 happly
  have hout : outcomes order (planEntry g c).1 (planEntry g c).2 =
      splitIntoGlobalStates (g.getNode c).state (g.getNode c).actionFromParent.owner := by
    rw [planEntry, hparent, hproduct]
    rfl
  refine ⟨hlib, by rw [planEntry, hparent]; exact happ, by rw [planEntry, hparent]; exact hvalid,
    ?_, fun t ht ↦ ⟨?_, ?_⟩⟩
  · rw [hout]
    exact splitIntoGlobalStates_ne_nil happly
  · exact wellFormed_of_mem_splitIntoGlobalStates (wellFormed_performProductUpdate _ _) ht
  · -- a solved And node has solved children only, and all of them are on the plan
    rw [hout, ← hs.split hlt hand] at ht
    obtain ⟨d, hd, rfl⟩ := List.mem_map.1 ht
    have hall := (hs.exact.sound hlt (hs.exact.and_ne_nil hlt hand) hsolved).1
      (show g.tree.NeedsAll .solved c from ⟨fun _ ↦ hand, fun _ ↦ rfl⟩)
    have hor := type_eq_or_of_ne fun hda ↦ (hs.exact.child_isAnd hlt hd).1 hda hand
    exact ⟨d, hc.tail (mem_planChildren_and hand hd (hall d hd)), (hs.exact.child_lt hlt hd).1, hor,
      rfl⟩

/-- The entries of an extracted policy. -/
theorem SolvedGraph.mem_policy_iff (h : SolvedGraph order goal library init g)
    (hext : extractPolicy g = some policy) (e : State × Action) :
    e ∈ policy.policy ↔ ∃ c, OnPlan g c ∧ (g.getNode c).type = .and ∧ planEntry g c = e := by
  obtain ⟨policy', hext', -, hentries⟩ := extractPolicy_spec h.searching.linked h.searching.exact
    (h.searching.root_eq ▸ h.searching.root_lt)
  obtain rfl := Option.some.inj (hext.symm.trans hext')
  exact hentries e

/-- An Or node of the plan that is not a goal has an entry, which belongs to a younger node. -/
theorem SolvedGraph.exists_entry (h : SolvedGraph order goal library init g)
    (hext : extractPolicy g = some policy) {i : ℕ} (hi : OnPlan g i)
    (hor : (g.getNode i).type = .or) (hng : (g.getNode i).state.valuate goal = false) :
    ∃ c, OnPlan g c ∧ i < c ∧ (g.getNode c).type = .and ∧ planEntry g c ∈ policy.policy ∧
      (planEntry g c).1 = (g.getNode i).state := by
  obtain ⟨c, hstep, hand⟩ := h.exists_planStep hi hor hng
  have hc : OnPlan g c := hi.tail hstep
  have hci := (planChildren_sublist g i).subset hstep
  obtain ⟨hlt, -⟩ := h.solved_of_onPlan hi
  refine ⟨c, hc, (h.searching.exact.child_lt hlt hci).1, hand,
    (h.mem_policy_iff hext _).2 ⟨c, hc, hand, rfl⟩, ?_⟩
  rw [planEntry, (h.searching.linked.child hlt hci).2]

theorem SolvedGraph.covered (h : SolvedGraph order goal library init g)
    (hext : extractPolicy g = some policy) {i : ℕ} (hi : OnPlan g i)
    (hor : (g.getNode i).type = .or) : Covered goal policy (g.getNode i).state := by
  rcases hgoal : (g.getNode i).state.valuate goal with _ | _
  · obtain ⟨c, -, -, -, hentry, hstate⟩ := h.exists_entry hext hi hor hgoal
    exact Or.inr ⟨_, hentry, hstate⟩
  · exact Or.inl hgoal

theorem SolvedGraph.onPlan_zero (h : SolvedGraph order goal library init g) : OnPlan g 0 := by
  rw [← h.searching.root_eq]
  exact .refl

/-- A solved policy was extracted from a solved graph. -/
theorem exists_solvedGraph {fuel : ℕ} (h : findPolicy order goal library init fuel = some policy)
    (hs : policy.isSolved = true) :
    ∃ g, SolvedGraph order goal library init g ∧ extractPolicy g = some policy := by
  refine (findPolicy_cases h).resolve_right ?_
  rintro ⟨rfl, -⟩
  exact Bool.false_ne_true hs

/-- **Where the policy sends an execution** that is at an Or node of the plan: along the plan. -/
theorem SolvedGraph.prescribes (h : SolvedGraph order goal library init g)
    (hext : extractPolicy g = some policy) {i : ℕ} (hi : OnPlan g i)
    (hor : (g.getNode i).type = .or) (hwf : (g.getNode i).state.WellFormed)
    (hone : OneAction order policy (g.getNode i).state)
    (hng : (g.getNode i).state.valuate goal = false) :
    ∃ a, Prescribes order policy (g.getNode i).state a ∧
      outcomes order (g.getNode i).state a ≠ [] ∧
      ∀ t ∈ outcomes order (g.getNode i).state a, t.WellFormed ∧
        ∃ d, OnPlan g d ∧ i < d ∧ (g.getNode d).type = .or ∧ (g.getNode d).state = t := by
  obtain ⟨c, hc, hic, hand, hentry, hstate⟩ := h.exists_entry hext hi hor hng
  obtain ⟨-, happ, -, hne, hout⟩ := h.entry_spec hc hand
  rw [hstate] at happ hne hout
  refine ⟨(planEntry g c).2, ⟨getAction_eq_of_mem hone hwf (hstate ▸ hentry), happ⟩, hne,
    fun t ht ↦ ?_⟩
  obtain ⟨htwf, d, hd, hcd, hdor, hdt⟩ := hout t ht
  exact ⟨htwf, d, hd, hic.trans hcd, hdor, hdt⟩

/-- **An execution stays on the plan**: after `n` steps it is at an Or node of the plan, whose id is
at least `n`. -/
theorem SolvedGraph.run (h : SolvedGraph order goal library init g)
    (hext : extractPolicy g = some policy) (hwf : init.WellFormed) {n : ℕ} {s : State}
    (hrun : RunsTo order goal policy (OneAction order policy) init n s) :
    ∃ i, OnPlan g i ∧ n ≤ i ∧ (g.getNode i).type = .or ∧ (g.getNode i).state = s ∧
      s.WellFormed := by
  induction hrun with
  | start =>
    exact ⟨0, h.onPlan_zero, le_rfl, h.searching.root_type, h.searching.root_state, hwf⟩
  | step _ hone hst ih =>
    obtain ⟨i, hi, hni, hor, rfl, hwf⟩ := ih
    obtain ⟨hng, a, hpres, ht⟩ := hst
    obtain ⟨a', hpres', -, hnext⟩ := h.prescribes hext hi hor hwf hone hng
    obtain rfl : a = a' := congrArg Prod.fst (hpres.1.symm.trans hpres'.1)
    obtain ⟨htwf, d, hd, hid, hdor, hdt⟩ := hnext _ ht
    exact ⟨d, hd, by omega, hdor, hdt, htwf⟩

end Plan

/-- **Executions of a returned policy** that find one action at every step are finite and end in the
goal. -/
theorem endsInGoal_of_oneAction (order : HashOrder) (goal : BuiltFormula)
    (library : ActionLibrary) (init : State) (fuel : ℕ) (policy : Policy) (hwf : init.WellFormed)
    (h : findPolicy order goal library init fuel = some policy) (hs : policy.isSolved = true) :
    EndsInGoal order goal policy (OneAction order policy) init := by
  obtain ⟨g, hg, hext⟩ := exists_solvedGraph h hs
  refine ⟨⟨g.nodes.length, fun n s hrun ↦ ?_⟩, fun n s hrun hone ↦ ?_⟩
  · obtain ⟨i, hi, hni, -⟩ := hg.run hext hwf hrun
    exact hni.trans (hg.solved_of_onPlan hi).1.le
  · obtain ⟨i, hi, -, hor, rfl, hswf⟩ := hg.run hext hwf hrun
    rcases hgoal : (g.getNode i).state.valuate goal with _ | _
    · obtain ⟨a, hpres, hne, -⟩ := hg.prescribes hext hi hor hswf hone hgoal
      exact Or.inr ⟨a, hpres, hne⟩
    · exact Or.inl rfl

theorem endsInGoal_of_oneAction_oneStep :
    (State.ofPropositions ∅).WellFormed ∧
      findPolicy HashOrder.insertion (BuiltFormula.prop "p") ⟨[OneStep.action]⟩
        (State.ofPropositions ∅) 2 = some OneStep.policy ∧
      EndsInGoal HashOrder.insertion (BuiltFormula.prop "p") OneStep.policy
        (OneAction HashOrder.insertion OneStep.policy) (State.ofPropositions ∅) :=
  ⟨by decide, by decide +kernel, endsInGoal_of_oneAction _ _ ⟨[OneStep.action]⟩ _ 2 _ (by decide)
    (by decide +kernel) rfl⟩

/-! ### Closure -/

/-- **A solved policy is closed.** It covers the initial state, and every entry has an action of the
library that applies in its state with a valid product, all of whose outcomes it covers. -/
theorem findPolicy_closed (order : HashOrder) (goal : BuiltFormula) (library : ActionLibrary)
    (init : State) (fuel : ℕ) (policy : Policy)
    (h : findPolicy order goal library init fuel = some policy) (hs : policy.isSolved = true) :
    Covered goal policy init ∧ ∀ e ∈ policy.policy, e.2 ∈ library.actions ∧
      isActionApplicable (performPerspectiveShift order e.1 e.2.owner) e.2 = true ∧
      isValidState (performProductUpdate (performPerspectiveShift order e.1 e.2.owner) e.2) =
        true ∧
      ∀ t ∈ splitIntoGlobalStates
          (performProductUpdate (performPerspectiveShift order e.1 e.2.owner) e.2) e.2.owner,
        Covered goal policy t := by
  obtain ⟨g, hg, hext⟩ := exists_solvedGraph h hs
  refine ⟨?_, fun e he ↦ ?_⟩
  · have hroot := hg.covered hext hg.onPlan_zero hg.searching.root_type
    rwa [hg.searching.root_state] at hroot
  · obtain ⟨c, hc, hand, rfl⟩ := (hg.mem_policy_iff hext e).1 he
    obtain ⟨hlib, happ, hvalid, -, hout⟩ := hg.entry_spec hc hand
    refine ⟨hlib, happ, hvalid, fun t ht ↦ ?_⟩
    obtain ⟨-, d, hd, -, hor, rfl⟩ := hout t ht
    exact hg.covered hext hd hor

theorem findPolicy_closed_oneStep :
    findPolicy HashOrder.insertion (BuiltFormula.prop "p") ⟨[OneStep.action]⟩
        (State.ofPropositions ∅) 2 = some OneStep.policy ∧ OneStep.policy.isSolved = true ∧
      Covered (BuiltFormula.prop "p") OneStep.policy (State.ofPropositions ∅) :=
  ⟨by decide +kernel, rfl, (findPolicy_closed HashOrder.insertion _ ⟨[OneStep.action]⟩ _ 2
    OneStep.policy (by decide +kernel) rfl).1⟩

/-! ### A circle

From the state with `p` the goal is one action away, and from the one with `q` three. While the
search waits for the second, it solves the first several times over, once below an action that
changes nothing: that child is older than the one that adds the goal, and is extracted. -/

namespace Circle

/-- Two worlds, told apart by the only agent, both designated. -/
def init : State :=
  ⟨1, [⟨0, {"start", "p"}⟩, ⟨1, {"start", "q"}⟩], [0, 1], [[⟨0, 0⟩, ⟨1, 1⟩]]⟩

def start : Action := Action.ofEvents [⟨0, BuiltFormula.prop "start", ∅, {"start"}⟩]

def wait : Action := Action.ofEvents [⟨0, BuiltFormula.prop "p", ∅, ∅⟩]

def finish : Action := Action.ofEvents [⟨0, BuiltFormula.prop "p", {"goal"}, ∅⟩]

def advance : Action :=
  Action.ofEvents [⟨0, BuiltFormula.prop "q", {"r"}, {"q"}⟩,
    ⟨1, BuiltFormula.prop "r", {"s"}, {"r"}⟩, ⟨2, BuiltFormula.prop "s", {"goal"}, ∅⟩]

def library : ActionLibrary := ⟨[start, wait, finish, advance]⟩

def goal : BuiltFormula := BuiltFormula.prop "goal"

/-- What the search returns. -/
def policy : Policy := (findPolicy HashOrder.insertion goal library init 12).getD ⟨false, []⟩

/-- The state with `p` after `start`. -/
def opened : State := (outcomes HashOrder.insertion init start).getD 0 init

/-- The state after waiting there, which waiting does not change. -/
def waiting : State := (outcomes HashOrder.insertion opened wait).getD 0 init

theorem findPolicy_eq : findPolicy HashOrder.insertion goal library init 12 = some policy := by
  decide +kernel

theorem execStep_opened : ExecStep HashOrder.insertion goal policy init opened :=
  ⟨by decide +kernel, start, ⟨by decide +kernel, by decide +kernel⟩, by decide +kernel⟩

theorem execStep_waiting : ExecStep HashOrder.insertion goal policy opened waiting :=
  ⟨by decide +kernel, wait, ⟨by decide +kernel, by decide +kernel⟩, by decide +kernel⟩

theorem execStep_again : ExecStep HashOrder.insertion goal policy waiting waiting :=
  ⟨by decide +kernel, wait, ⟨by decide +kernel, by decide +kernel⟩, by decide +kernel⟩

theorem runsTo_waiting (n : ℕ) :
    RunsTo HashOrder.insertion goal policy (fun _ ↦ True) init (n + 2) waiting := by
  induction n with
  | zero => exact (RunsTo.start.step trivial execStep_opened).step trivial execStep_waiting
  | succ n ih => exact ih.step trivial execStep_again

end Circle

/-- **An execution without end** of a policy that was returned as solved. -/
theorem findPolicy_circle :
    Circle.init.WellFormed ∧
      findPolicy HashOrder.insertion Circle.goal Circle.library Circle.init 12 =
        some Circle.policy ∧
      Circle.policy.isSolved = true ∧
      ¬ EndsInGoal HashOrder.insertion Circle.goal Circle.policy (fun _ ↦ True) Circle.init := by
  refine ⟨by decide, Circle.findPolicy_eq, by decide +kernel, ?_⟩
  rintro ⟨⟨bound, hbound⟩, -⟩
  have hlong := hbound _ _ (Circle.runsTo_waiting bound)
  omega

end Del
