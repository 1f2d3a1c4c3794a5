import R2DTU.Planner.Indistinguishability
import R2DTU.Planner.Prediction

/-!
# Executing a plan through the interface

`DEL_Interface` holds a domain, whose last state is the current one, and a policy. The loop written
out in `Main` asks for the next action and performs it until the goal holds.

The planner predicts the effect of an action by a shift to its owner's perspective, the product
update and the split into global states. `Domain::perform_action` does the product update alone, on
the unshifted state. The two agree when the shift and the split change nothing that the action
keeps, which is what `OnCourse` asks of the entry the current state matches. From such steps the
next entry is always found (`getNextAction_of_onCourse`); a single unreachable world is enough for
the next lookup to fail (`getNextAction_lost`).
-/

namespace Del

/-- `Domain`: the states so far. The last one is read without a check, so there is one. -/
structure Domain where
  /-- How many agents there are. -/
  amountOfAgents : ℕ
  /-- The states so far, the current one last. -/
  states : List State
  /-- There is a current one. -/
  states_ne_nil : states ≠ []
  deriving DecidableEq

namespace Domain

/-- The constructor with an initial state. -/
def new (amountOfAgents : ℕ) (initialState : State) : Domain :=
  ⟨amountOfAgents, [initialState], List.cons_ne_nil _ _⟩

/-- `get_current_state`: the last state of the history. -/
def getCurrentState (d : Domain) : State := d.states.getLast d.states_ne_nil

/-- `perform_action`: the product update of the current state is the next one of the history. -/
def performAction (d : Domain) (action : Action) : Domain :=
  ⟨d.amountOfAgents, d.states ++ [performProductUpdate d.getCurrentState action],
    List.append_ne_nil_of_right_ne_nil _ (List.cons_ne_nil _ _)⟩

/-- The action that `perform_do` puts together: one event without a precondition. It is not
designated, and nobody considers it possible. -/
def doAction (d : Domain) (agent : ℕ) (addList deleteList : List String) : Action :=
  { Action.new agent d.amountOfAgents with
    events := [⟨0, BuiltFormula.top, addList.toFinset, deleteList.toFinset⟩] }

/-- `perform_do`: an action whose single event adds and deletes propositions. -/
def performDo (d : Domain) (agent : ℕ) (addList deleteList : List String) : Domain :=
  d.performAction (d.doAction agent addList deleteList)

@[simp] theorem getCurrentState_new (amountOfAgents : ℕ) (s : State) :
    (new amountOfAgents s).getCurrentState = s := rfl

@[simp] theorem getCurrentState_performAction (d : Domain) (action : Action) :
    (d.performAction action).getCurrentState = performProductUpdate d.getCurrentState action := by
  simp [getCurrentState, performAction]

end Domain

/-- `Interface_DTO`: the next action, if there is one to execute, and what is to be announced. -/
structure InterfaceDTO where
  /-- The action of the policy, if it is one for the robot to execute. -/
  action : Option Action
  /-- What is to be announced instead. -/
  announceString : String
  deriving DecidableEq

/-- `DEL_Interface`. The goal is `none` until `create_policy` sets it. -/
structure DELInterface where
  /-- The history of states, whose last one is the current state. -/
  domain : Domain
  /-- Whether there is a policy to follow. -/
  hasPolicy : Bool
  /-- The policy that was made last. -/
  policy : Policy
  /-- The actions to plan with. -/
  actionLibrary : ActionLibrary
  /-- The agent that is the robot. -/
  pepperId : ℕ
  /-- What was planned for. -/
  goal : Option BuiltFormula
  deriving DecidableEq

namespace DELInterface

/-- The constructor from an initial state and a library. -/
def new (initialState : State) (library : ActionLibrary) : DELInterface :=
  ⟨Domain.new initialState.numberOfAgents initialState, false, ⟨false, []⟩, library, 0, none⟩

/-- The announcement for an action: the precondition of its first event, when the robot owns it. -/
def announceString (i : DELInterface) (action : Action) : String :=
  if action.owner = i.pepperId then
    match action.events with
    | event :: _ => event.precondition.toText
    | [] => ""
  else ""

/-- `get_next_action`: `none` is the end of the function without a return statement. -/
def getNextAction (order : HashOrder) (i : DELInterface) : Option InterfaceDTO :=
  if i.hasPolicy then
    let (action, solved) := i.policy.getAction order i.domain.getCurrentState
    if solved then some ⟨some action, i.announceString action⟩ else none
  else some ⟨none, ""⟩

/-- `perform_action`: an observed action; the policy stays. -/
def performAction (i : DELInterface) (action : Action) : DELInterface :=
  { i with domain := i.domain.performAction action }

/-- `perform_do`: an observed change of propositions; the policy stays. -/
def performDo (i : DELInterface) (agent : ℕ) (add del : List String) : DELInterface :=
  { i with domain := i.domain.performDo agent add del }

/-- `create_policy` with at most `fuel` rounds of the search. -/
def createPolicy (order : HashOrder) (fuel : ℕ) (i : DELInterface) (goal : BuiltFormula) :
    Option (Bool × DELInterface) :=
  (findPolicy order goal i.actionLibrary i.domain.getCurrentState fuel).map fun policy ↦
    (policy.isSolved, { i with goal := some goal, policy := policy, hasPolicy := policy.isSolved })

/-- `is_solved`: `none` before a goal is set. -/
def isSolved (i : DELInterface) : Option Bool :=
  i.goal.map fun goal ↦ i.domain.getCurrentState.valuate goal

/-- One round of the loop: the goal does not hold, an action is returned and performed. -/
def LoopStep (order : HashOrder) (i j : DELInterface) : Prop :=
  i.isSolved = some false ∧ ∃ dto action, getNextAction order i = some dto ∧
    dto.action = some action ∧ j = i.performAction action

/-- Rounds of the loop that meet `C` before each of them. -/
inductive LoopRun (order : HashOrder) (C : DELInterface → Prop) (i : DELInterface) :
    DELInterface → Prop
  | start : LoopRun order C i i
  | step {j k : DELInterface} (h : LoopRun order C i j) (hC : C j) (hstep : LoopStep order j k) :
    LoopRun order C i k

/-- What the step needs of the state before it. In the entry that the current state matches, the
action is settled: the shift to the owner's perspective drops no world where an event applies, and
the owner's pairs are the ones the split leaves. The keys of the worlds of the entry and of the
current state are distinct. -/
def OnCourse (order : HashOrder) (i : DELInterface) : Prop :=
  ∀ entry, i.policy.policy.find?
      (fun e ↦ areStatesBisimilar order e.1 i.domain.getCurrentState) = some entry →
    DistinctKeys entry.1 i.domain.getCurrentState ∧ ∃ w e, Settled entry.1 entry.2 w e

/-! ### The loop and the plan -/

section Plan

variable {order : HashOrder} {goal : BuiltFormula} {library : ActionLibrary} {init : State}
  {g : Graph} {i j : DELInterface}

/-- The current state is bisimilar to the state of an Or node of the plan, and satisfies the goal if
that one does. -/
structure Follows (order : HashOrder) (g : Graph) (goal : BuiltFormula) (i : DELInterface) :
    Prop where
  /-- There is a policy. -/
  hasPolicy : i.hasPolicy = true
  /-- It was made for this goal. -/
  goal_eq : i.goal = some goal
  /-- It was extracted from this graph. -/
  extracted : extractPolicy g = some i.policy
  /-- The current state is well formed. -/
  wellFormed : i.domain.getCurrentState.WellFormed
  /-- The current state is the one of a node of the plan, up to bisimilarity. -/
  near : ∃ n, OnPlan g n ∧ (g.getNode n).type = .or ∧
    areStatesBisimilar order (g.getNode n).state i.domain.getCurrentState = true ∧
    ((g.getNode n).state.valuate goal = true → i.domain.getCurrentState.valuate goal = true)

/-- Near an Or node of the plan the lookup succeeds, and finds an entry of the plan. -/
theorem Follows.exists_entry (hg : SolvedGraph order goal library init g)
    (h : Follows order g goal i) (hs : i.isSolved = some false) :
    ∃ c, OnPlan g c ∧ (g.getNode c).type = .and ∧
      i.policy.policy.find? (fun e ↦ areStatesBisimilar order e.1 i.domain.getCurrentState) =
        some (planEntry g c) := by
  obtain ⟨n, hn, hor, hbisim, himp⟩ := h.near
  have hng : (g.getNode n).state.valuate goal = false := by
    rw [isSolved, h.goal_eq, Option.map_some, Option.some.injEq] at hs
    rw [← Bool.not_eq_true]
    intro hgoal
    rw [himp hgoal] at hs
    exact Bool.noConfusion hs
  obtain ⟨c, -, -, -, hmem, hstate⟩ := hg.exists_entry h.extracted hn hor hng
  obtain ⟨entry, hfind⟩ : ∃ entry, i.policy.policy.find?
      (fun e ↦ areStatesBisimilar order e.1 i.domain.getCurrentState) = some entry := by
    refine Option.isSome_iff_exists.1 (List.find?_isSome.2 ⟨_, hmem, ?_⟩)
    rw [hstate]
    exact hbisim
  obtain ⟨d, hd, hand, rfl⟩ :=
    (hg.mem_policy_iff h.extracted entry).1 (List.mem_of_find?_eq_some hfind)
  exact ⟨d, hd, hand, hfind⟩

/-- What the lookup finds is what is returned. -/
theorem getNextAction_eq (hp : i.hasPolicy = true) {entry : State × Action}
    (h : i.policy.policy.find?
      (fun e ↦ areStatesBisimilar order e.1 i.domain.getCurrentState) = some entry) :
    i.policy.getAction order i.domain.getCurrentState = (entry.2, true) ∧
      getNextAction order i = some ⟨some entry.2, i.announceString entry.2⟩ := by
  have hget : i.policy.getAction order i.domain.getCurrentState = (entry.2, true) := by
    simp only [Policy.getAction, h]
  refine ⟨hget, ?_⟩
  simp only [getNextAction, hp, hget, if_true]

/-- **One round of the loop** from a state on course goes from near a node of the plan to near a
younger one. -/
theorem Follows.step (hg : SolvedGraph order goal library init g) (hwf : init.WellFormed)
    (h : Follows order g goal i) (hcourse : OnCourse order i) (hstep : LoopStep order i j) :
    Follows order g goal j := by
  obtain ⟨hs, dto, action, hdto, hact, rfl⟩ := hstep
  obtain ⟨c, hc, hand, hfind⟩ := h.exists_entry hg hs
  have hnext := (getNextAction_eq h.hasPolicy hfind).2
  obtain rfl := Option.some.inj (hdto.symm.trans hnext)
  obtain rfl : (planEntry g c).2 = action := Option.some.inj hact
  have hentry : (planEntry g c).1.WellFormed := by
    obtain ⟨n, hlt, hparent, -⟩ := hg.exists_parent hc hand
    rw [planEntry, hparent]
    exact hg.searching.wellFormed_state hwf (hlt.trans (hg.solved_of_onPlan hc).1)
  have hmatch := List.find?_some hfind
  obtain ⟨hkeys, w, e, hsettled⟩ := hcourse _ hfind
  obtain ⟨t, ht, hbisim, hgoal⟩ :=
    hsettled.exists_outcome_matching hentry h.wellFormed hkeys hmatch
  obtain ⟨-, -, -, -, hout⟩ := hg.entry_spec hc hand
  obtain ⟨-, d, hd, -, hor, rfl⟩ := hout t ht
  have hcurrent : (i.performAction (planEntry g c).2).domain.getCurrentState =
      performProductUpdate i.domain.getCurrentState (planEntry g c).2 :=
    Domain.getCurrentState_performAction _ _
  refine ⟨h.hasPolicy, h.goal_eq, h.extracted, ?_, d, hd, hor, ?_, fun hg' ↦ ?_⟩
  · rw [hcurrent]
    exact wellFormed_performProductUpdate _ _
  · rwa [hcurrent]
  · rw [hcurrent]
    exact hgoal goal hg'

/-- `create_policy` leaves the interface at the root of the plan. -/
theorem follows_createPolicy {fuel : ℕ} (hwf : i.domain.getCurrentState.WellFormed)
    (h : createPolicy order fuel i goal = some (true, j)) :
    ∃ g, SolvedGraph order goal i.actionLibrary i.domain.getCurrentState g ∧
      Follows order g goal j := by
  obtain ⟨policy, hfind, hpair⟩ := Option.map_eq_some_iff.1 h
  obtain ⟨hsolved, rfl⟩ := Prod.mk.inj hpair
  obtain ⟨g, hg, hext⟩ : ∃ g, SolvedGraph order goal i.actionLibrary i.domain.getCurrentState g ∧
      extractPolicy g = some policy := by
    refine (findPolicy_cases hfind).resolve_right ?_
    rintro ⟨rfl, -⟩
    exact Bool.false_ne_true hsolved
  have hs := hg.searching
  refine ⟨g, hg, hsolved, rfl, hext, hwf, g.root, .refl, ?_, ?_, ?_⟩
  · rw [hs.root_eq]
    exact hs.root_type
  · rw [hs.root_eq, hs.root_state]
    exact areStatesBisimilar_self order hwf
  · rw [hs.root_eq, hs.root_state]
    exact id

end Plan

/-- **The loop stays on plan** along every run whose rounds all start on course: while the goal does
not hold, the lookup finds an entry and an action is returned. -/
theorem getNextAction_of_onCourse (order : HashOrder) (fuel : ℕ) (goal : BuiltFormula)
    (i j k : DELInterface) (hwf : i.domain.getCurrentState.WellFormed)
    (h : createPolicy order fuel i goal = some (true, j))
    (hrun : LoopRun order (OnCourse order) j k) (hs : k.isSolved = some false) :
    ∃ action, k.policy.getAction order k.domain.getCurrentState = (action, true) ∧
      getNextAction order k = some ⟨some action, k.announceString action⟩ := by
  obtain ⟨g, hg, hfollows⟩ := follows_createPolicy hwf h
  have hk : Follows order g goal k := by
    induction hrun with
    | start => exact hfollows
    | step hprev hcourse hstep ih => exact (ih hstep.1).step hg hwf hcourse hstep
  obtain ⟨c, -, -, hfind⟩ := hk.exists_entry hg hs
  exact ⟨_, getNextAction_eq hk.hasPolicy hfind⟩

/-! ### A plan of two actions -/

namespace TwoSteps

def prepare : Action := Action.ofEvents [⟨0, BuiltFormula.top, {"ready"}, ∅⟩]

def finish : Action := Action.ofEvents [⟨0, BuiltFormula.prop "ready", {"goal"}, ∅⟩]

def library : ActionLibrary := ⟨[prepare, finish]⟩

def goal : BuiltFormula := BuiltFormula.prop "goal"

/-- The interface after `create_policy`. -/
def planned (s : State) : DELInterface :=
  ((createPolicy HashOrder.insertion 4 (new s library) goal).map Prod.snd).getD (new s library)

/-- The same world, and another one that nobody considers possible. -/
def unreachable : State := ⟨1, [⟨0, ∅⟩, ⟨1, {"other"}⟩], [0], [[⟨0, 0⟩, ⟨1, 1⟩]]⟩

theorem settled_prepare : Settled (State.ofPropositions ∅) prepare ⟨0, ∅⟩
    ⟨0, BuiltFormula.top, {"ready"}, ∅⟩ :=
  ⟨by decide, by decide, by decide, by decide, by decide⟩

theorem onCourse_planned : OnCourse HashOrder.insertion (planned (State.ofPropositions ∅)) := by
  intro entry hfind
  have hentry : (planned (State.ofPropositions ∅)).policy.policy.find? (fun e ↦
      areStatesBisimilar HashOrder.insertion e.1
        (planned (State.ofPropositions ∅)).domain.getCurrentState) =
      some (State.ofPropositions ∅, prepare) := by decide +kernel
  obtain rfl := Option.some.inj (hentry.symm.trans hfind)
  exact ⟨by decide +kernel, _, _, settled_prepare⟩

theorem loopStep_planned (s : State) (h : (planned s).isSolved = some false)
    (hnext : getNextAction HashOrder.insertion (planned s) = some ⟨some prepare, "TOP"⟩) :
    LoopStep HashOrder.insertion (planned s) ((planned s).performAction prepare) :=
  ⟨h, _, prepare, hnext, rfl, rfl⟩

end TwoSteps

open TwoSteps in
theorem getNextAction_of_onCourse_twoSteps :
    ∃ action, ((planned (State.ofPropositions ∅)).performAction prepare).policy.getAction
        HashOrder.insertion
        ((planned (State.ofPropositions ∅)).performAction prepare).domain.getCurrentState =
          (action, true) ∧
      getNextAction HashOrder.insertion ((planned (State.ofPropositions ∅)).performAction prepare) =
        some ⟨some action,
          ((planned (State.ofPropositions ∅)).performAction prepare).announceString action⟩ :=
  getNextAction_of_onCourse HashOrder.insertion 4 TwoSteps.goal
    (new (State.ofPropositions ∅) library) (planned (State.ofPropositions ∅)) _ (by decide)
    (by decide +kernel)
    (LoopRun.start.step onCourse_planned
      (loopStep_planned _ (by decide +kernel) (by decide +kernel)))
    (by decide +kernel)

open TwoSteps in
/-- **The loop loses its plan**: after the first action the unreachable world is still there, no
entry is bisimilar to the current state, and `get_next_action` ends without a value. -/
theorem getNextAction_lost :
    unreachable.WellFormed ∧
      createPolicy HashOrder.insertion 4 (new unreachable library) TwoSteps.goal =
        some (true, planned unreachable) ∧
      LoopRun HashOrder.insertion (fun _ ↦ True) (planned unreachable)
        ((planned unreachable).performAction prepare) ∧
      ((planned unreachable).performAction prepare).isSolved = some false ∧
      (((planned unreachable).performAction prepare).policy.getAction HashOrder.insertion
        ((planned unreachable).performAction prepare).domain.getCurrentState).2 = false ∧
      getNextAction HashOrder.insertion ((planned unreachable).performAction prepare) = none :=
  ⟨by decide, by decide +kernel,
    LoopRun.start.step trivial (loopStep_planned _ (by decide +kernel) (by decide +kernel)),
    by decide +kernel, by decide +kernel, by decide +kernel⟩

end DELInterface

end Del
