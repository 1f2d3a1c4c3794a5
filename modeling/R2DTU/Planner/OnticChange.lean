import R2DTU.Planner.Coverage
import R2DTU.Planner.Interface

/-!
# Changing the facts

`perform_do` changes facts without a plan: it puts together an action with a single event that
applies everywhere, and leaves the rest to the product update. Every world then has exactly one new
world, with its number and the changed valuation (`getElem?_productPairs_doAction`).

The product update designates the new worlds of designated events, and `perform_do` designates none.
So the new state has no designated world, and a goal, which has to hold in all of them, holds.
`keepsSituation_performDo_iff` says that this is harmless only where nothing was designated before.
-/

namespace Del

variable {s : State} {d : Domain} {agent : ℕ} {addList deleteList : List String}

/-! ### The product with a single event -/

/-- **Every world meets the event**: the `k`-th pair is the `k`-th world with the event. -/
theorem productPairs_doAction :
    productPairs s (d.doAction agent addList deleteList) = s.worlds.map fun w ↦
      (w, ⟨0, BuiltFormula.top, addList.toFinset, deleteList.toFinset⟩) := by
  have hone : ∀ w : World, (d.doAction agent addList deleteList).events.filterMap (fun e ↦
      if w.valuate e.precondition then some (w, e) else none) =
        [(w, ⟨0, BuiltFormula.top, addList.toFinset, deleteList.toFinset⟩)] := fun w ↦ rfl
  rw [productPairs, funext hone, List.map_eq_flatMap]

theorem getElem?_productPairs_doAction {k : ℕ} :
    (productPairs s (d.doAction agent addList deleteList))[k]? = s.worlds[k]?.map fun w ↦
      (w, ⟨0, BuiltFormula.top, addList.toFinset, deleteList.toFinset⟩) := by
  rw [productPairs_doAction, List.getElem?_map]

/-- A new world has the number of the world it was built from. -/
theorem builtFrom_doAction_iff (hs : s.WellFormed) {k w : ℕ} :
    BuiltFrom s (d.doAction agent addList deleteList) k w ↔ k = w ∧ w < s.worlds.length := by
  rw [BuiltFrom, getElem?_productPairs_doAction]
  constructor
  · rintro ⟨p, hp, rfl⟩
    obtain ⟨w, hw, rfl⟩ := Option.map_eq_some_iff.1 hp
    obtain rfl := hs.id_eq hw
    exact ⟨rfl, (List.getElem?_eq_some_iff.1 hw).1⟩
  · rintro ⟨rfl, hk⟩
    have hget : s.worlds[k]? = some s.worlds[k] := List.getElem?_eq_getElem hk
    rw [hget]
    exact ⟨_, rfl, hs.id_eq hget⟩

/-- No event of the action is designated. -/
theorem designatedWorlds_performDo :
    (d.performDo agent addList deleteList).getCurrentState.designatedWorlds = [] := by
  rw [Domain.performDo, Domain.getCurrentState_performAction, List.eq_nil_iff_forall_not_mem]
  intro k hk
  obtain ⟨p, -, -, hevent⟩ := mem_designatedWorlds_performProductUpdate.1 hk
  exact Bool.false_ne_true hevent

theorem length_worlds_performDo :
    (d.performDo agent addList deleteList).getCurrentState.worlds.length =
      d.getCurrentState.worlds.length := by
  rw [Domain.performDo, Domain.getCurrentState_performAction, length_worlds_performProductUpdate,
    productPairs_doAction, List.length_map]

/-- The valuation of a world after facts were changed. -/
def State.changed (s : State) (addList deleteList : List String) (w : ℕ) : Finset String :=
  (s.getWorld w).truePropositions \ deleteList.toFinset ∪ addList.toFinset

theorem truePropositions_performDo {k : ℕ} (hk : k < d.getCurrentState.worlds.length) :
    ((d.performDo agent addList deleteList).getCurrentState.getWorld k).truePropositions =
      d.getCurrentState.changed addList deleteList k := by
  have hget : d.getCurrentState.worlds[k]? = some d.getCurrentState.worlds[k] :=
    List.getElem?_eq_getElem hk
  have hpair := @getElem?_productPairs_doAction d.getCurrentState d agent addList deleteList k
  rw [hget, Option.map_some] at hpair
  rw [Domain.performDo, Domain.getCurrentState_performAction, getWorld_performProductUpdate hpair,
    State.changed, State.getWorld_eq hget]
  rfl

/-! ### The situation -/

namespace DELInterface

/-- **What a change of facts is for**: the worlds stay, with changed valuations, the actual ones
stay the actual ones, and the goal is judged by these. -/
structure KeepsSituation (i : DELInterface) (agent : ℕ) (add del : List String) : Prop where
  /-- There are as many worlds. -/
  length_eq : (i.performDo agent add del).domain.getCurrentState.worlds.length =
    i.domain.getCurrentState.worlds.length
  /-- The actual ones come from the actual ones. -/
  designated_iff (k : ℕ) :
    k ∈ (i.performDo agent add del).domain.getCurrentState.designatedWorlds ↔
      ∃ w ∈ i.domain.getCurrentState.designatedWorlds,
        BuiltFrom i.domain.getCurrentState (i.domain.doAction agent add del) k w
  /-- The facts are changed in each world. -/
  truePropositions_eq {k w : ℕ}
    (h : BuiltFrom i.domain.getCurrentState (i.domain.doAction agent add del) k w) :
    ((i.performDo agent add del).domain.getCurrentState.getWorld k).truePropositions =
      i.domain.getCurrentState.changed add del w
  /-- The goal is judged by the actual ones. -/
  isSolved_iff {goal : BuiltFormula} (h : i.goal = some goal) :
    (i.performDo agent add del).isSolved = some true ↔
      ∀ w ∈ i.domain.getCurrentState.designatedWorlds,
        goal.valuate (i.domain.getCurrentState.changed add del w) = true

variable {i : DELInterface} {add del : List String}

/-- With no designated world left, every goal holds. -/
theorem isSolved_performDo {goal : BuiltFormula} (h : i.goal = some goal) :
    (i.performDo agent add del).isSolved = some true := by
  have hgoal : (i.performDo agent add del).goal = some goal := h
  have hnil : (i.performDo agent add del).domain.getCurrentState.designatedWorlds = [] :=
    designatedWorlds_performDo
  rw [isSolved, hgoal, Option.map_some, State.valuate, hnil, List.all_nil]

/-- **A change of facts keeps the situation** exactly when there was none: no world of the state it
starts from is designated. -/
theorem keepsSituation_performDo_iff (i : DELInterface)
    (hwf : i.domain.getCurrentState.WellFormed) (agent : ℕ) (add del : List String) :
    i.KeepsSituation agent add del ↔ i.domain.getCurrentState.designatedWorlds = [] := by
  have hnil : (i.performDo agent add del).domain.getCurrentState.designatedWorlds = [] :=
    designatedWorlds_performDo
  constructor
  · intro h
    rw [List.eq_nil_iff_forall_not_mem]
    intro w hw
    -- the world is still there, and should be designated
    have hbuilt : BuiltFrom i.domain.getCurrentState (i.domain.doAction agent add del) w w :=
      (builtFrom_doAction_iff hwf).2 ⟨rfl, hwf.designated_lt hw⟩
    have hmem := (h.designated_iff w).2 ⟨w, hw, hbuilt⟩
    rw [hnil] at hmem
    exact List.not_mem_nil hmem
  · intro hempty
    refine ⟨length_worlds_performDo, fun k ↦ ?_, fun {k w} h ↦ ?_, fun {goal} hgoal ↦ ?_⟩
    · rw [hnil, hempty]
      simp
    · obtain ⟨rfl, hlt⟩ := (builtFrom_doAction_iff hwf).1 h
      exact truePropositions_performDo hlt
    · rw [isSolved_performDo hgoal, hempty]
      simp

theorem keepsSituation_performDo_iff_undesignated :
    ((DELInterface.new ⟨1, [⟨0, {"p"}⟩], [], [[⟨0, 0⟩]]⟩ ⟨[]⟩).KeepsSituation 0 ["q"] ["p"] ↔
      ([] : List ℕ) = []) :=
  keepsSituation_performDo_iff _ (by decide) 0 ["q"] ["p"]

/-- One world in which `p` holds, a goal that `p` does not hold, and `p` is added: the state has no
designated world any more, and the goal holds. -/
theorem performDo_loses_situation :
    ∃ goal i, i = { DELInterface.new (State.ofPropositions {"p"}) ⟨[]⟩ with goal := some goal } ∧
      i.domain.getCurrentState.WellFormed ∧
      i.domain.getCurrentState.designatedWorlds = [0] ∧
      (i.performDo 0 ["q"] []).domain.getCurrentState.designatedWorlds = [] ∧
      (i.performDo 0 ["q"] []).isSolved = some true ∧
      goal.valuate (i.domain.getCurrentState.changed ["q"] [] 0) = false ∧
      ¬ i.KeepsSituation 0 ["q"] [] := by
  refine ⟨BuiltFormula.prop "r", _, rfl, by decide, rfl, by decide, by decide, by decide, ?_⟩
  intro h
  have hmem := (h.designated_iff 0).2 ⟨0, List.mem_singleton_self 0, _, rfl, rfl⟩
  exact absurd hmem (by decide)

end DELInterface

end Del
