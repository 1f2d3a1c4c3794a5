import R2DTU.Planner.OperationModels

/-!
# What an applicable action covers

The And node of an action stands for the outcomes its owner considers possible: the designated
worlds of the product. `is_action_applicable` asks for some event at every world the owner reaches,
and `perform_product_update` designates the new worlds of designated events only. The two agree
when the event found is a designated one; where only an event that is not designated applies, the
world has no designated successor and the product drops the possibility.

`coversPossibilities_iff` is the exact condition. The action of the repository's own product test,
which its owner perceives and others do not, is applicable without meeting it.
-/

namespace Del

variable {order : HashOrder} {s : State} {a : Action}

/-- The new world at index `k` of the product was built from the world `w`. -/
def BuiltFrom (s : State) (a : Action) (k w : ℕ) : Prop :=
  ∃ p, (productPairs s a)[k]? = some p ∧ p.1.id = w

/-- Every designated world of the shifted state has a designated world in the product. -/
def CoversPossibilities (order : HashOrder) (s : State) (a : Action) : Prop :=
  ∀ w ∈ (performPerspectiveShift order s a.owner).designatedWorlds,
    ∃ k ∈ (performProductUpdate (performPerspectiveShift order s a.owner) a).designatedWorlds,
      BuiltFrom (performPerspectiveShift order s a.owner) a k w

/-- **One world**: it has a designated successor when a designated event applies there. -/
theorem exists_builtFrom_iff (hs : s.WellFormed) {w : ℕ} (hw : w ∈ s.designatedWorlds) :
    (∃ k ∈ (performProductUpdate s a).designatedWorlds, BuiltFrom s a k w) ↔
      ∃ e ∈ a.events, a.isEventDesignated e.id = true ∧
        (s.getWorld w).valuate e.precondition = true := by
  constructor
  · rintro ⟨k, hk, p, hp, rfl⟩
    obtain ⟨⟨w, e⟩, hp', -, he⟩ := mem_designatedWorlds_performProductUpdate.1 hk
    obtain rfl := Option.some.inj (hp.symm.trans hp')
    obtain ⟨hmem, hmem', hpre⟩ := mem_productPairs.1 (List.mem_of_getElem? hp)
    refine ⟨e, hmem', he, ?_⟩
    rwa [(hs.getWorld_id hmem).2]
  · rintro ⟨e, he, hdes, hpre⟩
    obtain ⟨hmem, hid⟩ := hs.id_getWorld (hs.designated_lt hw)
    obtain ⟨k, hk⟩ := List.mem_iff_getElem?.1 (mem_productPairs.2 ⟨hmem, he, hpre⟩)
    refine ⟨k, mem_designatedWorlds_performProductUpdate.2 ⟨_, hk, ?_, hdes⟩, _, hk, hid⟩
    show s.isWorldDesignated (s.getWorld w).id = true
    rwa [hid, State.isWorldDesignated_iff]

/-- **No possibility is lost** exactly when every world the owner reaches satisfies the precondition
of a designated event. -/
theorem coversPossibilities_iff (order : HashOrder) (s : State) (a : Action) :
    CoversPossibilities order s a ↔ ∀ w ∈ s.getDesignatedWorldReachables a.owner,
      ∃ e ∈ a.events, a.isEventDesignated e.id = true ∧
        (s.getWorld w).valuate e.precondition = true := by
  have hshift := wellFormed_performPerspectiveShift order s a.owner
  have hcover : CoversPossibilities order s a ↔
      ∀ k < (order.worlds (shiftVisited s a.owner)).length, ∃ e ∈ a.events,
        a.isEventDesignated e.id = true ∧
          ((performPerspectiveShift order s a.owner).getWorld k).valuate e.precondition = true := by
    refine forall_congr' fun k ↦ ?_
    have hmem : k ∈ (performPerspectiveShift order s a.owner).designatedWorlds ↔
        k < (order.worlds (shiftVisited s a.owner)).length := List.mem_range
    exact ⟨fun h hk ↦ (exists_builtFrom_iff hshift (hmem.2 hk)).1 (h (hmem.2 hk)),
      fun h hk ↦ (exists_builtFrom_iff hshift hk).2 (h (hmem.1 hk))⟩
  rw [hcover]
  simp only [mem_getDesignatedWorldReachables, World.valuate]
  constructor
  · intro h w hw
    obtain ⟨k, hk⟩ := exists_index_shift.2 hw
    have hevent := h k (List.getElem?_eq_some_iff.1 hk).1
    rwa [getWorld_performPerspectiveShift hk] at hevent
  · intro h k hk
    have hget := List.getElem?_eq_getElem hk
    rw [getWorld_performPerspectiveShift hget]
    exact h _ (exists_index_shift.1 ⟨k, hget⟩)

namespace PerceiveTest

/-- Three worlds that neither agent can tell apart, all designated. -/
def state : State where
  numberOfAgents := 2
  worlds := [⟨0, {"in(red,Box0)"}⟩, ⟨1, {"in(red,Box1)"}⟩, ⟨2, {"in(red,Box2)"}⟩]
  designatedWorlds := [0, 1, 2]
  indistinguishabilityRelation := List.replicate 2
    ((List.range 3).flatMap fun i ↦ (List.range 3).map fun j ↦ ⟨i, j⟩)

/-- Agent 1 sees the red cube in box 1, or nothing happens. Only the first event is designated. -/
def action : Action where
  events := [⟨0, BuiltFormula.prop "in(red,Box1)", ∅, ∅⟩, ⟨1, BuiltFormula.top, ∅, ∅⟩]
  designatedEvents := [0]
  indistinguishabilityRelation := [[⟨0, 0⟩, ⟨1, 1⟩], [⟨0, 1⟩, ⟨0, 0⟩, ⟨1, 1⟩]]
  owner := 1

end PerceiveTest

/-- **A possibility is lost** in the repository's test of an action that only its owner observes:
the worlds with the cube in box 0 and in box 2 have no designated successor. -/
theorem perceiveTest_not_coversPossibilities :
    PerceiveTest.state.WellFormed ∧
      isActionApplicable (performPerspectiveShift HashOrder.insertion PerceiveTest.state
        PerceiveTest.action.owner) PerceiveTest.action = true ∧
      ¬ CoversPossibilities HashOrder.insertion PerceiveTest.state PerceiveTest.action := by
  refine ⟨by decide, by decide +kernel, fun h ↦ ?_⟩
  have hshift := wellFormed_performPerspectiveShift HashOrder.insertion PerceiveTest.state
    PerceiveTest.action.owner
  have hzero : 0 ∈ (performPerspectiveShift HashOrder.insertion PerceiveTest.state
    PerceiveTest.action.owner).designatedWorlds := by decide +kernel
  have hevent := (exists_builtFrom_iff hshift hzero).1 (h 0 hzero)
  exact absurd hevent (by decide +kernel)

end Del
