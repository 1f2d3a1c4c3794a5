import R2DTU.Planner.Bounds

/-!
# The perspective shift is the exact closure

`perform_perspective_shift` and `State::get_designated_world_reachables` are two implementations of
one closure: the worlds an agent reaches from the designated ones. Both are the worklist of
`Worklist.closure`, started from the designated worlds, and both record what
`Worklist.mem_closure_iff` says. They differ in the container: the vector of the second may repeat
what it starts from, and `add_designated_world` is why it does not.

`IsShift` says, without mentioning how it was computed, what a shifted state is: its worlds are the
reachable ones under new numbers, and everything else is carried over. Which numbers is left to the
order in which a hash set is iterated; two shifts by different orders are isomorphic, and so are a
shift and a shift of it.
-/

namespace Del

variable {order order' : HashOrder} {s t : State} {agent n : ℕ}

/-- **What a shift is for.** `kept` lists the reachable worlds in the order of their new numbers. -/
structure IsShift (s : State) (agent : ℕ) (kept : List ℕ) (t : State) : Prop where
  /-- No world is kept twice. -/
  nodup : kept.Nodup
  /-- What is kept is what the agent can reach. -/
  mem_iff {w : ℕ} : w ∈ kept ↔ ∃ d ∈ s.designatedWorlds,
    Relation.ReflTransGen (fun u v ↦ s.isOneReachable agent u v = true) d w
  /-- There is a new world for each. -/
  length_eq : t.worlds.length = kept.length
  /-- It has the same propositions. -/
  truePropositions_eq {k w : ℕ} (h : kept[k]? = some w) :
    (t.getWorld k).truePropositions = (s.getWorld w).truePropositions
  /-- All new worlds are designated. -/
  designated_iff {k : ℕ} : k ∈ t.designatedWorlds ↔ k < t.worlds.length
  /-- Agents confuse the same worlds. -/
  related_iff {j k l u v : ℕ} (hk : kept[k]? = some u) (hl : kept[l]? = some v) :
    t.isOneReachable j k l = true ↔ s.isOneReachable j u v = true
  /-- They confuse no others. -/
  related_lt {j k l : ℕ} (h : t.isOneReachable j k l = true) :
    k < t.worlds.length ∧ l < t.worlds.length

/-- A path in the model is a path of `is_one_reachable`. -/
theorem reaches_iff_isOneReachable {w : ℕ} :
    (s.model id).Reaches agent w ↔ ∃ d ∈ s.designatedWorlds,
      Relation.ReflTransGen (fun u v ↦ s.isOneReachable agent u v = true) d w := by
  simp only [State.isOneReachable_iff]
  rfl

/-- **The shift is a shift.** -/
theorem isShift_performPerspectiveShift (hs : s.WellFormed) :
    IsShift s agent (order.worlds (shiftVisited s agent))
      (performPerspectiveShift order s agent) where
  nodup := nodup_shiftVisited
  mem_iff := by
    intro w
    rw [(order.worlds_perm _).mem_iff, mem_shiftVisited, reaches_iff_isOneReachable]
  length_eq := length_worlds_performPerspectiveShift
  truePropositions_eq h := by rw [getWorld_performPerspectiveShift h]
  designated_iff := by
    intro k
    rw [length_worlds_performPerspectiveShift]
    exact List.mem_range
  related_iff := by
    intro j k l u v hk hl
    have hu : (s.model id).Reaches agent u := exists_index_shift.1 ⟨k, hk⟩
    have hv : (s.model id).Reaches agent v := exists_index_shift.1 ⟨l, hl⟩
    rw [State.isOneReachable_iff, State.isOneReachable_iff]
    exact ((isIsomorphism_performPerspectiveShift hs).rel_iff hk hl).trans
      ⟨fun h ↦ h.2.2, fun h ↦ ⟨hu, hv, h⟩⟩
  related_lt h :=
    (wellFormed_performPerspectiveShift order s agent).relation_lt (State.isOneReachable_iff.1 h)

/-- The loop of the shift ends, whatever its bound, with the same worlds. -/
theorem run_shiftVisited {fuel : ℕ} (hfuel : s.designatedWorlds.length +
    (s.getIndistinguishabilityRelations agent).length < fuel) :
    BoundedLoop.run (Worklist.round (s.successors agent)) fuel
      (s.designatedWorlds.reverse, s.designatedWorlds.reverse.dedup.reverse) =
        some (shiftVisited s agent) := by
  refine Worklist.run_round_eq_closure ?_
  rwa [List.length_reverse, List.length_map]

/-- **A second shift changes nothing** but the numbers. -/
theorem isomorphic_shift_shift (hs : s.WellFormed) :
    Kripke.Isomorphic
      ((performPerspectiveShift order' (performPerspectiveShift order s agent) agent).model id)
      ((performPerspectiveShift order s agent).model id) := by
  have hshift := wellFormed_performPerspectiveShift order s agent
  have hfirst := @isIsomorphism_performPerspectiveShift order s agent hs
  have hsecond := @isIsomorphism_performPerspectiveShift order' _ agent hshift
  -- the second shift is a shift of the model the first one is isomorphic to
  have hmodel := hfirst.shift (i := agent) (hshift.closed_model id) Kripke.Model.closed_shift
  exact ⟨_, ((hsecond.comp hmodel).comp Kripke.isIsomorphism_shift_shift).comp hfirst.symm⟩

/-- **The shift computes the exact closure.** Its loop ends; its worlds are the worlds the agent
reaches from designated ones, each once, with everything else carried over; they are the worlds
`get_designated_world_reachables` returns, which repeats none; and a second shift for the same agent
gives an isomorphic state, in whatever orders the hash sets are iterated. -/
theorem performPerspectiveShift_exact (order order' : HashOrder) (n : ℕ) (s : State)
    (hs : s.Valid n) (agent : ℕ) :
    (∀ fuel, s.designatedWorlds.length + (s.getIndistinguishabilityRelations agent).length < fuel →
      BoundedLoop.run (Worklist.round (s.successors agent)) fuel
        (s.designatedWorlds.reverse, s.designatedWorlds.reverse.dedup.reverse) =
          some (shiftVisited s agent)) ∧
      IsShift s agent (order.worlds (shiftVisited s agent))
        (performPerspectiveShift order s agent) ∧
      (s.getDesignatedWorldReachables agent).Nodup ∧
      (∀ w, w ∈ s.getDesignatedWorldReachables agent ↔ w ∈ order.worlds (shiftVisited s agent)) ∧
      Kripke.Isomorphic
        ((performPerspectiveShift order' (performPerspectiveShift order s agent) agent).model id)
        ((performPerspectiveShift order s agent).model id) := by
  refine ⟨fun fuel ↦ run_shiftVisited, isShift_performPerspectiveShift hs.wellFormed,
    Worklist.nodup_closure hs.nodup, fun w ↦ ?_, isomorphic_shift_shift hs.wellFormed⟩
  rw [(order.worlds_perm _).mem_iff, mem_getDesignatedWorldReachables, mem_shiftVisited]

/-- The state of the repository's test `Perspective_Shift_Agent_L`. -/
def shiftTestState : State where
  numberOfAgents := 2
  worlds := [⟨0, {"in(red,Box0)"}⟩, ⟨1, {"in(red,Box1)"}⟩, ⟨2, {"in(red,Box1)"}⟩,
    ⟨3, {"in(red,Box2)"}⟩]
  designatedWorlds := [1]
  indistinguishabilityRelation :=
    [⟨1, 1⟩ :: [0, 2, 3].flatMap fun i ↦ [0, 2, 3].map fun j ↦ ⟨i, j⟩,
      [⟨1, 0⟩, ⟨1, 1⟩, ⟨1, 2⟩, ⟨1, 3⟩] ++ [0, 2, 3].flatMap fun i ↦ [0, 2, 3].map fun j ↦ ⟨i, j⟩]

theorem performPerspectiveShift_exact_shiftTestState :
    IsShift shiftTestState 1 (HashOrder.insertion.worlds (shiftVisited shiftTestState 1))
        (performPerspectiveShift HashOrder.insertion shiftTestState 1) ∧
      (shiftTestState.getDesignatedWorldReachables 1).Nodup :=
  have h := performPerspectiveShift_exact HashOrder.insertion HashOrder.insertion 2 shiftTestState
    ⟨by decide, by decide, rfl⟩ 1
  ⟨h.2.1, h.2.2.1⟩

/-- What the test asserts: the numbers of pairs and of designated worlds. -/
example : (performPerspectiveShift HashOrder.insertion shiftTestState
    1).indistinguishabilityRelation.map List.length = [10, 13] ∧
      (performPerspectiveShift HashOrder.insertion shiftTestState
        1).designatedWorlds.length = 4 := by
  decide

end Del
