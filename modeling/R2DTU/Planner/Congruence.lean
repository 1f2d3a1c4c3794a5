import R2DTU.Planner.Execution
import R2DTU.Planner.OperationModels
import R2DTU.Planner.ValuationKeys

/-!
# Bisimilar states and the operations

The product update takes bisimilar states to bisimilar states, and an action applies in both or in
neither (`performProductUpdate_congr`). Both go through the models of `OperationModels`.

The outcomes of an action are not bisimilar in general, for two reasons.

* The shift to the owner's perspective cuts the pairs of the other agents that lead to worlds the
  owner does not reach. A world may be bisimilar to one the owner reaches and itself not be reached:
  the relation between the states has to lead from reached worlds to reached worlds only,
  `Kripke.KeepsReached`.
* The split takes all pairs of the owner away, except the loop at the one designated world. A second
  world that is bisimilar to it loses its loop, so the relation has to relate the designated worlds
  to each other only.

`outcomes_matched` says what is left of a bisimulation without these conditions and with them, and
`outcomes_not_bisimilar` has one pair of states for each.
-/

namespace Del

open Kripke (IsBisimulation Bisimilar Matches Zigzag KeepsReached)

section Congruence

variable {order₁ order₂ : HashOrder} {s₁ s₂ : State} {Z : ℕ → ℕ → Prop}

/-- **The product update, part by part.** -/
theorem matches_performProductUpdate (h₁ : s₁.WellFormed) (h₂ : s₂.WellFormed) (a : Action)
    (hm : Matches (s₁.model id) (s₂.model id) Z) :
    ∃ Y, Matches ((performProductUpdate s₁ a).model id) ((performProductUpdate s₂ a).model id) Y ∧
      ∀ j, Zigzag (s₁.model id) (s₂.model id) Z j →
        Zigzag ((performProductUpdate s₁ a).model id) ((performProductUpdate s₂ a).model id) Y
          j := by
  have hp₁ := isBisimulation_performProductUpdate (a := a) h₁
  have hp₂ := (isBisimulation_performProductUpdate (a := a) h₂).symm
  refine ⟨_, (hp₁.matches.comp hm.update).comp hp₂.matches, fun j hz ↦ ?_⟩
  exact ((hp₁.zigzag j).comp (hz.update hm)).comp (hp₂.zigzag j)

/-- **The perspective shift, part by part.** -/
theorem matches_performPerspectiveShift (h₁ : s₁.WellFormed) (h₂ : s₂.WellFormed) (agent : ℕ)
    (hZ : IsBisimulation (s₁.model id) (s₂.model id) Z) :
    ∃ X, Matches ((performPerspectiveShift order₁ s₁ agent).model id)
        ((performPerspectiveShift order₂ s₂ agent).model id) X ∧
      (KeepsReached (s₁.model id) (s₂.model id) Z agent → ∀ j,
        Zigzag ((performPerspectiveShift order₁ s₁ agent).model id)
          ((performPerspectiveShift order₂ s₂ agent).model id) X j) := by
  have hp₁ := @isBisimulation_performPerspectiveShift order₁ s₁ agent h₁
  have hp₂ := (@isBisimulation_performPerspectiveShift order₂ s₂ agent h₂).symm
  have hm := hZ.matches.shift (hZ.zigzag agent)
  refine ⟨_, (hp₁.matches.comp hm).comp hp₂.matches, fun hk j ↦ ?_⟩
  exact ((hp₁.zigzag j).comp ((hZ.zigzag j).shift hk)).comp (hp₂.zigzag j)

/-! ### Split -/

theorem mem_relations_setGlobalForAgent {s : State} {agent w j u v : ℕ} :
    ⟨u, v⟩ ∈ (s.setGlobalForAgent agent w).getIndistinguishabilityRelations j ↔
      if j = agent then agent < s.indistinguishabilityRelation.length ∧ u = w ∧ v = w
      else ⟨u, v⟩ ∈ s.getIndistinguishabilityRelations j := by
  simp only [State.getIndistinguishabilityRelations, State.setGlobalForAgent,
    List.getD_eq_getElem?_getD, List.getElem?_set]
  by_cases hj : agent = j
  · subst hj
    by_cases hlt : agent < s.indistinguishabilityRelation.length
    · simp [hlt]
    · simp [hlt]
  · simp [hj, Ne.symm hj]

/-- **The split at two matching worlds** keeps what does not concern the agent it is made for. -/
theorem matches_setGlobalForAgent {w v : ℕ} (agent : ℕ) (hm : Matches (s₁.model id) (s₂.model id) Z)
    (hz : Z w v) :
    Matches ((s₁.setGlobalForAgent agent w).model id) ((s₂.setGlobalForAgent agent v).model id) Z ∧
      ∀ j, j ≠ agent → Zigzag (s₁.model id) (s₂.model id) Z j →
        Zigzag ((s₁.setGlobalForAgent agent w).model id)
          ((s₂.setGlobalForAgent agent v).model id) Z j := by
  constructor
  · refine ⟨hm.mem, hm.total_left, hm.total_right, hm.val_eq, fun {u} hu ↦ ?_, fun {u} hu ↦ ?_⟩
    · obtain rfl := List.mem_singleton.1 hu
      exact ⟨v, List.mem_singleton.2 rfl, hz⟩
    · obtain rfl := List.mem_singleton.1 hu
      exact ⟨w, List.mem_singleton.2 rfl, hz⟩
  · intro j hj h
    have hrel : ∀ {s : State} {w u v}, ((s.setGlobalForAgent agent w).model id).rel j u v ↔
        (s.model id).rel j u v := by
      intro s w u v
      refine mem_relations_setGlobalForAgent.trans ?_
      rw [if_neg hj]
      rfl
    refine ⟨fun {u u' v} hz hr ↦ ?_, fun {u v v'} hz hr ↦ ?_⟩
    · obtain ⟨v', hr', hz'⟩ := h.forth hz (hrel.1 hr)
      exact ⟨v', hrel.2 hr', hz'⟩
    · obtain ⟨u', hr', hz'⟩ := h.back hz (hrel.1 hr)
      exact ⟨u', hrel.2 hr', hz'⟩

/-- The loop of the agent the split is made for is matched when the designated worlds are related to
each other only. -/
theorem zigzag_setGlobalForAgent_self {w v agent : ℕ} (hz : Z w v)
    (hlen : s₁.indistinguishabilityRelation.length = s₂.indistinguishabilityRelation.length)
    (hone : ∀ {u u'}, Z u u' → (u = w ↔ u' = v)) :
    Zigzag ((s₁.setGlobalForAgent agent w).model id) ((s₂.setGlobalForAgent agent v).model id) Z
      agent := by
  have hrel : ∀ {s : State} {w u v}, ((s.setGlobalForAgent agent w).model id).rel agent u v ↔
      agent < s.indistinguishabilityRelation.length ∧ u = w ∧ v = w := by
    intro s w u v
    refine mem_relations_setGlobalForAgent.trans ?_
    rw [if_pos rfl]
  refine ⟨fun {u u' x} hux hr ↦ ?_, fun {u x x'} hux hr ↦ ?_⟩
  · obtain ⟨hlt, rfl, rfl⟩ := hrel.1 hr
    exact ⟨v, hrel.2 ⟨hlen ▸ hlt, (hone hux).1 rfl, rfl⟩, hz⟩
  · obtain ⟨hlt, rfl, rfl⟩ := hrel.1 hr
    exact ⟨w, hrel.2 ⟨hlen ▸ hlt, (hone hux).2 rfl, rfl⟩, hz⟩

/-! ### Bisimilar states -/

/-- **Product update and applicability respect bisimilarity.** -/
theorem performProductUpdate_congr (order₁ order₂ : HashOrder) (s₁ s₂ : State) (a : Action)
    (h₁ : s₁.WellFormed) (h₂ : s₂.WellFormed) (h : Bisimilar (s₁.model id) (s₂.model id)) :
    isActionApplicable (performPerspectiveShift order₁ s₁ a.owner) a =
        isActionApplicable (performPerspectiveShift order₂ s₂ a.owner) a ∧
      Bisimilar ((performProductUpdate s₁ a).model id) ((performProductUpdate s₂ a).model id) := by
  constructor
  · rw [Bool.eq_iff_iff, isActionApplicable_shift_iff h₁, isActionApplicable_shift_iff h₂]
    exact h.applicable_iff
  · obtain ⟨Z, hZ⟩ := h
    obtain ⟨Y, hm, hz⟩ := matches_performProductUpdate h₁ h₂ a hZ.matches
    exact ⟨Y, hm.isBisimulation fun j ↦ hz j (hZ.zigzag j)⟩

/-- What two outcomes have in common, when they come from states related by `Z`. -/
def OutcomesMatch (s₁ s₂ : State) (Z : ℕ → ℕ → Prop) (owner : ℕ) (t₁ t₂ : State) : Prop :=
  ∃ Y, Matches (t₁.model id) (t₂.model id) Y ∧
    (KeepsReached (s₁.model id) (s₂.model id) Z owner →
      (∀ j, j ≠ owner → Zigzag (t₁.model id) (t₂.model id) Y j) ∧
      ((∀ u v, Y u v → (u ∈ t₁.designatedWorlds ↔ v ∈ t₂.designatedWorlds)) →
        Bisimilar (t₁.model id) (t₂.model id)))

/-- The states an action produces from related states, and their outcomes at related worlds. -/
theorem outcomesMatch_split (h₁ : s₁.WellFormed) (h₂ : s₂.WellFormed)
    (hn : s₁.numberOfAgents = s₂.numberOfAgents) (a : Action)
    (hZ : IsBisimulation (s₁.model id) (s₂.model id) Z) :
    ∃ Y, Matches
        ((performProductUpdate (performPerspectiveShift order₁ s₁ a.owner) a).model id)
        ((performProductUpdate (performPerspectiveShift order₂ s₂ a.owner) a).model id) Y ∧
      ∀ w v, Y w v → OutcomesMatch s₁ s₂ Z a.owner
        ((performProductUpdate (performPerspectiveShift order₁ s₁ a.owner) a).setGlobalForAgent
          a.owner w)
        ((performProductUpdate (performPerspectiveShift order₂ s₂ a.owner) a).setGlobalForAgent
          a.owner v) := by
  obtain ⟨X, hX, hshift⟩ := matches_performPerspectiveShift h₁ h₂ a.owner hZ
  obtain ⟨Y, hY, hproduct⟩ := matches_performProductUpdate
    (wellFormed_performPerspectiveShift order₁ s₁ a.owner)
    (wellFormed_performPerspectiveShift order₂ s₂ a.owner) a hX
  refine ⟨Y, hY, fun w v hwv ↦ ?_⟩
  obtain ⟨hmatch, hothers⟩ := matches_setGlobalForAgent a.owner hY hwv
  refine ⟨Y, hmatch, fun hk ↦ ?_⟩
  have hz : ∀ j, j ≠ a.owner → Zigzag _ _ Y j := fun j hj ↦
    hothers j hj (hproduct j (hshift hk j))
  refine ⟨hz, fun hone ↦ ⟨Y, hmatch.isBisimulation fun j ↦ ?_⟩⟩
  by_cases hj : j = a.owner
  · subst hj
    refine zigzag_setGlobalForAgent_self hwv ?_ fun {u u'} huu' ↦ ?_
    · simpa [performProductUpdate, performPerspectiveShift] using hn
    · simpa [State.setGlobalForAgent] using hone u u' huu'
  · exact hz j hj

end Congruence

/-! ### Two pairs of bisimilar states -/

/-- The action of agent 0 that changes nothing, for `n` agents. -/
def skipAction (n : ℕ) : Action :=
  ⟨[⟨0, BuiltFormula.top, ∅, ∅⟩], [0], List.replicate n [⟨0, 0⟩], 0⟩

namespace Twins

/-- Two worlds of one valuation that the only agent cannot tell apart. -/
def state : State :=
  ⟨1, [⟨0, ∅⟩, ⟨1, ∅⟩], [0], [[⟨0, 0⟩, ⟨0, 1⟩, ⟨1, 0⟩, ⟨1, 1⟩]]⟩

/-- The outcome of `skipAction` where there is no second world. -/
def outcome : State :=
  (outcomes HashOrder.insertion (State.ofPropositions ∅) (skipAction 1)).getD 0 state

theorem bisimilar : Bisimilar ((State.ofPropositions ∅).model id) (state.model id) :=
  @bisimilar_of_areStatesBisimilar _ _ HashOrder.insertion (by decide) (by decide) (by decide)
    (by decide +kernel)

end Twins

namespace Corridor

/-- Two worlds that neither of two agents can tell apart. -/
def room : State :=
  ⟨2, [⟨0, {"p"}⟩, ⟨1, ∅⟩], [0], [[⟨0, 0⟩, ⟨0, 1⟩, ⟨1, 0⟩, ⟨1, 1⟩],
    [⟨0, 0⟩, ⟨0, 1⟩, ⟨1, 0⟩, ⟨1, 1⟩]]⟩

/-- The same seen through two copies of each world: agent 0 goes from a world to the other valuation
within one copy, agent 1 to that of the other copy. -/
def corridor : State :=
  ⟨2, [⟨0, {"p"}⟩, ⟨1, ∅⟩, ⟨2, ∅⟩, ⟨3, {"p"}⟩], [0],
    [[⟨0, 0⟩, ⟨0, 1⟩, ⟨1, 0⟩, ⟨1, 1⟩, ⟨2, 2⟩, ⟨2, 3⟩, ⟨3, 2⟩, ⟨3, 3⟩],
      [⟨0, 0⟩, ⟨0, 2⟩, ⟨2, 0⟩, ⟨2, 2⟩, ⟨1, 1⟩, ⟨1, 3⟩, ⟨3, 1⟩, ⟨3, 3⟩]]⟩

/-- The outcome of `skipAction` in the room, at its designated world. -/
def outcome : State := (outcomes HashOrder.insertion room (skipAction 2)).getD 0 room

theorem bisimilar : Bisimilar (room.model id) (corridor.model id) :=
  @bisimilar_of_areStatesBisimilar _ _ HashOrder.insertion (by decide) (by decide) (by decide)
    (by decide +kernel)

end Corridor

/-- States over the same agents that are not found bisimilar are not. -/
theorem not_bisimilar_of_areStatesBisimilar {t : State} {ts : List State} (ht : t.WellFormed)
    (hts : ∀ t' ∈ ts, t'.WellFormed ∧ t.numberOfAgents = t'.numberOfAgents)
    (h : ∀ t' ∈ ts, areStatesBisimilar HashOrder.insertion t t' = false) :
    ∀ t' ∈ ts, ¬ Bisimilar (t.model id) (t'.model id) := by
  intro t' ht' hb
  obtain ⟨hwf, hn⟩ := hts t' ht'
  have htrue := areStatesBisimilar_of_bisimilar HashOrder.insertion ht hwf hn hb
  exact Bool.false_ne_true ((h t' ht').symm.trans htrue)

theorem performProductUpdate_congr_twins :
    (State.ofPropositions ∅).WellFormed ∧ Twins.state.WellFormed ∧
      isActionApplicable (performPerspectiveShift HashOrder.insertion (State.ofPropositions ∅)
          (skipAction 1).owner) (skipAction 1) =
        isActionApplicable (performPerspectiveShift HashOrder.insertion Twins.state
          (skipAction 1).owner) (skipAction 1) ∧
      Bisimilar ((performProductUpdate (State.ofPropositions ∅) (skipAction 1)).model id)
        ((performProductUpdate Twins.state (skipAction 1)).model id) :=
  ⟨by decide, by decide, performProductUpdate_congr _ _ _ _ _ (by decide) (by decide)
    Twins.bisimilar⟩

/-- **Outcomes of bisimilar states** match in valuations and designated worlds. When the relation
between the states keeps to the worlds the owner reaches, they match for every agent but the owner
too, and are bisimilar when the designated worlds are related to each other only. -/
theorem outcomes_matched (order₁ order₂ : HashOrder) (s₁ s₂ : State) (a : Action)
    (Z : ℕ → ℕ → Prop) (h₁ : s₁.WellFormed) (h₂ : s₂.WellFormed)
    (hn : s₁.numberOfAgents = s₂.numberOfAgents)
    (hZ : IsBisimulation (s₁.model id) (s₂.model id) Z) :
    (∀ t₁ ∈ outcomes order₁ s₁ a, ∃ t₂ ∈ outcomes order₂ s₂ a,
        OutcomesMatch s₁ s₂ Z a.owner t₁ t₂) ∧
      ∀ t₂ ∈ outcomes order₂ s₂ a, ∃ t₁ ∈ outcomes order₁ s₁ a,
        OutcomesMatch s₁ s₂ Z a.owner t₁ t₂ := by
  obtain ⟨Y, hY, hsplit⟩ := @outcomesMatch_split order₁ order₂ s₁ s₂ Z h₁ h₂ hn a hZ
  constructor
  · intro t₁ ht₁
    obtain ⟨w, hw, rfl⟩ := List.mem_map.1 ht₁
    obtain ⟨v, hv, hwv⟩ := hY.designated_left hw
    exact ⟨_, List.mem_map.2 ⟨v, hv, rfl⟩, hsplit w v hwv⟩
  · intro t₂ ht₂
    obtain ⟨v, hv, rfl⟩ := List.mem_map.1 ht₂
    obtain ⟨w, hw, hwv⟩ := hY.designated_right hv
    exact ⟨_, List.mem_map.2 ⟨w, hw, rfl⟩, hsplit w v hwv⟩

theorem outcomes_matched_corridor :
    ∃ Z, IsBisimulation (Corridor.room.model id) (Corridor.corridor.model id) Z ∧
      ∀ t₁ ∈ outcomes HashOrder.insertion Corridor.room (skipAction 2),
        ∃ t₂ ∈ outcomes HashOrder.insertion Corridor.corridor (skipAction 2),
          OutcomesMatch Corridor.room Corridor.corridor Z (skipAction 2).owner t₁ t₂ := by
  obtain ⟨Z, hZ⟩ := Corridor.bisimilar
  exact ⟨Z, hZ, (outcomes_matched _ _ Corridor.room Corridor.corridor _ Z (by decide) (by decide)
    rfl hZ).1⟩

/-- **Bisimilar states with outcomes that are not**, once because of the split and once because of
the shift. -/
theorem outcomes_not_bisimilar :
    ((State.ofPropositions ∅).WellFormed ∧ Twins.state.WellFormed ∧
      Bisimilar ((State.ofPropositions ∅).model id) (Twins.state.model id) ∧
      ∃ t₁ ∈ outcomes HashOrder.insertion (State.ofPropositions ∅) (skipAction 1),
        ∀ t₂ ∈ outcomes HashOrder.insertion Twins.state (skipAction 1),
          ¬ Bisimilar (t₁.model id) (t₂.model id)) ∧
    (Corridor.room.WellFormed ∧ Corridor.corridor.WellFormed ∧
      Bisimilar (Corridor.room.model id) (Corridor.corridor.model id) ∧
      ∃ t₁ ∈ outcomes HashOrder.insertion Corridor.room (skipAction 2),
        ∀ t₂ ∈ outcomes HashOrder.insertion Corridor.corridor (skipAction 2),
          ¬ Bisimilar (t₁.model id) (t₂.model id)) := by
  refine ⟨⟨by decide, by decide, Twins.bisimilar, Twins.outcome, by decide +kernel, ?_⟩,
    ⟨by decide, by decide, Corridor.bisimilar, Corridor.outcome, by decide +kernel, ?_⟩⟩
  · exact not_bisimilar_of_areStatesBisimilar (by decide +kernel) (by decide +kernel)
      (by decide +kernel)
  · exact not_bisimilar_of_areStatesBisimilar (by decide +kernel) (by decide +kernel)
      (by decide +kernel)

end Del
