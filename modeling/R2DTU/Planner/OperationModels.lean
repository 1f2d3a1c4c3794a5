import R2DTU.Library.KripkeIsomorphism
import R2DTU.Planner.BisimulationDecision

/-!
# The operations on Kripke models

`perform_product_update` and `perform_perspective_shift` renumber worlds, the first by the order of
pairs and the second by the order of a hash set. Read as Kripke models, the states they build are
bisimilar to `Kripke.Model.update` and `Kripke.Model.shift` of the model of the old state, and
`is_action_applicable` is `Kripke.Model.Applicable`. What follows from bisimilarity can therefore be
proved once, without numbers, for these.

The sections before say what each operation puts at an index: `productPairs` and `shiftVisited` are
the tables the source keeps for it.
-/

namespace Del

open Kripke (IsBisimulation IsIsomorphism)

variable {order : HashOrder} {s : State} {a : Action} {agent : ℕ}

/-- The events of an action over sets of propositions. -/
def Action.eventModel (a : Action) : Kripke.EventModel ℕ ActionEvent (Finset String) where
  events := {e | e ∈ a.events}
  rel := fun agent e f ↦ a.isOneReachable agent e.id f.id = true
  pre := fun e propositions ↦ e.precondition.valuate propositions = true
  effect := fun e propositions ↦ propositions \ e.propositionDelete ∪ e.propositionAdd
  designated := {e | a.isEventDesignated e.id = true}

theorem State.isWorldDesignated_iff {w : ℕ} :
    s.isWorldDesignated w = true ↔ w ∈ s.designatedWorlds := by
  rw [State.isWorldDesignated, List.contains_iff_mem]

theorem State.getWorld_eq {k : ℕ} {w : World} (h : s.worlds[k]? = some w) : s.getWorld k = w := by
  rw [State.getWorld, List.getD_eq_getElem?_getD, h, Option.getD_some]

/-- A world of a well-formed state is found at its id. -/
theorem State.WellFormed.getWorld_id (hs : s.WellFormed) {w : World} (hw : w ∈ s.worlds) :
    w.id < s.worlds.length ∧ s.getWorld w.id = w := by
  obtain ⟨k, hk⟩ := List.mem_iff_getElem?.1 hw
  obtain rfl := hs.id_eq hk
  exact ⟨(List.getElem?_eq_some_iff.1 hk).1, State.getWorld_eq hk⟩

theorem State.WellFormed.id_getWorld (hs : s.WellFormed) {k : ℕ} (hk : k < s.worlds.length) :
    s.getWorld k ∈ s.worlds ∧ (s.getWorld k).id = k := by
  have hget : s.worlds[k]? = some s.worlds[k] := List.getElem?_eq_getElem hk
  rw [State.getWorld_eq hget]
  exact ⟨List.getElem_mem hk, hs.id_eq hget⟩

/-! ### Product update -/

theorem mem_productPairs {w : World} {e : ActionEvent} :
    (w, e) ∈ productPairs s a ↔
      w ∈ s.worlds ∧ e ∈ a.events ∧ w.valuate e.precondition = true := by
  simp only [productPairs, List.mem_flatMap, List.mem_filterMap, Option.ite_none_right_eq_some,
    Option.some.injEq, Prod.mk.injEq]
  constructor
  · rintro ⟨w', hw, e', he, hpre, rfl, rfl⟩
    exact ⟨hw, he, hpre⟩
  · rintro ⟨hw, he, hpre⟩
    exact ⟨w, hw, e, he, hpre, rfl, rfl⟩

theorem length_worlds_performProductUpdate :
    (performProductUpdate s a).worlds.length = (productPairs s a).length := by
  simp [performProductUpdate]

theorem getWorld_performProductUpdate {k : ℕ} {p : World × ActionEvent}
    (h : (productPairs s a)[k]? = some p) :
    (performProductUpdate s a).getWorld k = productWorld k p := by
  refine State.getWorld_eq ?_
  rw [performProductUpdate, List.getElem?_mapIdx, h, Option.map_some]

theorem mem_designatedWorlds_performProductUpdate {k : ℕ} :
    k ∈ (performProductUpdate s a).designatedWorlds ↔
      ∃ p, (productPairs s a)[k]? = some p ∧ s.isWorldDesignated p.1.id = true ∧
        a.isEventDesignated p.2.id = true := by
  simp only [performProductUpdate, List.mem_filterMap, Option.ite_none_right_eq_some,
    Option.some.injEq, Bool.and_eq_true]
  constructor
  · rintro ⟨⟨p, k'⟩, hp, hd, rfl⟩
    exact ⟨p, List.mem_zipIdx_iff_getElem?.1 hp, hd⟩
  · rintro ⟨p, hp, hd⟩
    exact ⟨(p, k), List.mem_zipIdx_iff_getElem?.2 hp, hd, rfl⟩

theorem mem_relations_performProductUpdate {k l : ℕ} :
    ⟨k, l⟩ ∈ (performProductUpdate s a).getIndistinguishabilityRelations agent ↔
      agent < s.numberOfAgents ∧ ∃ p q, (productPairs s a)[k]? = some p ∧
        (productPairs s a)[l]? = some q ∧ productRelated s a agent p q = true := by
  rw [State.getIndistinguishabilityRelations, performProductUpdate, mem_getD_map_range]
  simp only [List.mem_flatMap, List.mem_filterMap, Option.ite_none_right_eq_some,
    Option.some.injEq, WorldRelation.mk.injEq]
  refine and_congr_right fun _ ↦ ⟨?_, ?_⟩
  · rintro ⟨⟨p, k'⟩, hp, ⟨q, l'⟩, hq, hr, rfl, rfl⟩
    exact ⟨p, q, List.mem_zipIdx_iff_getElem?.1 hp, List.mem_zipIdx_iff_getElem?.1 hq, hr⟩
  · rintro ⟨p, q, hp, hq, hr⟩
    exact ⟨(p, k), List.mem_zipIdx_iff_getElem?.2 hp, (q, l), List.mem_zipIdx_iff_getElem?.2 hq, hr,
      rfl, rfl⟩

theorem productRelated_iff {p q : World × ActionEvent} :
    productRelated s a agent p q = true ↔
      ⟨p.1.id, q.1.id⟩ ∈ s.getIndistinguishabilityRelations agent ∧
        a.isOneReachable agent p.2.id q.2.id = true := by
  rw [productRelated, Bool.and_eq_true, State.isOneReachable_iff]

/-- The pair at an index, as a new world of the product of models. -/
def productWorldOf (s : State) (a : Action) (k : ℕ) (p : ℕ × ActionEvent) : Prop :=
  ∃ w, (productPairs s a)[k]? = some (w, p.2) ∧ w.id = p.1

theorem productWorldOf_mem (hs : s.WellFormed) {k : ℕ} {p : ℕ × ActionEvent}
    (h : productWorldOf s a k p) :
    p ∈ ((s.model id).update a.eventModel).worlds ∧
      (productPairs s a)[k]? = some (s.getWorld p.1, p.2) := by
  obtain ⟨u, e⟩ := p
  obtain ⟨w, hk, rfl⟩ := h
  obtain ⟨hw, he, hpre⟩ := mem_productPairs.1 (List.mem_of_getElem? hk)
  obtain ⟨hlt, hget⟩ := hs.getWorld_id hw
  refine ⟨⟨hlt, he, ?_⟩, by rwa [hget]⟩
  show e.precondition.valuate (s.getWorld w.id).truePropositions = true
  rwa [hget]

theorem exists_productWorldOf (hs : s.WellFormed) {p : ℕ × ActionEvent}
    (hp : p ∈ ((s.model id).update a.eventModel).worlds) : ∃ k, productWorldOf s a k p := by
  obtain ⟨hlt, he, hpre⟩ := hp
  obtain ⟨hmem, hid⟩ := hs.id_getWorld hlt
  obtain ⟨k, hk⟩ := List.mem_iff_getElem?.1 (mem_productPairs.2 ⟨hmem, he, hpre⟩)
  exact ⟨k, _, hk, hid⟩

theorem exists_productWorldOf_left {k : ℕ} (hk : k < (performProductUpdate s a).worlds.length) :
    ∃ p, productWorldOf s a k p := by
  rw [length_worlds_performProductUpdate] at hk
  exact ⟨((productPairs s a)[k].1.id, (productPairs s a)[k].2), _, List.getElem?_eq_getElem hk, rfl⟩

/-- The pairs of the product, in the words of the product of models. -/
theorem productWorldOf_rel_iff (hs : s.WellFormed) {k l : ℕ} {p q : ℕ × ActionEvent}
    (hk : productWorldOf s a k p) (hl : productWorldOf s a l q) :
    ⟨k, l⟩ ∈ (performProductUpdate s a).getIndistinguishabilityRelations agent ↔
      ((s.model id).update a.eventModel).rel agent p q := by
  have hp := (productWorldOf_mem hs hk).1
  have hq := (productWorldOf_mem hs hl).1
  obtain ⟨⟨u, e⟩, v, f⟩ := p, q
  obtain ⟨w, hk, rfl⟩ := hk
  obtain ⟨w', hl, rfl⟩ := hl
  rw [mem_relations_performProductUpdate]
  constructor
  · rintro ⟨-, p, q, hk', hl', hr⟩
    obtain rfl := Option.some.inj (hk.symm.trans hk')
    obtain rfl := Option.some.inj (hl.symm.trans hl')
    exact ⟨hp, hq, productRelated_iff.1 hr⟩
  · rintro ⟨-, -, hr⟩
    exact ⟨hs.agent_lt hr.1, _, _, hk, hl, productRelated_iff.2 hr⟩

/-- **The product update is the product of models**, up to the numbers of the worlds. -/
theorem isBisimulation_performProductUpdate (hs : s.WellFormed) :
    IsBisimulation ((performProductUpdate s a).model id) ((s.model id).update a.eventModel)
      (productWorldOf s a) where
  mem {k p} h := by
    obtain ⟨w, hk, -⟩ := id h
    refine ⟨?_, (productWorldOf_mem hs h).1⟩
    show k < (performProductUpdate s a).worlds.length
    rw [length_worlds_performProductUpdate]
    exact (List.getElem?_eq_some_iff.1 hk).1
  total_left hk := exists_productWorldOf_left hk
  total_right hp := exists_productWorldOf hs hp
  val_eq {k p} h := by
    show ((performProductUpdate s a).getWorld k).truePropositions = _
    rw [getWorld_performProductUpdate (productWorldOf_mem hs h).2]
    rfl
  forth {agent k l p} hk hr := by
    obtain ⟨q, hl⟩ := exists_productWorldOf_left
      ((wellFormed_performProductUpdate s a).relation_lt hr).2
    exact ⟨q, (productWorldOf_rel_iff hs hk hl).1 hr, hl⟩
  back {agent k p q} hk hr := by
    obtain ⟨l, hl⟩ := exists_productWorldOf hs hr.2.1
    exact ⟨l, (productWorldOf_rel_iff hs hk hl).2 hr, hl⟩
  designated_left {k} hd := by
    obtain ⟨⟨w, e⟩, hk, hw, he⟩ := mem_designatedWorlds_performProductUpdate.1 hd
    have hz : productWorldOf s a k (w.id, e) := ⟨w, hk, rfl⟩
    exact ⟨_, ⟨(productWorldOf_mem hs hz).1, State.isWorldDesignated_iff.1 hw, he⟩, hz⟩
  designated_right {p} hp := by
    obtain ⟨hmem, hw, he⟩ := hp
    obtain ⟨k, hk⟩ := exists_productWorldOf hs hmem
    obtain ⟨w, hget, hid⟩ := id hk
    refine ⟨k, mem_designatedWorlds_performProductUpdate.2 ⟨_, hget, ?_, he⟩, hk⟩
    rw [hid]
    exact State.isWorldDesignated_iff.2 hw

/-! ### Perspective shift -/

/-- **The worlds the shift visits** are those the agent reaches from designated ones. -/
theorem mem_shiftVisited {w : ℕ} :
    w ∈ shiftVisited s agent ↔ (s.model id).Reaches agent w := by
  rw [shiftVisited, Worklist.mem_closure_iff (by simp)]
  simp only [List.mem_reverse, List.mem_dedup, State.mem_successors]
  rfl

theorem mem_getDesignatedWorldReachables {w : ℕ} :
    w ∈ s.getDesignatedWorldReachables agent ↔ (s.model id).Reaches agent w := by
  rw [State.getDesignatedWorldReachables, Worklist.mem_closure_iff (by simp)]
  simp only [State.mem_successors]
  rfl

theorem nodup_shiftVisited : (order.worlds (shiftVisited s agent)).Nodup := by
  rw [(order.worlds_perm _).nodup_iff]
  refine Worklist.nodup_closure ?_
  rw [List.nodup_reverse]
  exact List.nodup_dedup _

/-- Every visited world has an index in the shift. -/
theorem exists_index_shift {w : ℕ} :
    (∃ k : ℕ, (order.worlds (shiftVisited s agent))[k]? = some w) ↔
      (s.model id).Reaches agent w := by
  rw [← List.mem_iff_getElem?, (order.worlds_perm _).mem_iff, mem_shiftVisited]

theorem length_worlds_performPerspectiveShift :
    (performPerspectiveShift order s agent).worlds.length =
      (order.worlds (shiftVisited s agent)).length := by
  simp [performPerspectiveShift]

theorem getWorld_performPerspectiveShift {k w : ℕ}
    (h : (order.worlds (shiftVisited s agent))[k]? = some w) :
    (performPerspectiveShift order s agent).getWorld k = ⟨k, (s.getWorld w).truePropositions⟩ := by
  refine State.getWorld_eq ?_
  rw [performPerspectiveShift, List.getElem?_mapIdx, h, Option.map_some]

theorem idxOf_eq_iff {l : List ℕ} (hl : l.Nodup) {w k : ℕ} (hw : w ∈ l) :
    l.idxOf w = k ↔ l[k]? = some w := by
  constructor
  · rintro rfl
    rw [List.getElem?_eq_getElem (List.idxOf_lt_length_of_mem hw), List.getElem_idxOf]
  · intro hk
    obtain ⟨hlt, rfl⟩ := List.getElem?_eq_some_iff.1 hk
    exact hl.idxOf_getElem k hlt

theorem mem_relations_performPerspectiveShift {j k l : ℕ} :
    ⟨k, l⟩ ∈ (performPerspectiveShift order s agent).getIndistinguishabilityRelations j ↔
      j < s.numberOfAgents ∧ ∃ u v, (order.worlds (shiftVisited s agent))[k]? = some u ∧
        (order.worlds (shiftVisited s agent))[l]? = some v ∧
        ⟨u, v⟩ ∈ s.getIndistinguishabilityRelations j := by
  rw [State.getIndistinguishabilityRelations, performPerspectiveShift, mem_getD_map_range]
  simp only [List.mem_filterMap, Option.ite_none_right_eq_some, Option.some.injEq,
    WorldRelation.mk.injEq]
  have hmem : ∀ {w}, w ∈ order.worlds (shiftVisited s agent) ↔ w ∈ shiftVisited s agent :=
    (order.worlds_perm _).mem_iff
  refine and_congr_right fun _ ↦ ⟨?_, ?_⟩
  · rintro ⟨⟨u, v⟩, hr, ⟨hu, hv⟩, hk, hl⟩
    exact ⟨u, v, (idxOf_eq_iff nodup_shiftVisited (hmem.2 hu)).1 hk,
      (idxOf_eq_iff nodup_shiftVisited (hmem.2 hv)).1 hl, hr⟩
  · rintro ⟨u, v, hk, hl, hr⟩
    have hu := List.mem_of_getElem? hk
    have hv := List.mem_of_getElem? hl
    exact ⟨⟨u, v⟩, hr, ⟨hmem.1 hu, hmem.1 hv⟩, (idxOf_eq_iff nodup_shiftVisited hu).2 hk,
      (idxOf_eq_iff nodup_shiftVisited hv).2 hl⟩

theorem State.WellFormed.closed_model {V : Type} (hs : s.WellFormed) (val : Finset String → V) :
    (s.model val).Closed :=
  ⟨fun hr ↦ (hs.relation_lt hr).2, fun _ hd ↦ hs.designated_lt hd⟩

/-- **The perspective shift is the shift of models** with other numbers for the worlds. -/
theorem isIsomorphism_performPerspectiveShift (hs : s.WellFormed) :
    IsIsomorphism ((performPerspectiveShift order s agent).model id)
      ((s.model id).shift agent)
      (fun k u ↦ (order.worlds (shiftVisited s agent))[k]? = some u) := by
  have hdes : ∀ {k}, k ∈ (performPerspectiveShift order s agent).designatedWorlds ↔
      k < (performPerspectiveShift order s agent).worlds.length := by
    intro k
    rw [length_worlds_performPerspectiveShift]
    exact List.mem_range
  have hmem : ∀ {k u}, (order.worlds (shiftVisited s agent))[k]? = some u →
      k < (performPerspectiveShift order s agent).worlds.length ∧
        (s.model id).Reaches agent u := by
    intro k u h
    rw [length_worlds_performPerspectiveShift]
    exact ⟨(List.getElem?_eq_some_iff.1 h).1, exists_index_shift.1 ⟨k, h⟩⟩
  refine ⟨hmem, fun {k} hk ↦ ?_, fun hv ↦ exists_index_shift.2 hv, fun {k l u} hk hl ↦ ?_,
    fun {k u v} hu hv ↦ Option.some.inj (hu.symm.trans hv), fun {k u} h ↦ ?_,
    fun {j k l u v} hk hl ↦ ?_, fun {k u} h ↦ ?_⟩
  · have hlt : k < (performPerspectiveShift order s agent).worlds.length := hk
    rw [length_worlds_performPerspectiveShift] at hlt
    exact ⟨_, List.getElem?_eq_getElem hlt⟩
  · exact (List.getElem?_inj (List.getElem?_eq_some_iff.1 hk).1 nodup_shiftVisited).1
      (hk.trans hl.symm)
  · show ((performPerspectiveShift order s agent).getWorld k).truePropositions = _
    rw [getWorld_performPerspectiveShift h]
    rfl
  · refine mem_relations_performPerspectiveShift.trans ⟨?_, fun h ↦ ?_⟩
    · rintro ⟨-, u', v', hk', hl', hr⟩
      obtain rfl := Option.some.inj (hk'.symm.trans hk)
      obtain rfl := Option.some.inj (hl'.symm.trans hl)
      exact ⟨(hmem hk).2, (hmem hl).2, hr⟩
    · exact ⟨hs.agent_lt h.2.2, u, v, hk, hl, h.2.2⟩
  · exact hdes.trans (iff_of_true (hmem h).1 (hmem h).2)

theorem isBisimulation_performPerspectiveShift (hs : s.WellFormed) :
    IsBisimulation ((performPerspectiveShift order s agent).model id)
      ((s.model id).shift agent)
      (fun k u ↦ (order.worlds (shiftVisited s agent))[k]? = some u) :=
  (isIsomorphism_performPerspectiveShift hs).isBisimulation
    ((wellFormed_performPerspectiveShift order s agent).closed_model id) Kripke.Model.closed_shift

theorem bisimilar_performPerspectiveShift (hs : s.WellFormed) :
    Kripke.Bisimilar ((performPerspectiveShift order s agent).model id)
      ((s.model id).shift agent) :=
  ⟨_, isBisimulation_performPerspectiveShift hs⟩

/-! ### Applicability -/

theorem isActionApplicable_iff :
    isActionApplicable s a = true ↔ (s.model id).Applicable a.eventModel a.owner := by
  simp only [isActionApplicable, List.all_eq_true, List.any_eq_true,
    mem_getDesignatedWorldReachables]
  rfl

/-- **After the shift to the owner's perspective**, an action applies when every world the owner
reaches has an event. -/
theorem isActionApplicable_shift_iff (hs : s.WellFormed) :
    isActionApplicable (performPerspectiveShift order s a.owner) a = true ↔
      (s.model id).Applicable a.eventModel a.owner := by
  rw [isActionApplicable_iff, (bisimilar_performPerspectiveShift hs).applicable_iff,
    Kripke.Model.applicable_shift_iff]

end Del
