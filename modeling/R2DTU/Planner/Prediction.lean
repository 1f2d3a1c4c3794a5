import R2DTU.Planner.Congruence

/-!
# Actions whose outcome the planner predicts

The planner takes an action through the shift to its owner's perspective, the product update and the
split into global states. Executing the action is the product update alone. `Settled` says when the
shift and the split change nothing of the product: the shift drops no world in which an event
applies, and the owner's pairs are already those the split leaves, the loop at the one designated
new world. Then one of the planner's outcomes is bisimilar to the product
(`Settled.exists_outcome`), also to the product of another state that the check finds bisimilar
(`Settled.exists_outcome_matching`).
-/

namespace Del

open Kripke (IsBisimulation Bisimilar)

variable {order : HashOrder} {s : State} {a : Action} {w : World} {e : ActionEvent}

/-- Performed in the state, the action yields one designated world, that of `w` and the event `e`,
which is listed once. The owner reaches every world where an event applies, and afterwards relates
that one new world to itself and no others. -/
structure Settled (s : State) (a : Action) (w : World) (e : ActionEvent) : Prop where
  /-- The event applies in the world. -/
  mem : (w, e) ∈ productPairs s a
  /-- The event is listed once. -/
  once : a.events.count e = 1
  /-- The pair is the only one that may be actual. -/
  designated_iff : ∀ p ∈ productPairs s a,
    s.isWorldDesignated p.1.id = true ∧ a.isEventDesignated p.2.id = true ↔ p = (w, e)
  /-- The shift to the owner keeps all worlds where events apply. -/
  reached : ∀ p ∈ productPairs s a, p.1.id ∈ s.getDesignatedWorldReachables a.owner
  /-- The split for the owner keeps the one state there is. -/
  related_iff : ∀ p ∈ productPairs s a, ∀ q ∈ productPairs s a,
    productRelated s a a.owner p q = true ↔ p = (w, e) ∧ q = (w, e)

/-! ### Indices of a pair -/

/-- The pairs of one world have each event as often as the action, or not at all. -/
theorem count_filterMap_le (events : List ActionEvent) (v : World) :
    (events.filterMap fun f ↦
        if v.valuate f.precondition then some (v, f) else none).count (w, e) ≤
      if v = w then events.count e else 0 := by
  split_ifs with hv
  · subst hv
    induction events with
    | nil => exact le_rfl
    | cons f fs ih =>
      by_cases hf : v.valuate f.precondition = true
      · simpa [hf, List.count_cons] using ih
      · simpa [hf, List.count_cons] using Nat.le_add_right_of_le ih
  · rw [Nat.le_zero, List.count_eq_zero, List.mem_filterMap]
    rintro ⟨f, -, hf⟩
    obtain ⟨-, hf⟩ := Option.ite_none_right_eq_some.1 hf
    exact hv (Prod.mk.inj (Option.some.inj hf)).1

/-- The pairs of distinct worlds have each event no more often than the action. -/
theorem count_flatMap_le {worlds : List World} (events : List ActionEvent) (h : worlds.Nodup) :
    (worlds.flatMap fun v ↦ events.filterMap fun f ↦
        if v.valuate f.precondition then some (v, f) else none).count (w, e) ≤ events.count e := by
  have hle := @count_filterMap_le w e events
  induction h with
  | nil => exact Nat.zero_le _
  | @cons v vs hv _ ih =>
    rw [List.flatMap_cons, List.count_append]
    have hhead := hle v
    split_ifs at hhead with hvw
    · -- no later world is the same, so the pair is not found behind
      have htail : (vs.flatMap fun u ↦ events.filterMap fun f ↦
          if u.valuate f.precondition then some (u, f) else none).count (w, e) = 0 := by
        rw [List.count_eq_zero, List.mem_flatMap]
        rintro ⟨u, hu, hmem⟩
        have hu' := hle u
        rw [if_neg fun huw ↦ hv u hu (hvw.trans huw.symm)] at hu'
        exact List.count_eq_zero.1 (Nat.le_zero.1 hu') hmem
      omega
    · omega

/-- A world of a well-formed state and an event listed once have one index. -/
theorem index_unique (hs : s.WellFormed) (he : a.events.count e = 1) {k l : ℕ}
    (hk : (productPairs s a)[k]? = some (w, e)) (hl : (productPairs s a)[l]? = some (w, e)) :
    k = l := by
  have hnodup : s.worlds.Nodup := by
    refine List.nodup_iff_injective_get.2 fun i j hij ↦ ?_
    have hi := hs.id_eq (List.getElem?_eq_getElem i.2)
    have hj := hs.id_eq (List.getElem?_eq_getElem j.2)
    have hid : s.worlds[i.1].id = s.worlds[j.1].id := congrArg World.id hij
    exact Fin.ext (hi.symm.trans (hid.trans hj))
  have hdup : ¬ (productPairs s a).Duplicate (w, e) := by
    rw [List.duplicate_iff_sublist, show [(w, e), (w, e)] = List.replicate 2 (w, e) from rfl,
      List.replicate_sublist_iff]
    exact fun h ↦ absurd (h.trans (count_flatMap_le a.events hnodup)) (by omega)
  obtain ⟨hk', hk⟩ := List.getElem?_eq_some_iff.1 hk
  obtain ⟨hl', hl⟩ := List.getElem?_eq_some_iff.1 hl
  by_contra hne
  refine hdup (List.duplicate_iff_exists_distinct_get.2 ?_)
  rcases Nat.lt_or_gt_of_ne hne with hlt | hlt
  · exact ⟨⟨k, hk'⟩, ⟨l, hl'⟩, hlt, hk.symm, hl.symm⟩
  · exact ⟨⟨l, hl'⟩, ⟨k, hk'⟩, hlt, hl.symm, hk.symm⟩

/-! ### The outcome and the product -/

/-- The new world at an index of the planner's product was built from the pair: the world stands in
the shift at the index that the pair of the product has. -/
def shiftedPair (order : HashOrder) (s : State) (a : Action) (k : ℕ) (p : ℕ × ActionEvent) : Prop :=
  ∃ v, (productPairs (performPerspectiveShift order s a.owner) a)[k]? = some (v, p.2) ∧
    (order.worlds (shiftVisited s a.owner))[v.id]? = some p.1

/-- The planner's product is the product of the shifted model. -/
theorem isBisimulation_shiftedPair (hs : s.WellFormed) :
    IsBisimulation
      ((performProductUpdate (performPerspectiveShift order s a.owner) a).model id)
      (((s.model id).shift a.owner).update a.eventModel) (shiftedPair order s a) := by
  have hshift := wellFormed_performPerspectiveShift order s a.owner
  have h := (isBisimulation_performProductUpdate (a := a) hshift).comp
    (@isBisimulation_performPerspectiveShift order s a.owner hs).update
  have heq : Relation.Comp (productWorldOf (performPerspectiveShift order s a.owner) a)
      (Kripke.updateRel ((performPerspectiveShift order s a.owner).model id) a.eventModel
        fun k u ↦ (order.worlds (shiftVisited s a.owner))[k]? = some u) =
      shiftedPair order s a := by
    funext k ⟨u, e⟩
    refine propext ⟨?_, ?_⟩
    · rintro ⟨⟨x, f⟩, ⟨v, hk, rfl⟩, -, hu, rfl⟩
      exact ⟨v, hk, hu⟩
    · rintro ⟨v, hk, hu⟩
      have hv : productWorldOf (performPerspectiveShift order s a.owner) a k (v.id, e) :=
        ⟨v, hk, rfl⟩
      exact ⟨(v.id, e), hv, (productWorldOf_mem hshift hv).1, hu, rfl⟩
  rwa [heq] at h

/-- An index has one pair. -/
theorem shiftedPair.right_unique {k : ℕ} {p q : ℕ × ActionEvent} (hp : shiftedPair order s a k p)
    (hq : shiftedPair order s a k q) : p = q := by
  obtain ⟨v, hk, hv⟩ := hp
  obtain ⟨v', hk', hv'⟩ := hq
  obtain ⟨rfl, he⟩ := Prod.mk.inj (Option.some.inj (hk.symm.trans hk'))
  exact Prod.ext (Option.some.inj (hv.symm.trans hv')) he

/-- A pair has one index, when its event is listed once. -/
theorem shiftedPair.left_unique {k l : ℕ} {p : ℕ × ActionEvent} (he : a.events.count p.2 = 1)
    (hk : shiftedPair order s a k p) (hl : shiftedPair order s a l p) : k = l := by
  have hshift := wellFormed_performPerspectiveShift order s a.owner
  obtain ⟨v, hk, hv⟩ := hk
  obtain ⟨v', hl, hv'⟩ := hl
  have hid : v.id = v'.id :=
    (List.getElem?_inj (List.getElem?_eq_some_iff.1 hv).1 nodup_shiftVisited).1 (hv.trans hv'.symm)
  obtain rfl : v = v' := by
    rw [← (hshift.getWorld_id (mem_productPairs.1 (List.mem_of_getElem? hk)).1).2, hid,
      (hshift.getWorld_id (mem_productPairs.1 (List.mem_of_getElem? hl)).1).2]
  exact index_unique hshift he hk hl

/-- The pairs the source lists are the worlds of the product of models. -/
theorem mem_worlds_update_iff (hs : s.WellFormed) {p : ℕ × ActionEvent} :
    p ∈ ((s.model id).update a.eventModel).worlds ↔
      ∃ v, (v, p.2) ∈ productPairs s a ∧ v.id = p.1 := by
  constructor
  · intro hp
    obtain ⟨k, v, hk, hv⟩ := exists_productWorldOf hs hp
    exact ⟨v, List.mem_of_getElem? hk, hv⟩
  · rintro ⟨v, hmem, hv⟩
    obtain ⟨k, hk⟩ := List.mem_iff_getElem?.1 hmem
    exact (productWorldOf_mem hs ⟨v, hk, hv⟩).1

namespace Settled

/-- The shift drops no world of the product. -/
theorem mem_update_shift (h : Settled s a w e) (hs : s.WellFormed) {p : ℕ × ActionEvent}
    (hp : p ∈ ((s.model id).update a.eventModel).worlds) :
    p ∈ (((s.model id).shift a.owner).update a.eventModel).worlds := by
  obtain ⟨v, hmem, hv⟩ := (mem_worlds_update_iff hs).1 hp
  have hreached := mem_getDesignatedWorldReachables.1 (h.reached _ hmem)
  rw [hv] at hreached
  exact ⟨hreached, hp.2⟩

/-- The one designated new world. -/
theorem mem_designated_iff (h : Settled s a w e) (hs : s.WellFormed) {p : ℕ × ActionEvent} :
    p ∈ ((s.model id).update a.eventModel).designated ↔ p = (w.id, e) := by
  constructor
  · rintro ⟨hp, hw, he⟩
    obtain ⟨v, hmem, hv⟩ := (mem_worlds_update_iff hs).1 hp
    have heq := (h.designated_iff _ hmem).1 ⟨State.isWorldDesignated_iff.2 (hv ▸ hw), he⟩
    obtain ⟨rfl, hpe⟩ := Prod.mk.inj heq
    exact Prod.ext hv.symm hpe
  · rintro rfl
    obtain ⟨hw, he⟩ := (h.designated_iff _ h.mem).2 rfl
    exact ⟨(mem_worlds_update_iff hs).2 ⟨w, h.mem, rfl⟩, State.isWorldDesignated_iff.1 hw, he⟩

/-- The one pair of the owner. -/
theorem rel_owner_iff (h : Settled s a w e) (hs : s.WellFormed) {p q : ℕ × ActionEvent} :
    ((s.model id).update a.eventModel).rel a.owner p q ↔ p = (w.id, e) ∧ q = (w.id, e) := by
  constructor
  · rintro ⟨hp, hq, hr, hre⟩
    obtain ⟨v, hv, hvp⟩ := (mem_worlds_update_iff hs).1 hp
    obtain ⟨v', hv', hvq⟩ := (mem_worlds_update_iff hs).1 hq
    have hrel : productRelated s a a.owner (v, p.2) (v', q.2) = true := by
      refine productRelated_iff.2 ⟨?_, hre⟩
      rw [show ((v, p.2) : World × ActionEvent).1.id = p.1 from hvp,
        show ((v', q.2) : World × ActionEvent).1.id = q.1 from hvq]
      exact hr
    obtain ⟨hp', hq'⟩ := (h.related_iff _ hv _ hv').1 hrel
    obtain ⟨rfl, hpe⟩ := Prod.mk.inj hp'
    obtain ⟨rfl, hqe⟩ := Prod.mk.inj hq'
    exact ⟨Prod.ext hvp.symm hpe, Prod.ext hvq.symm hqe⟩
  · rintro ⟨rfl, rfl⟩
    have hmem : (w.id, e) ∈ ((s.model id).update a.eventModel).worlds :=
      (mem_worlds_update_iff hs).2 ⟨w, h.mem, rfl⟩
    obtain ⟨hr, hre⟩ := productRelated_iff.1 ((h.related_iff _ h.mem _ h.mem).2 ⟨rfl, rfl⟩)
    exact ⟨hmem, hmem, hr, hre⟩

/-- **The split at the index of the settled pair is the product**, up to the numbers of the
worlds. -/
theorem isBisimulation_split (h : Settled s a w e) (hs : s.WellFormed) {k : ℕ}
    (hk : shiftedPair order s a k (w.id, e)) :
    IsBisimulation
      (((performProductUpdate (performPerspectiveShift order s a.owner) a).setGlobalForAgent
        a.owner k).model id)
      ((s.model id).update a.eventModel) (shiftedPair order s a) := by
  have hY := @isBisimulation_shiftedPair order s a hs
  have hlt : a.owner < (performProductUpdate (performPerspectiveShift order s a.owner)
      a).indistinguishabilityRelation.length := by
    rw [(wellFormed_performProductUpdate _ a).length_relation]
    exact hs.agent_lt ((h.rel_owner_iff hs).2 ⟨rfl, rfl⟩).2.2.1
  have hdes := (h.mem_designated_iff hs).2 rfl
  have hworlds : ∀ {p}, p ∈ (((s.model id).shift a.owner).update a.eventModel).worlds →
      p ∈ ((s.model id).update a.eventModel).worlds :=
    fun hp ↦ ⟨(hs.closed_model id).mem_of_reaches hp.1, hp.2⟩
  refine ⟨fun {l p} hl ↦ ⟨(hY.mem hl).1, hworlds (hY.mem hl).2⟩, hY.total_left,
    fun hp ↦ hY.total_right (h.mem_update_shift hs hp), hY.val_eq, fun {j l l' p} hl hr ↦ ?_,
    fun {j l p q} hl hr ↦ ?_, fun {l} hl ↦ ?_, fun {p} hp ↦ ?_⟩
  · have hr' := mem_relations_setGlobalForAgent.1 hr
    split_ifs at hr' with hj
    · obtain ⟨-, rfl, rfl⟩ := hr'
      obtain rfl := hl.right_unique hk
      exact ⟨_, hj ▸ (h.rel_owner_iff hs).2 ⟨rfl, rfl⟩, hk⟩
    · obtain ⟨q, ⟨hp, hq, hrel, hrel'⟩, hz⟩ := hY.forth hl hr'
      exact ⟨q, ⟨hworlds hp, hworlds hq, hrel.2.2, hrel'⟩, hz⟩
  · by_cases hj : j = a.owner
    · subst hj
      obtain ⟨rfl, rfl⟩ := (h.rel_owner_iff hs).1 hr
      obtain rfl := hl.left_unique h.once hk
      exact ⟨_, mem_relations_setGlobalForAgent.2 (by rw [if_pos rfl]; exact ⟨hlt, rfl, rfl⟩), hk⟩
    · obtain ⟨hp, hq, hrel, hrel'⟩ := hr
      have hp' := h.mem_update_shift hs hp
      have hq' := h.mem_update_shift hs hq
      obtain ⟨l', hr', hz⟩ := hY.back hl ⟨hp', hq', ⟨hp'.1, hq'.1, hrel⟩, hrel'⟩
      exact ⟨l', mem_relations_setGlobalForAgent.2 (by rwa [if_neg hj]), hz⟩
  · obtain rfl := List.mem_singleton.1 hl
    exact ⟨_, hdes, hk⟩
  · obtain rfl := (h.mem_designated_iff hs).1 hp
    exact ⟨k, List.mem_singleton.2 rfl, hk⟩

/-- **The planner predicts a settled action**: one of its outcomes is bisimilar to the product. -/
theorem exists_outcome (h : Settled s a w e) (order : HashOrder) (hs : s.WellFormed) :
    ∃ t ∈ outcomes order s a, Bisimilar (t.model id) ((performProductUpdate s a).model id) := by
  have hdes := (h.mem_designated_iff hs).2 rfl
  have hmem := h.mem_update_shift hs hdes.1
  obtain ⟨k, hk, hz⟩ := (@isBisimulation_shiftedPair order s a hs).designated_right
    ⟨hmem, hmem.1, hdes.2.2⟩
  refine ⟨_, List.mem_map.2 ⟨k, hk, rfl⟩, ?_⟩
  exact ⟨_, (h.isBisimulation_split hs hz).comp (isBisimulation_performProductUpdate hs).symm⟩

/-- The prediction is met by every state that matches the one it was made for: the check finds the
outcome bisimilar to the product there, and what holds in the outcome holds in the product. -/
theorem exists_outcome_matching {t : State} (h : Settled s a w e) (hs : s.WellFormed)
    (ht : t.WellFormed) (hkeys : DistinctKeys s t) (hmatch : areStatesBisimilar order s t = true) :
    ∃ u ∈ outcomes order s a, areStatesBisimilar order u (performProductUpdate t a) = true ∧
      ∀ f, u.valuate f = true → (performProductUpdate t a).valuate f = true := by
  obtain ⟨u, hu, hpredicted⟩ := h.exists_outcome order hs
  have hproduct := (performProductUpdate_congr order order s t a hs ht
    (bisimilar_of_areStatesBisimilar hs ht hkeys hmatch)).2
  obtain ⟨Z, hZ⟩ := hpredicted.trans hproduct
  have hn : u.numberOfAgents = (performProductUpdate t a).numberOfAgents := by
    obtain ⟨k, -, rfl⟩ := List.mem_map.1 hu
    exact ((isBisimilar_eq_true_iff order hs ht).1 hmatch).1
  have huwf := wellFormed_of_mem_splitIntoGlobalStates (wellFormed_performProductUpdate _ _) hu
  refine ⟨u, hu, ?_, fun f ↦ valuate_of_designated (fun v hv ↦ hZ.designated_right hv)
    fun hz ↦ hZ.val_eq hz⟩
  exact areStatesBisimilar_of_bisimilar order huwf (wellFormed_performProductUpdate t a) hn ⟨Z, hZ⟩

end Settled

end Del
