import R2DTU.Planner.State
import R2DTU.Planner.Action
import Mathlib.Data.List.Perm.Basic
import Mathlib.Data.List.Dedup

/-!
# Product update, perspective shift, split and applicability

The operations of `DEL_Operations` on states and actions. The three that build states renumber the
worlds: the product by the order in which pairs of a world and an event are met, the shift by the
order in which a hash set is iterated, the split not at all.

The iteration order of the standard unordered containers is unspecified. `HashOrder` stands for it:
any function that rearranges the inserted keys. Every definition that iterates such a container
takes one, and every result holds for all of them.

The last section shows that the three operations keep `State.WellFormed`, from which the planner
derives that every state of its search is well formed.
-/

namespace Del

/-- The order in which the unordered containers are iterated, as a rearrangement of the keys in
insertion order. -/
structure HashOrder where
  /-- How a set of worlds is iterated. -/
  worlds : List ℕ → List ℕ
  /-- No world is left out or taken twice. -/
  worlds_perm (l : List ℕ) : (worlds l).Perm l
  /-- How a map with text keys is iterated. -/
  keys : List String → List String
  /-- No key is left out or taken twice. -/
  keys_perm (l : List String) : (keys l).Perm l

/-- Iteration in insertion order. -/
def HashOrder.insertion : HashOrder := ⟨id, fun _ ↦ .refl _, id, fun _ ↦ .refl _⟩

/-! ### Product update -/

/-- The pairs of a world and an event whose precondition holds there, in the order of the two
nested loops. The new world of the `k`-th pair has id `k`. -/
def productPairs (s : State) (a : Action) : List (World × ActionEvent) :=
  s.worlds.flatMap fun w ↦
    a.events.filterMap fun e ↦ if w.valuate e.precondition then some (w, e) else none

/-- The new world of a pair: the old valuation less the delete list, plus the add list. -/
def productWorld (k : ℕ) (p : World × ActionEvent) : World :=
  ((⟨k, p.1.truePropositions⟩ : World).removeTruePropositions p.2.propositionDelete)
    |>.addTruePropositions p.2.propositionAdd

/-- Agent `agent` cannot tell the new worlds of the two pairs apart. -/
def productRelated (s : State) (a : Action) (agent : ℕ) (p q : World × ActionEvent) : Bool :=
  s.isOneReachable agent p.1.id q.1.id && a.isOneReachable agent p.2.id q.2.id

/-- `perform_product_update`: a world for each world and event whose precondition holds there, in
the order of both loops; what is designated and what is confused goes by both components. -/
def performProductUpdate (s : State) (a : Action) : State where
  numberOfAgents := s.numberOfAgents
  worlds := (productPairs s a).mapIdx productWorld
  designatedWorlds := (productPairs s a).zipIdx.filterMap fun p ↦
    if s.isWorldDesignated p.1.1.id && a.isEventDesignated p.1.2.id then some p.2 else none
  indistinguishabilityRelation := (List.range s.numberOfAgents).map fun agent ↦
    (productPairs s a).zipIdx.flatMap fun p ↦
      (productPairs s a).zipIdx.filterMap fun q ↦
        if productRelated s a agent p.1 q.1 then some ⟨p.2, q.2⟩ else none

/-! ### Perspective shift -/

/-- The worlds inserted into `visited` by the worklist of `perform_perspective_shift`, in insertion
order. A hash set keeps the first insertion of a key. -/
def shiftVisited (s : State) (agent : ℕ) : List ℕ :=
  Worklist.closure (s.successors agent)
    ((s.getIndistinguishabilityRelations agent).map WorldRelation.worldTo)
    (s.successors_subset agent) s.designatedWorlds.reverse s.designatedWorlds.reverse.dedup.reverse

/-- `perform_perspective_shift`: the visited worlds in the order `order` iterates them, all of them
designated, with the pairs between visited worlds renumbered. -/
def performPerspectiveShift (order : HashOrder) (s : State) (agent : ℕ) : State where
  numberOfAgents := s.numberOfAgents
  worlds := (order.worlds (shiftVisited s agent)).mapIdx fun k w ↦
    ⟨k, (s.getWorld w).truePropositions⟩
  designatedWorlds := List.range (order.worlds (shiftVisited s agent)).length
  indistinguishabilityRelation := (List.range s.numberOfAgents).map fun currentAgent ↦
    (s.getIndistinguishabilityRelations currentAgent).filterMap fun r ↦
      if r.worldFrom ∈ shiftVisited s agent ∧ r.worldTo ∈ shiftVisited s agent then
        some ⟨(order.worlds (shiftVisited s agent)).idxOf r.worldFrom,
          (order.worlds (shiftVisited s agent)).idxOf r.worldTo⟩
      else none

/-! ### Split and applicability -/

/-- `split_into_global_states`: one state per designated world. -/
def splitIntoGlobalStates (s : State) (agent : ℕ) : List State :=
  s.designatedWorlds.map fun w ↦ s.setGlobalForAgent agent w

/-- `is_action_applicable`: every world the owner can reach has an event that applies. -/
def isActionApplicable (s : State) (a : Action) : Bool :=
  (s.getDesignatedWorldReachables a.owner).all fun w ↦
    a.events.any fun e ↦ (s.getWorld w).valuate e.precondition

/-! ### Well-formedness is kept -/

/-- Relations built agent by agent, read back. -/
theorem mem_getD_map_range {n agent : ℕ} {r : WorldRelation} {f : ℕ → List WorldRelation} :
    r ∈ ((List.range n).map f).getD agent [] ↔ agent < n ∧ r ∈ f agent := by
  rcases Nat.lt_or_ge agent n with hlt | hge
  · rw [List.getD_eq_getElem _ _ (by simpa using hlt)]
    simp [hlt]
  · rw [List.getD_eq_default _ _ (by simpa using hge)]
    simp [hge]

theorem snd_lt_of_mem_zipIdx {α : Type} {l : List α} {p : α × ℕ} (h : p ∈ l.zipIdx) :
    p.2 < l.length := by
  obtain ⟨-, hlt, -⟩ := List.mem_zipIdx h
  omega

theorem wellFormed_performProductUpdate (s : State) (a : Action) :
    (performProductUpdate s a).WellFormed where
  id_eq {k w} h := by
    simp only [performProductUpdate, List.getElem?_mapIdx, Option.map_eq_some_iff] at h
    obtain ⟨p, -, rfl⟩ := h
    rfl
  designated_lt {w} h := by
    simp only [performProductUpdate, List.mem_filterMap, Option.ite_none_right_eq_some,
      Option.some.injEq] at h
    obtain ⟨p, hp, -, rfl⟩ := h
    simpa [performProductUpdate] using snd_lt_of_mem_zipIdx hp
  relation_lt {agent r} h := by
    obtain ⟨-, hr⟩ := mem_getD_map_range.1 h
    simp only [List.mem_flatMap, List.mem_filterMap, Option.ite_none_right_eq_some,
      Option.some.injEq] at hr
    obtain ⟨p, hp, q, hq, -, rfl⟩ := hr
    exact ⟨by simpa [performProductUpdate] using snd_lt_of_mem_zipIdx hp,
      by simpa [performProductUpdate] using snd_lt_of_mem_zipIdx hq⟩
  length_relation := by simp [performProductUpdate]

theorem wellFormed_performPerspectiveShift (order : HashOrder) (s : State) (agent : ℕ) :
    (performPerspectiveShift order s agent).WellFormed where
  id_eq {k w} h := by
    simp only [performPerspectiveShift, List.getElem?_mapIdx, Option.map_eq_some_iff] at h
    obtain ⟨p, -, rfl⟩ := h
    rfl
  designated_lt {w} h := by simpa [performPerspectiveShift] using h
  relation_lt {currentAgent r} h := by
    obtain ⟨-, hr⟩ := mem_getD_map_range.1 h
    simp only [List.mem_filterMap, Option.ite_none_right_eq_some, Option.some.injEq] at hr
    obtain ⟨r', -, ⟨hfrom, hto⟩, rfl⟩ := hr
    have hperm := order.worlds_perm (shiftVisited s agent)
    simp only [performPerspectiveShift, List.length_mapIdx]
    exact ⟨List.idxOf_lt_length_of_mem (hperm.mem_iff.2 hfrom),
      List.idxOf_lt_length_of_mem (hperm.mem_iff.2 hto)⟩
  length_relation := by simp [performPerspectiveShift]

theorem wellFormed_of_mem_splitIntoGlobalStates {s t : State} {agent : ℕ} (hs : s.WellFormed)
    (ht : t ∈ splitIntoGlobalStates s agent) : t.WellFormed := by
  obtain ⟨w, hw, rfl⟩ := List.mem_map.1 ht
  have hlt : w < s.worlds.length := hs.designated_lt hw
  refine ⟨fun h ↦ hs.id_eq h, fun h ↦ ?_, fun {agent' r} h ↦ ?_, ?_⟩
  · rw [List.mem_singleton.1 h]
    exact hlt
  · simp only [State.getIndistinguishabilityRelations, State.setGlobalForAgent,
      List.getD_eq_getElem?_getD, List.getElem?_set] at h
    split_ifs at h with heq hin
    · rw [Option.getD_some, List.mem_singleton] at h
      rw [h]
      exact ⟨hlt, hlt⟩
    · simp at h
    · exact hs.relation_lt (by
        rwa [State.getIndistinguishabilityRelations, List.getD_eq_getElem?_getD])
  · simpa [State.setGlobalForAgent] using hs.length_relation

end Del
