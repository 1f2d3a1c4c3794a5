import R2DTU.Library.Worklist
import R2DTU.Planner.Formula
import Mathlib.Data.List.GetD

/-!
# Epistemic states

A `State` is a vector of worlds, a list of designated worlds and, for every agent, a list of pairs
of worlds the agent cannot tell apart. Worlds, agents and events are numbered from zero and the
source indexes its vectors with these numbers without a check; here an index outside a vector reads
as an empty entry, and `State.WellFormed` is the condition under which no such index occurs.
-/

namespace Del

/-- `World`: its id and the set of propositions true in it. -/
structure World where
  id : ℕ
  truePropositions : Finset String
  deriving DecidableEq

namespace World

def addTruePropositions (w : World) (propositions : Finset String) : World :=
  { w with truePropositions := w.truePropositions ∪ propositions }

def removeTruePropositions (w : World) (propositions : Finset String) : World :=
  { w with truePropositions := w.truePropositions \ propositions }

def valuate (w : World) (formula : BuiltFormula) : Bool :=
  formula.valuate w.truePropositions

end World

/-- `World_Relation`: an ordered pair of worlds. -/
structure WorldRelation where
  worldFrom : ℕ
  worldTo : ℕ
  deriving DecidableEq

/-- The second worlds of the pairs that start at `world`, in list order. -/
def successorsIn (relations : List WorldRelation) (world : ℕ) : List ℕ :=
  relations.filterMap fun r ↦ if r.worldFrom = world then some r.worldTo else none

theorem mem_successorsIn {relations : List WorldRelation} {u v : ℕ} :
    v ∈ successorsIn relations u ↔ ⟨u, v⟩ ∈ relations := by
  simp only [successorsIn, List.mem_filterMap, Option.ite_none_right_eq_some, Option.some.injEq]
  constructor
  · rintro ⟨⟨u', v'⟩, hr, rfl, rfl⟩
    exact hr
  · exact fun hr ↦ ⟨⟨u, v⟩, hr, rfl, rfl⟩

/-- `State`: an epistemic model with designated worlds. -/
structure State where
  numberOfAgents : ℕ
  /-- The worlds, each at the place of its id. -/
  worlds : List World
  /-- The ids of the worlds that may be the actual one. -/
  designatedWorlds : List ℕ
  /-- For each agent, the pairs of worlds it does not tell apart. -/
  indistinguishabilityRelation : List (List WorldRelation)
  deriving DecidableEq

namespace State

/-- `get_indistinguishability_relations`: which worlds an agent confuses. -/
def getIndistinguishabilityRelations (s : State) (agent : ℕ) : List WorldRelation :=
  s.indistinguishabilityRelation.getD agent []

/-- `get_world`: the world with an id, which is its place. -/
def getWorld (s : State) (world : ℕ) : World := s.worlds.getD world ⟨world, ∅⟩

/-- `is_one_reachable`: some listed pair of the agent leads from the first world to the second. -/
def isOneReachable (s : State) (agent world₁ world₂ : ℕ) : Bool :=
  (s.getIndistinguishabilityRelations agent).any fun r ↦
    r.worldFrom == world₁ && r.worldTo == world₂

/-- `is_world_designated`: the world may be the actual one. -/
def isWorldDesignated (s : State) (world : ℕ) : Bool := s.designatedWorlds.contains world

/-- `State::valuate`: the formula is true in every designated world. -/
def valuate (s : State) (formula : BuiltFormula) : Bool :=
  s.designatedWorlds.all fun w ↦ (s.getWorld w).valuate formula

/-- `set_global_for_agent`: one designated world, which becomes the only pair of the agent. -/
def setGlobalForAgent (s : State) (agent world : ℕ) : State :=
  { s with
    designatedWorlds := [world]
    indistinguishabilityRelation := s.indistinguishabilityRelation.set agent [⟨world, world⟩] }

/-- The worlds the agent's pairs lead to from `world`, in list order. -/
def successors (s : State) (agent world : ℕ) : List ℕ :=
  successorsIn (s.getIndistinguishabilityRelations agent) world

theorem mem_successors {s : State} {agent u v : ℕ} :
    v ∈ s.successors agent u ↔ ⟨u, v⟩ ∈ s.getIndistinguishabilityRelations agent :=
  mem_successorsIn

theorem isOneReachable_iff {s : State} {agent u v : ℕ} :
    s.isOneReachable agent u v = true ↔ ⟨u, v⟩ ∈ s.getIndistinguishabilityRelations agent := by
  simp only [isOneReachable, List.any_eq_true, Bool.and_eq_true, beq_iff_eq]
  constructor
  · rintro ⟨⟨u', v'⟩, hr, rfl, rfl⟩
    exact hr
  · exact fun hr ↦ ⟨⟨u, v⟩, hr, rfl, rfl⟩

theorem successors_subset (s : State) (agent : ℕ) :
    ∀ u, ∀ v ∈ s.successors agent u,
      v ∈ (s.getIndistinguishabilityRelations agent).map WorldRelation.worldTo :=
  fun _ _ hv ↦ List.mem_map.2 ⟨_, mem_successors.1 hv, rfl⟩

/-- `get_designated_world_reachables`: the worklist started from all designated worlds. The last
designated world is on top of the stack. -/
def getDesignatedWorldReachables (s : State) (agent : ℕ) : List ℕ :=
  Worklist.closure (s.successors agent)
    ((s.getIndistinguishabilityRelations agent).map WorldRelation.worldTo)
    (s.successors_subset agent) s.designatedWorlds.reverse s.designatedWorlds

/-- World `k` has id `k`, all pairs and designated ids are existing worlds, and there is one list
of pairs per agent. -/
structure WellFormed (s : State) : Prop where
  /-- An id is a place. -/
  id_eq {k : ℕ} {w : World} (h : s.worlds[k]? = some w) : w.id = k
  /-- Designated worlds are there. -/
  designated_lt {w : ℕ} (h : w ∈ s.designatedWorlds) : w < s.worlds.length
  /-- So are the worlds that agents confuse. -/
  relation_lt {agent : ℕ} {r : WorldRelation}
    (h : r ∈ s.getIndistinguishabilityRelations agent) :
    r.worldFrom < s.worlds.length ∧ r.worldTo < s.worlds.length
  /-- Each agent has a list of pairs. -/
  length_relation : s.indistinguishabilityRelation.length = s.numberOfAgents

/-- Only existing agents have pairs. -/
theorem WellFormed.agent_lt {s : State} (h : s.WellFormed) {agent : ℕ} {r : WorldRelation}
    (hr : r ∈ s.getIndistinguishabilityRelations agent) : agent < s.numberOfAgents := by
  by_contra hge
  rw [getIndistinguishabilityRelations,
    List.getD_eq_default _ _ (h.length_relation ▸ Nat.le_of_not_lt hge)] at hr
  exact List.not_mem_nil hr

theorem wellFormed_iff {s : State} :
    s.WellFormed ↔ (∀ k < s.worlds.length, (s.getWorld k).id = k) ∧
      (∀ w ∈ s.designatedWorlds, w < s.worlds.length) ∧
      (∀ relations ∈ s.indistinguishabilityRelation, ∀ r ∈ relations,
        r.worldFrom < s.worlds.length ∧ r.worldTo < s.worlds.length) ∧
      s.indistinguishabilityRelation.length = s.numberOfAgents := by
  constructor
  · intro h
    refine ⟨fun k hk ↦ ?_, fun _ ↦ h.designated_lt, fun relations hm r hr ↦ ?_, h.length_relation⟩
    · have hget : s.worlds[k]? = some s.worlds[k] := List.getElem?_eq_getElem hk
      rw [getWorld, List.getD_eq_getElem?_getD, hget]
      exact h.id_eq hget
    · obtain ⟨agent, hagent, rfl⟩ := List.getElem_of_mem hm
      have hr' : r ∈ s.getIndistinguishabilityRelations agent := by
        rwa [getIndistinguishabilityRelations, List.getD_eq_getElem _ _ hagent]
      exact h.relation_lt hr'
  · rintro ⟨hid, hdes, hrel, hlen⟩
    refine ⟨fun {k w} h ↦ ?_, fun {w} ↦ hdes w, fun {agent r} h ↦ ?_, hlen⟩
    · have hk := hid k (List.getElem?_eq_some_iff.1 h).1
      rwa [getWorld, List.getD_eq_getElem?_getD, h] at hk
    · rcases Nat.lt_or_ge agent s.indistinguishabilityRelation.length with hlt | hge
      · rw [getIndistinguishabilityRelations, List.getD_eq_getElem _ _ hlt] at h
        exact hrel _ (List.getElem_mem hlt) r h
      · rw [getIndistinguishabilityRelations, List.getD_eq_default _ _ hge] at h
        exact absurd h List.not_mem_nil

/-- Well-formedness of a concrete state can be evaluated. -/
instance (s : State) : Decidable s.WellFormed := decidable_of_iff _ wellFormed_iff.symm

/-- One agent, and one world with the given propositions. -/
def ofPropositions (propositions : Finset String) : State :=
  ⟨1, [⟨0, propositions⟩], [0], [[⟨0, 0⟩]]⟩

end State

end Del
