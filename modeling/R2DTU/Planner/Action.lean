import R2DTU.Planner.Formula

/-!
# Epistemic actions

An `Action` has events in place of worlds: an event has a precondition and changes the valuation by
a delete list and an add list. Its owner is the agent from whose perspective it is performed.
-/

namespace Del

/-- `Action_Event`: what has to hold for the event, and the propositions it makes true and false. -/
structure ActionEvent where
  id : ℕ
  /-- Where the event can happen. -/
  precondition : BuiltFormula
  /-- What is true after it. -/
  propositionAdd : Finset String
  /-- What is false after it, unless it is added. -/
  propositionDelete : Finset String
  deriving DecidableEq

/-- `Event_Relation`: an ordered pair of events. -/
structure EventRelation where
  eventFrom : ℕ
  eventTo : ℕ
  deriving DecidableEq

/-- `Action`: its events, which of them may be the actual one, what each agent confuses, and the
agent that acts. -/
structure Action where
  events : List ActionEvent
  /-- The ids of the events that may be the actual one. -/
  designatedEvents : List ℕ
  /-- For each agent, the pairs of events it does not tell apart. -/
  indistinguishabilityRelation : List (List EventRelation)
  /-- The agent that acts. -/
  owner : ℕ
  deriving DecidableEq

namespace Action

/-- The constructor `Action(owner, number_of_agents)`: no events, and an empty list per agent. -/
def new (owner numberOfAgents : ℕ) : Action :=
  ⟨[], [], List.replicate numberOfAgents [], owner⟩

/-- `is_one_reachable`: the agent takes the second event to be possible at the first. -/
def isOneReachable (a : Action) (agent event₁ event₂ : ℕ) : Bool :=
  (a.indistinguishabilityRelation.getD agent []).any fun r ↦
    r.eventFrom == event₁ && r.eventTo == event₂

/-- `is_event_designated`: the event may be the actual one. -/
def isEventDesignated (a : Action) (event : ℕ) : Bool := a.designatedEvents.contains event

/-- An action of agent 0, alone, with the given events, all designated and told apart. -/
def ofEvents (events : List ActionEvent) : Action :=
  ⟨events, List.range events.length, [(List.range events.length).map fun e ↦ ⟨e, e⟩], 0⟩

end Action

/-- `Action_Library`. The planner reads its actions only. -/
structure ActionLibrary where
  actions : List Action
  deriving DecidableEq

end Del
