import Mathlib.Data.List.Basic
import Mathlib.Data.List.Nodup

/-!
# The epistemic library

`EpistemicReasoning` keeps its knowledge in a `del::domain` of a library that is not part of this
repository. `DelDomain` has the functions it calls, over types of its own for domains and ids, and
`Lawful` what is relied on: ids of declared propositions, what holds in a new domain, and what
`perform_do` changes. Nothing is assumed about beliefs or about attention.

A domain has a history of states; the functions that act return the new one, and `Latest` says that
a state is the one the last of them returned.

`plainDomain` is a lawful library with a single world per state, for evaluating examples.
-/

namespace Reasoning

/-- The formulas of the library. -/
inductive DelFormula (AgentId PropositionId : Type)
  | null
  | prop (p : PropositionId)
  | believes (agent : AgentId) (inner : DelFormula AgentId PropositionId)
  | not (inner : DelFormula AgentId PropositionId)
  | and (left right : DelFormula AgentId PropositionId)
  | or (left right : DelFormula AgentId PropositionId)

/-- `isNull`: the formula that stands for a query that could not be built. -/
def DelFormula.isNull {A P : Type} : DelFormula A P → Bool
  | null => true
  | _ => false

/-- What the code uses of `del::domain`. Look-ups that throw return an option. -/
structure DelDomain where
  Domain : Type
  AgentId : Type
  PropositionId : Type
  StateId : Type
  /-- The constructor: agents, propositions and their default values. -/
  create : List String → List String → List Bool → Domain
  /-- The id that `0` converts to. -/
  agentZero : AgentId
  getAgentId : Domain → String → Option AgentId
  getPropositionId : Domain → String → Option PropositionId
  getAttentionPropositionId : Domain → AgentId → PropositionId → PropositionId
  getDomainNonAttentionPropositionsId : Domain → List PropositionId
  addInitialState : Domain → List PropositionId → Domain × StateId
  performDo : Domain → AgentId → List PropositionId → List PropositionId → Domain × StateId
  performMinimalBottomUp :
    Domain → List AgentId → List PropositionId → List PropositionId → Domain × StateId
  performConsciousTopDown :
    Domain → AgentId → List PropositionId → List PropositionId → Domain × StateId
  evaluateFormula : Domain → StateId → DelFormula AgentId PropositionId → Bool

namespace DelDomain

/-- The state a domain returned last. -/
inductive Latest (L : DelDomain) : L.Domain → L.StateId → Prop
  | addInitialState (d : L.Domain) (init : List L.PropositionId) :
    Latest L (L.addInitialState d init).1 (L.addInitialState d init).2
  | performDo (d : L.Domain) (a : L.AgentId) (add del : List L.PropositionId) :
    Latest L (L.performDo d a add del).1 (L.performDo d a add del).2
  | performMinimalBottomUp (d : L.Domain) (as : List L.AgentId) (add del : List L.PropositionId) :
    Latest L (L.performMinimalBottomUp d as add del).1 (L.performMinimalBottomUp d as add del).2
  | performConsciousTopDown (d : L.Domain) (a : L.AgentId) (add del : List L.PropositionId) :
    Latest L (L.performConsciousTopDown d a add del).1 (L.performConsciousTopDown d a add del).2

/-- **What is relied on.** -/
structure Lawful (L : DelDomain) : Prop where
  /-- Declared agents have an id. -/
  getAgentId_create {agents props : List String} {defaults : List Bool} {name : String} :
    name ∈ agents → (L.getAgentId (L.create agents props defaults) name).isSome
  /-- Declared propositions, and no others, have an id. -/
  getPropositionId_create {agents props : List String} {defaults : List Bool} {name : String} :
    (L.getPropositionId (L.create agents props defaults) name).isSome ↔ name ∈ props
  /-- Different propositions have different ids. -/
  getPropositionId_inj {d : L.Domain} {name name' : String} {p : L.PropositionId} :
    L.getPropositionId d name = some p → L.getPropositionId d name' = some p → name = name'
  /-- An attention proposition is none of the declared ones. -/
  attention_ne {d : L.Domain} {name : String} {p q : L.PropositionId} {a : L.AgentId} :
    L.getPropositionId d name = some p → L.getAttentionPropositionId d a q ≠ p
  /-- Acting does not change ids. -/
  getPropositionId_addInitialState (d : L.Domain) (init : List L.PropositionId) :
    L.getPropositionId (L.addInitialState d init).1 = L.getPropositionId d
  getPropositionId_performDo (d : L.Domain) (a : L.AgentId) (add del : List L.PropositionId) :
    L.getPropositionId (L.performDo d a add del).1 = L.getPropositionId d
  /-- A new domain whose defaults are all false holds the initial propositions. -/
  evaluate_initial {agents props : List String} {defaults : List Bool}
    {init : List L.PropositionId} {name : String} {p : L.PropositionId} :
    (∀ b ∈ defaults, b = false) →
    L.getPropositionId (L.create agents props defaults) name = some p →
    (L.evaluateFormula (L.addInitialState (L.create agents props defaults) init).1
      (L.addInitialState (L.create agents props defaults) init).2 (.prop p) = true ↔ p ∈ init)
  /-- `perform_do` sets and clears exactly the given propositions. -/
  evaluate_performDo {d : L.Domain} {s : L.StateId} {a : L.AgentId}
    {add del : List L.PropositionId} {name : String} {p : L.PropositionId} :
    L.Latest d s → L.getPropositionId d name = some p →
    (L.evaluateFormula (L.performDo d a add del).1 (L.performDo d a add del).2 (.prop p) = true ↔
      p ∈ add ∨ p ∉ del ∧ L.evaluateFormula d s (.prop p) = true)

end DelDomain

/-! ### A library with one world -/

/-- A domain whose states are the lists of true propositions. -/
structure PlainDomain where
  agents : List String
  props : List String
  defaults : List Bool
  states : List (List ℕ)

namespace PlainDomain

/-- Propositions are numbered in order; after them come the attention propositions. -/
def attention (d : PlainDomain) (a p : ℕ) : ℕ := d.props.length + (a * d.props.length + p)

/-- The propositions that are true in the last state. -/
def current (d : PlainDomain) : List ℕ := d.states.getLastD []

/-- One more state. -/
def act (d : PlainDomain) (state : List ℕ) : PlainDomain × ℕ :=
  ({ d with states := d.states ++ [state] }, d.states.length)

/-- The last state with some propositions set and some cleared. -/
def change (d : PlainDomain) (add del : List ℕ) : PlainDomain × ℕ :=
  d.act (d.current.filter (fun p ↦ p ∉ del) ++ add)

/-- Beliefs are what is true. -/
def evaluate (d : PlainDomain) (s : ℕ) : DelFormula ℕ ℕ → Bool
  | .null => false
  | .prop p => p ∈ d.states.getD s []
  | .believes _ inner => d.evaluate s inner
  | .not inner => !d.evaluate s inner
  | .and left right => d.evaluate s left && d.evaluate s right
  | .or left right => d.evaluate s left || d.evaluate s right

/-- The propositions that are true by default. -/
def defaultTrue (d : PlainDomain) : List ℕ :=
  (List.range d.props.length).filter fun i ↦ d.defaults[i]? = some true

end PlainDomain

/-- The library with one world. -/
def plainDomain : DelDomain where
  Domain := PlainDomain
  AgentId := ℕ
  PropositionId := ℕ
  StateId := ℕ
  create := fun agents props defaults ↦ ⟨agents, props, defaults, []⟩
  agentZero := 0
  getAgentId := fun d name ↦ d.agents.idxOf? name
  getPropositionId := fun d name ↦ d.props.idxOf? name
  getAttentionPropositionId := PlainDomain.attention
  getDomainNonAttentionPropositionsId := fun d ↦ List.range d.props.length
  addInitialState := fun d init ↦ d.act (d.defaultTrue ++ init)
  performDo := fun d _ add del ↦ d.change add del
  performMinimalBottomUp := fun d as add del ↦
    d.change (as.flatMap fun a ↦ add.map (d.attention a))
      (as.flatMap fun a ↦ del.map (d.attention a))
  performConsciousTopDown := fun d a add del ↦
    d.change (add.map (d.attention a)) (del.map (d.attention a))
  evaluateFormula := PlainDomain.evaluate

namespace PlainDomain

variable {d : PlainDomain}

theorem evaluate_prop (d : PlainDomain) (s p : ℕ) :
    d.evaluate s (.prop p) = true ↔ p ∈ d.states.getD s [] := by
  rw [evaluate, decide_eq_true_eq]

theorem evaluate_act (d : PlainDomain) (state : List ℕ) (p : ℕ) :
    (d.act state).1.evaluate (d.act state).2 (.prop p) = true ↔ p ∈ state := by
  simp [act, evaluate]

theorem current_act (d : PlainDomain) (state : List ℕ) :
    (d.act state).1.current = (d.act state).1.states.getD (d.act state).2 [] := by
  simp [act, current]

theorem evaluate_change (d : PlainDomain) (add del : List ℕ) (p : ℕ) :
    (d.change add del).1.evaluate (d.change add del).2 (.prop p) = true ↔
      p ∈ add ∨ p ∉ del ∧ p ∈ d.current := by
  rw [change, evaluate_act, List.mem_append, List.mem_filter, decide_eq_true_eq]
  exact or_comm.trans (or_congr_right and_comm)

/-- Nothing is true by default when all defaults are false. -/
theorem defaultTrue_eq_nil (h : ∀ b ∈ d.defaults, b = false) : d.defaultTrue = [] := by
  rw [defaultTrue, List.filter_eq_nil_iff]
  intro i _ hi
  have htrue := h true (List.mem_of_getElem? (of_decide_eq_true hi))
  exact absurd htrue (by decide)

theorem evaluate_initial (h : ∀ b ∈ d.defaults, b = false) (init : List ℕ) (p : ℕ) :
    (d.act (d.defaultTrue ++ init)).1.evaluate (d.act (d.defaultTrue ++ init)).2 (.prop p) = true ↔
      p ∈ init := by
  rw [evaluate_act, defaultTrue_eq_nil h, List.nil_append]

/-- The number of a declared proposition is the position of its name. -/
theorem getElem?_of_idxOf? {props : List String} {name : String} {p : ℕ}
    (h : props.idxOf? name = some p) : props[p]? = some name := by
  obtain ⟨hp, hname, -⟩ := List.idxOf?_eq_some_iff.1 h
  rw [List.getElem?_eq_getElem hp, hname]

theorem attention_ne {name : String} {p q a : ℕ} (h : d.props.idxOf? name = some p) :
    d.attention a q ≠ p := by
  have hp := (List.getElem?_eq_some_iff.1 (getElem?_of_idxOf? h)).1
  rw [attention]
  omega

theorem current_of_latest {d : plainDomain.Domain} {s : plainDomain.StateId}
    (h : plainDomain.Latest d s) : PlainDomain.current d = List.getD d.states s [] := by
  cases h <;> exact current_act _ _

end PlainDomain

theorem lawful_plainDomain : plainDomain.Lawful where
  getAgentId_create := List.isSome_idxOf?.2
  getPropositionId_create := List.isSome_idxOf?
  getPropositionId_inj := fun h h' ↦
    Option.some.inj ((PlainDomain.getElem?_of_idxOf? h).symm.trans
      (PlainDomain.getElem?_of_idxOf? h'))
  attention_ne := PlainDomain.attention_ne
  getPropositionId_addInitialState := fun _ _ ↦ rfl
  getPropositionId_performDo := fun _ _ _ _ ↦ rfl
  evaluate_initial := fun {agents props defaults init _ p} hdefaults _ ↦
    @PlainDomain.evaluate_initial ⟨agents, props, defaults, []⟩ hdefaults init p
  evaluate_performDo := fun {d s _ add del _ p} hlatest _ ↦ by
    refine (PlainDomain.evaluate_change d add del p).trans ?_
    rw [PlainDomain.current_of_latest hlatest]
    exact or_congr_right (and_congr_right fun _ ↦ (PlainDomain.evaluate_prop d s p).symm)

end Reasoning
