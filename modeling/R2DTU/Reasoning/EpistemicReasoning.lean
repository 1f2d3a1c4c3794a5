import R2DTU.Reasoning.DelDomain
import R2DTU.Planner.Operations
import Mathlib.Algebra.Group.Int.Defs

/-!
# Epistemic reasoning

`EpistemicReasoning` registers objects and agents under their names and turns every registration
into a new domain (`setupDomain`). Which pairs of objects get a proposition `in(fst,snd)` is read
off the numbers in the names. Between registrations the domain is changed by what is seen: agents
appear and disappear, and things are put into containers and taken out of them.

Queries are trees with variables. They are turned into a formula by substituting an object for the
variable; a predicate that is not declared becomes the null formula.

What the source throws or asserts is `none` here. The view and log messages, which read the state
and do not change it, are left out, and so are the positions of containers, which only they use.
-/

namespace Reasoning

/-! ### Queries -/

/-- `Query`: a question about the state, in which a variable stands for an object. -/
inductive Query
  | var (name : String)
  | const (name : String)
  | predicate (name : String) (children : List Query)
  | believes (agent : String) (inner : Query)
  | not (inner : Query)
  | and (left right : Query)
  | or (left right : Query)

mutual

/-- `free_variables`, each once. -/
def freeVariables : Query → List String
  | .const _ => []
  | .var name => [name]
  | .believes _ inner => freeVariables inner
  | .not inner => freeVariables inner
  | .and left right => freeVariables left ∪ freeVariables right
  | .or left right => freeVariables left ∪ freeVariables right
  | .predicate _ children => freeVariablesAll children

/-- The loop of `free_variables` over the arguments of a predicate. -/
def freeVariablesAll : List Query → List String
  | [] => []
  | q :: qs => freeVariables q ∪ freeVariablesAll qs

end

/-- One argument in `reify_predicate`; arguments other than constants and variables add nothing. -/
def reifyLeaf (varMap : String → Option String) : Query → Option String
  | .const name => some name
  | .var name => varMap name
  | _ => some ""

/-- `reify_predicate`: the name of the proposition, once every variable has a value. -/
def reifyPredicate (name : String) (leafs : List Query) (varMap : String → Option String) :
    Option String :=
  (leafs.mapM (reifyLeaf varMap)).map fun args ↦
    name ++ "(" ++ String.intercalate "," args ++ ")"

/-- `build_formula`: the formula of a query under values for its variables, with the ids of the
domain. -/
def buildFormula (L : DelDomain) (d : L.Domain) (varMap : String → Option String) :
    Query → Option (DelFormula L.AgentId L.PropositionId)
  | .believes agent inner => do
    let inner ← buildFormula L d varMap inner
    let a ← L.getAgentId d agent
    return .believes a inner
  | .not inner => do
    let inner ← buildFormula L d varMap inner
    return .not inner
  | .and left right => do
    let left ← buildFormula L d varMap left
    let right ← buildFormula L d varMap right
    return .and left right
  | .or left right => do
    let left ← buildFormula L d varMap left
    let right ← buildFormula L d varMap right
    return .or left right
  | .predicate name children => do
    let pred ← reifyPredicate name children varMap
    -- an unknown proposition throws in the library, and the handler returns a null formula
    match L.getPropositionId d pred with
    | some p => return .prop p
    | none => return .null
  | .var _ => none
  | .const _ => none

/-! ### Names -/

/-- White space as `std::isspace` has it. -/
def isSpace (c : Char) : Bool := c = ' ' || (9 ≤ c.toNat && c.toNat ≤ 13)

/-- The number the digits at the start stand for; `none` when there is no digit. -/
def readDigits (s : List Char) : Option ℕ :=
  match s.takeWhile Char.isDigit with
  | [] => none
  | digits => some (digits.foldl (fun n c ↦ 10 * n + (c.toNat - '0'.toNat)) 0)

/-- A sign and digits. -/
def readSigned : List Char → Option ℤ
  | '-' :: s => (readDigits s).map fun n ↦ -(n : ℤ)
  | '+' :: s => (readDigits s).map fun n ↦ (n : ℤ)
  | s => (readDigits s).map fun n ↦ (n : ℤ)

/-- `std::stoi`; `none` when it throws. -/
def stoi (s : List Char) : Option ℤ :=
  (readSigned (s.dropWhile isSpace)).filter fun n ↦ -2 ^ 31 ≤ n ∧ n < 2 ^ 31

/-- `name.substr(name.find('-') + 1)`: without a dash the whole name, as `npos + 1` is zero. -/
def afterDash (s : List Char) : List Char :=
  match s.dropWhile (· ≠ '-') with
  | [] => s
  | _ :: rest => rest

/-- The number in a name. -/
def nameNumber (name : String) : Option ℤ := stoi (afterDash name.toList)

/-- Names that `setup_domain` takes as the first object of a proposition. -/
def isFst (name : String) : Bool := (nameNumber name).any fun n ↦ n ≤ 1000

/-- Names that `setup_domain` takes as the second object of a proposition. -/
def isSnd (name : String) : Bool := (nameNumber name).any fun n ↦ 200 ≤ n

/-- The name of a proposition. -/
def inProposition (fst snd : String) : String := "in(" ++ fst ++ "," ++ snd ++ ")"

/-- The nested loops of `setup_domain`. -/
def propositions (objects : List String) : List String :=
  (objects.filter isFst).flatMap fun fst ↦
    (objects.filter fun snd ↦ fst ≠ snd ∧ isSnd snd).map (inProposition fst)

/-! ### Registrations and the domain -/

/-- `EpistemicObjectType`: what an object is to the reasoner: a thing, a place for things, or an
agent. -/
inductive EpistemicObjectType
  | storable
  | container
  | agent
  deriving DecidableEq

/-- `Agent::State`: whether an agent is in the room, watches unseen, or has left. -/
inductive Presence
  | present
  | spying
  | away
  deriving DecidableEq

/-- `Agent`: its id in the domain, and where it is. -/
structure Agent (L : DelDomain) where
  /-- Its id in the domain. -/
  id : L.AgentId
  /-- Where it is. -/
  state : Presence

/-- What has been registered. `agentInfos` is a map, written as its entries in order of
insertion. -/
structure Registrations (L : DelDomain) where
  /-- All names, in the order of registration. -/
  allObjects : List String
  /-- The names of agents. -/
  agents : List String
  /-- The names of things. -/
  storable : List String
  /-- The names of places for things. -/
  containers : List String
  /-- What is kept of agents. -/
  agentInfos : List (String × Agent L)

/-- `EpistemicReasoning`: what has been registered, the domain that was made of it, and the state
that events have led to. -/
structure EpistemicReasoning (L : DelDomain) extends Registrations L where
  /-- The domain that was set up last. -/
  domain : L.Domain
  /-- The state that events have led to. -/
  latestState : L.StateId

section Model

variable {L : DelDomain}

namespace Registrations

/-- `agent_infos_.insert` of an agent that is present. -/
def insertAgent (r : Registrations L) (name : String) : List (String × Agent L) :=
  if (r.agentInfos.lookup name).isSome then r.agentInfos
  else r.agentInfos ++ [(name, ⟨L.agentZero, .present⟩)]

/-- `add_object` up to the call of `setup_domain`. -/
def addName (r : Registrations L) (type : EpistemicObjectType) (name : String) : Registrations L :=
  let r := { r with allObjects := r.allObjects ++ [name] }
  match type with
  | .storable => { r with storable := r.storable ++ [name] }
  | .container => { r with containers := r.containers ++ [name] }
  | .agent => { r with agents := r.agents ++ [name], agentInfos := r.insertAgent name }

/-- The assignments to `agent_infos_.at(name).state`. -/
def setState (r : Registrations L) (name : String) (state : Presence) : Registrations L :=
  { r with agentInfos := r.agentInfos.map fun p ↦
      if p.1 = name then (p.1, { p.2 with state := state }) else p }

/-- The ids of the agents in a domain. -/
def withIds (r : Registrations L) (d : L.Domain) : Option (List (String × Agent L)) :=
  r.agentInfos.mapM fun p ↦ (L.getAgentId d p.1).map fun i ↦ (p.1, { p.2 with id := i })

/-- The attention propositions of one agent for every proposition; none when it is away. -/
def attentionOf (d : L.Domain) (props : List String) (a : Agent L) :
    Option (List L.PropositionId) :=
  if a.state = .away then some []
  else props.mapM fun prop ↦
    (L.getPropositionId d prop).map fun p ↦ L.getAttentionPropositionId d a.id p

/-- `initial_propositions`, with the agents in the order of the hash map. -/
def initialPropositions (order : Del.HashOrder) (d : L.Domain) (props : List String)
    (infos : List (String × Agent L)) : Option (List L.PropositionId) :=
  ((order.keys (infos.map Prod.fst)).mapM fun name ↦
    (infos.lookup name).bind (attentionOf d props)).map List.flatten

/-- `setup_domain`: a new domain for all that is registered, with an initial state. -/
def setupDomain (order : Del.HashOrder) (r : Registrations L) : Option (EpistemicReasoning L) := do
  let props := propositions r.allObjects
  let d := L.create r.agents props (props.map fun _ ↦ false)
  let infos ← r.withIds d
  let initial ← initialPropositions order d props infos
  let (d, s) := L.addInitialState d initial
  return { r with agentInfos := infos, domain := d, latestState := s }

end Registrations

namespace EpistemicReasoning

/-- `reset`: nothing is registered but the robot itself. -/
def reset (order : Del.HashOrder) : Option (EpistemicReasoning L) :=
  Registrations.setupDomain order ⟨[], ["R2DTU"], [], [], [("R2DTU", ⟨L.agentZero, .present⟩)]⟩

/-- `add_object`: one more name, and the domain is set up anew. -/
def addObject (order : Del.HashOrder) (e : EpistemicReasoning L) (type : EpistemicObjectType)
    (name : String) : Option (EpistemicReasoning L) :=
  (e.toRegistrations.addName type name).setupDomain order

/-- The domain and its latest state after an action. -/
def acted (e : EpistemicReasoning L) (result : L.Domain × L.StateId) : EpistemicReasoning L :=
  { e with domain := result.1, latestState := result.2 }

/-- `agent_appear`: an agent comes in and sees what there is. -/
def agentAppear (e : EpistemicReasoning L) (name : String) : Option (EpistemicReasoning L) := do
  let a ← e.agentInfos.lookup name
  let changes := L.getDomainNonAttentionPropositionsId e.domain
  return { e.acted (L.performMinimalBottomUp e.domain [a.id] changes []) with
    toRegistrations := e.toRegistrations.setState name .present }

/-- `agent_disappear`: an agent goes out and sees nothing any more. -/
def agentDisappear (e : EpistemicReasoning L) (name : String) : Option (EpistemicReasoning L) := do
  let a ← e.agentInfos.lookup name
  let changes := L.getDomainNonAttentionPropositionsId e.domain
  return { e.acted (L.performMinimalBottomUp e.domain [a.id] [] changes) with
    toRegistrations := e.toRegistrations.setState name .away }

/-- An action of an agent about `in(object,container)`. -/
def actOn (act : L.Domain → L.AgentId → L.PropositionId → L.Domain × L.StateId)
    (e : EpistemicReasoning L) (agent object container : String) :
    Option (EpistemicReasoning L) := do
  let a ← e.agentInfos.lookup agent
  let p ← L.getPropositionId e.domain (inProposition object container)
  return e.acted (act e.domain a.id p)

/-- `direct_conscious_attention`: an agent sees where an object is. -/
def directConsciousAttention (e : EpistemicReasoning L) (agent object container : String) :
    Option (EpistemicReasoning L) :=
  e.actOn (fun d a p ↦ L.performConsciousTopDown d a [p] []) agent object container

/-- `put_in_container`: an agent puts an object into a container. -/
def putInContainer (e : EpistemicReasoning L) (agent object container : String) :
    Option (EpistemicReasoning L) :=
  e.actOn (fun d a p ↦ L.performDo d a [p] []) agent object container

/-- `take_out_of_container`: an agent takes an object out of a container. -/
def takeOutOfContainer (e : EpistemicReasoning L) (agent object container : String) :
    Option (EpistemicReasoning L) :=
  e.actOn (fun d a p ↦ L.performDo d a [] [p]) agent object container

/-- `evaluate`: whether a query without variables holds in the present state. -/
def evaluate (e : EpistemicReasoning L) (q : Query) : Option Bool := do
  let root ← buildFormula L e.domain (fun _ ↦ none) q
  return L.evaluateFormula e.domain e.latestState root

/-- The body of the loop of `query`: whether an object is an answer. -/
def answers (e : EpistemicReasoning L) (q : Query) (v obj : String) : Option Bool := do
  let root ← buildFormula L e.domain (fun x ↦ if x = v then some obj else none) q
  return !root.isNull && L.evaluateFormula e.domain e.latestState root

/-- The loop of `query`. -/
def queryFrom (e : EpistemicReasoning L) (q : Query) (v : String) :
    List String → Option (List String)
  | [] => some []
  | obj :: objs => do
    let found ← e.answers q v obj
    let results ← e.queryFrom q v objs
    return if found then obj :: results else results

/-- `query`: the objects for which a query with one variable holds. -/
def query (e : EpistemicReasoning L) (q : Query) : Option (List String) :=
  match freeVariables q with
  | [v] => e.queryFrom q v e.allObjects
  | _ => none

/-- The calls that change the state. -/
inductive Call
  | reset
  | addObject (type : EpistemicObjectType) (name : String)
  | agentAppear (name : String)
  | agentDisappear (name : String)
  | directConsciousAttention (agent object container : String)
  | putInContainer (agent object container : String)
  | takeOutOfContainer (agent object container : String)

/-- One call. -/
def call (order : Del.HashOrder) (e : EpistemicReasoning L) : Call → Option (EpistemicReasoning L)
  | .reset => reset order
  | .addObject type name => e.addObject order type name
  | .agentAppear name => e.agentAppear name
  | .agentDisappear name => e.agentDisappear name
  | .directConsciousAttention a o c => e.directConsciousAttention a o c
  | .putInContainer a o c => e.putInContainer a o c
  | .takeOutOfContainer a o c => e.takeOutOfContainer a o c

/-- A session: `reset`, then calls. -/
def run (L : DelDomain) (order : Del.HashOrder) (calls : List Call) :
    Option (EpistemicReasoning L) :=
  (reset order).bind fun e ↦ calls.foldlM (call order) e

end EpistemicReasoning

end Model

end Reasoning
