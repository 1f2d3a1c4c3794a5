import R2DTU.Library.Latch

/-!
# Loading a domain

The semantic actions of the maepl grammar run in the order of the derivation, some of them in the
middle of a rule. What they need between rules is in one `Domain_Buffer`: an effect clause of an
event collects its variables in a scratch list and leaves them in the add or the delete list of the
buffer, and the end of the event reads both.

Derivations are the data types below, one constructor for each production. The grammar is ambiguous,
because a list of variables can start with an empty one, but the events that a text creates are the
same for each of its derivations (`created_eq_of_tokens_eq`).

Nothing resets the add and the delete list between two events, so they are latches, and an event
keeps its own effects if what it does not write was empty before (`keepsOwnEffects_iff`).
-/

namespace DomainLoader

/-! ### The buffer and the domain -/

/-- `Domain_Buffer`: what the semantic actions keep between the rules of an event: the last list of
variables, and the event so far. -/
structure DomainBuffer where
  /-- The list that is being read. -/
  variableList : List String
  /-- The event that is being read. -/
  eventName : String
  eventPreconditions : String
  /-- The last list of effects to add. -/
  eventAddList : List String
  /-- The last list of effects to delete. -/
  eventDeleteList : List String

namespace DomainBuffer

def new : DomainBuffer := ⟨[], "", "", [], []⟩

def setEventName (b : DomainBuffer) (name : String) : DomainBuffer := { b with eventName := name }

def addVariable (b : DomainBuffer) (variable_ : String) : DomainBuffer :=
  { b with variableList := b.variableList ++ [variable_] }

/-- `clear_formula`, which is not written yet. -/
def clearFormula (b : DomainBuffer) : DomainBuffer := b

def clearVariableList (b : DomainBuffer) : DomainBuffer := { b with variableList := [] }

def pushEventAddList (b : DomainBuffer) : DomainBuffer :=
  { b with eventAddList := b.variableList, variableList := [] }

def pushEventDeleteList (b : DomainBuffer) : DomainBuffer :=
  { b with eventDeleteList := b.variableList, variableList := [] }

end DomainBuffer

/-- The calls to the `Domain_Interface`. -/
inductive Call
  | newDomain (name : String)
  | finishDomain
  | newAction (name : String)
  | finishAction
  | addActionInput (type name : String)
  | setActionOwner (name : String)
  | createEvent (name formula : String) (addList deleteList : List String)
  deriving DecidableEq

/-- What the actions work on: the domain, as the calls to it, and the buffer. -/
structure Parse where
  domain : List Call
  buffer : DomainBuffer

namespace Parse

def call (p : Parse) (c : Call) : Parse := { p with domain := p.domain ++ [c] }

/-- The call at the end of an event. -/
def createEvent (p : Parse) : Parse :=
  p.call (.createEvent p.buffer.eventName p.buffer.eventPreconditions p.buffer.eventAddList
    p.buffer.eventDeleteList)

end Parse

/-! ### Derivations and their actions -/

/-- `variables`: names with commas between them. -/
inductive Variables
  | empty
  | snoc (variables_ : Variables) (name : String)
  | single (name : String)

/-- `variables_container`: an empty list, or one in brackets. -/
inductive VariablesContainer
  | empty
  | brackets (variables_ : Variables)

/-- `event_body`: the clauses of an event. -/
inductive EventBody
  | empty
  | preconditions (eventBody : EventBody)
  | effectDelete (container : VariablesContainer) (eventBody : EventBody)
  | effectAdd (container : VariablesContainer) (eventBody : EventBody)

/-- `action_body`: the owners and the events of an action. -/
inductive ActionBody
  | empty
  | owner (name : String) (actionBody : ActionBody)
  | event (name : String) (eventBody : EventBody) (actionBody : ActionBody)

/-- `action_input`: the parameters of an action, each with its type. -/
inductive ActionInput
  | empty
  | cons (type name : String) (actionInput : ActionInput)

/-- `action`: its name, its parameters and what it consists of. -/
structure Action where
  name : String
  input : ActionInput
  body : ActionBody

/-- `actions`: one action at least. -/
inductive Actions
  | snoc (actions : Actions) (action : Action)
  | single (action : Action)

/-- `maepl`: a domain with its name and its actions. -/
structure Maepl where
  name : String
  actions : Actions

def Variables.run : Variables → DomainBuffer → DomainBuffer
  | empty, b => b
  | snoc variables_ name, b => (variables_.run b).addVariable name
  | single name, b => b.addVariable name

def VariablesContainer.run : VariablesContainer → DomainBuffer → DomainBuffer
  | empty, b => b
  | brackets variables_, b => variables_.run b

def EventBody.run : EventBody → DomainBuffer → DomainBuffer
  | empty, b => b
  | preconditions eventBody, b => eventBody.run b.clearFormula
  | effectDelete container eventBody, b =>
    eventBody.run (container.run b.clearVariableList).pushEventDeleteList
  | effectAdd container eventBody, b =>
    eventBody.run (container.run b.clearVariableList).pushEventAddList

def ActionBody.run : ActionBody → Parse → Parse
  | empty, p => p
  | owner name actionBody, p => actionBody.run (p.call (.setActionOwner name))
  | event name eventBody actionBody, p =>
    actionBody.run
      ({ p with buffer := eventBody.run (p.buffer.setEventName name) } : Parse).createEvent

def ActionInput.run : ActionInput → Parse → Parse
  | empty, p => p
  | cons type name actionInput, p => actionInput.run (p.call (.addActionInput type name))

def Action.run (action : Action) (p : Parse) : Parse :=
  (action.body.run (action.input.run (p.call (.newAction action.name)))).call .finishAction

def Actions.run : Actions → Parse → Parse
  | snoc actions action, p => action.run (actions.run p)
  | single action, p => action.run p

/-- `parse_domain`, for a domain without calls and the buffer that `Loader::parse` makes. -/
def Maepl.run (m : Maepl) : Parse :=
  (m.actions.run (Parse.call ⟨[], DomainBuffer.new⟩ (.newDomain m.name))).call .finishDomain

/-! ### Events -/

/-- The names in a list of variables. -/
def Variables.names : Variables → List String
  | empty => []
  | snoc variables_ name => variables_.names ++ [name]
  | single name => [name]

def VariablesContainer.names : VariablesContainer → List String
  | empty => []
  | brackets variables_ => variables_.names

/-- The variables of the `_effect_add` clauses. -/
def EventBody.addClauses : EventBody → List (List String)
  | empty => []
  | preconditions eventBody => eventBody.addClauses
  | effectDelete _ eventBody => eventBody.addClauses
  | effectAdd container eventBody => container.names :: eventBody.addClauses

/-- The variables of the `_effect_delete` clauses. -/
def EventBody.deleteClauses : EventBody → List (List String)
  | empty => []
  | preconditions eventBody => eventBody.deleteClauses
  | effectDelete container eventBody => container.names :: eventBody.deleteClauses
  | effectAdd _ eventBody => eventBody.deleteClauses

/-- An event, as it is written. -/
structure Event where
  name : String
  /-- The lists of its clauses that add. -/
  addClauses : List (List String)
  /-- The lists of its clauses that delete. -/
  deleteClauses : List (List String)
  deriving DecidableEq

def ActionBody.events : ActionBody → List Event
  | empty => []
  | owner _ actionBody => actionBody.events
  | event name eventBody actionBody =>
    ⟨name, eventBody.addClauses, eventBody.deleteClauses⟩ :: actionBody.events

def Actions.toList : Actions → List Action
  | snoc actions action => actions.toList ++ [action]
  | single action => [action]

/-- The events of a domain, in the order of the text. -/
def Maepl.events (m : Maepl) : List Event :=
  m.actions.toList.flatMap fun action ↦ action.body.events

/-- What an event is created with. -/
structure Created where
  name : String
  addList : List String
  deleteList : List String
  deriving DecidableEq

def Call.created? : Call → Option Created
  | createEvent name _ addList deleteList => some ⟨name, addList, deleteList⟩
  | _ => none

/-- The events that are created. -/
def Parse.created (p : Parse) : List Created := p.domain.filterMap Call.created?

/-- The effects as they are written: those of the last clause, or none. -/
def Event.own (e : Event) : Created :=
  ⟨e.name, e.addClauses.getLastD [], e.deleteClauses.getLastD []⟩

/-- **Events keep their own effects.** -/
def Maepl.KeepsOwnEffects (m : Maepl) : Prop := m.run.created = m.events.map Event.own

instance (m : Maepl) : Decidable m.KeepsOwnEffects :=
  inferInstanceAs (Decidable (m.run.created = m.events.map Event.own))

/-! ### Texts -/

/-- The tokens of the grammar. -/
inductive Token
  | domainDef
  | actionDef
  | ownerDef
  | preconditionsDef
  | eventDef
  | effectDeleteDef
  | effectAddDef
  | lbrack
  | rbrack
  | equals
  | name (name : String)
  deriving DecidableEq

def Variables.tokens : Variables → List Token
  | empty => []
  | snoc variables_ name => variables_.tokens ++ [.name name]
  | single name => [.name name]

def VariablesContainer.tokens : VariablesContainer → List Token
  | empty => []
  | brackets variables_ => .lbrack :: (variables_.tokens ++ [.rbrack])

def EventBody.tokens : EventBody → List Token
  | empty => []
  | preconditions eventBody =>
    .preconditionsDef :: .equals :: .lbrack :: .rbrack :: eventBody.tokens
  | effectDelete container eventBody =>
    .effectDeleteDef :: .equals :: (container.tokens ++ eventBody.tokens)
  | effectAdd container eventBody =>
    .effectAddDef :: .equals :: (container.tokens ++ eventBody.tokens)

def ActionBody.tokens : ActionBody → List Token
  | empty => []
  | owner name actionBody => .ownerDef :: .equals :: .name name :: actionBody.tokens
  | event name eventBody actionBody =>
    .eventDef :: .name name :: .lbrack :: (eventBody.tokens ++ .rbrack :: actionBody.tokens)

def ActionInput.tokens : ActionInput → List Token
  | empty => []
  | cons type name actionInput => .name type :: .name name :: actionInput.tokens

def Action.tokens (action : Action) : List Token :=
  .actionDef :: .name action.name :: .lbrack ::
    (action.input.tokens ++ .rbrack :: .lbrack :: (action.body.tokens ++ [.rbrack]))

def Actions.tokens : Actions → List Token
  | snoc actions action => actions.tokens ++ action.tokens
  | single action => action.tokens

/-- The text that is derived. -/
def Maepl.tokens (m : Maepl) : List Token :=
  .domainDef :: .name m.name :: .lbrack :: (m.actions.tokens ++ [.rbrack])

theorem Variables.tokens_eq (v : Variables) : v.tokens = v.names.map Token.name := by
  induction v with
  | empty => rfl
  | snoc v name ih => rw [tokens, names, ih, List.map_append]; rfl
  | single name => rfl

/-- Names end at the bracket. -/
theorem map_name_append_inj {xs ys : List String} {r r' : List Token}
    (h : xs.map Token.name ++ .rbrack :: r = ys.map Token.name ++ .rbrack :: r') :
    xs = ys ∧ r = r' := by
  induction xs generalizing ys with
  | nil =>
    rcases ys with - | ⟨y, ys⟩
    · exact ⟨rfl, (List.cons.inj h).2⟩
    · exact absurd (List.cons.inj h).1 nofun
  | cons x xs ih =>
    rcases ys with - | ⟨y, ys⟩
    · exact absurd (List.cons.inj h).1 nofun
    · obtain ⟨hhead, htail⟩ := List.cons.inj h
      obtain ⟨rfl, rfl⟩ := ih htail
      exact ⟨by rw [Token.name.inj hhead], rfl⟩

/-- A container is as long as it can be, so what comes behind it must not start with a bracket. -/
theorem VariablesContainer.tokens_append_inj {c c' : VariablesContainer} {r r' : List Token}
    (hr : r.head? ≠ some .lbrack) (hr' : r'.head? ≠ some .lbrack)
    (h : c.tokens ++ r = c'.tokens ++ r') : c.names = c'.names ∧ r = r' := by
  rcases c with - | v <;> rcases c' with - | v'
  · exact ⟨rfl, h⟩
  · exact absurd (congrArg List.head? h) hr
  · exact absurd (congrArg List.head? h).symm hr'
  · simp only [tokens, v.tokens_eq, v'.tokens_eq, List.cons_append, List.append_assoc,
      List.cons_eq_cons, true_and] at h
    exact map_name_append_inj h

theorem EventBody.head?_tokens_append (body : EventBody) (r : List Token) :
    (body.tokens ++ .rbrack :: r).head? ≠ some .lbrack := by
  rcases body with - | - | - | - <;> exact nofun

/-- **The clauses of an event body** end at the bracket. -/
theorem EventBody.tokens_append_inj {body body' : EventBody} {r r' : List Token}
    (h : body.tokens ++ .rbrack :: r = body'.tokens ++ .rbrack :: r') :
    body.addClauses = body'.addClauses ∧ body.deleteClauses = body'.deleteClauses ∧ r = r' := by
  induction body generalizing body' with
  | empty =>
    rcases body' with _ | _ | _ | _
    · exact ⟨rfl, rfl, (List.cons.inj h).2⟩
    all_goals exact absurd (List.cons.inj h).1 nofun
  | preconditions body ih =>
    rcases body' with _ | body' | _ | _
    · exact absurd (List.cons.inj h).1 nofun
    · simp only [tokens, List.cons_append, List.cons_eq_cons, true_and] at h
      obtain ⟨hadd, hdelete, hr⟩ := ih h
      exact ⟨hadd, hdelete, hr⟩
    all_goals exact absurd (List.cons.inj h).1 nofun
  | effectDelete c body ih =>
    rcases body' with _ | _ | ⟨c', body'⟩ | _
    · exact absurd (List.cons.inj h).1 nofun
    · exact absurd (List.cons.inj h).1 nofun
    · simp only [tokens, List.cons_append, List.append_assoc, List.cons_eq_cons, true_and] at h
      obtain ⟨hnames, hrest⟩ := c.tokens_append_inj (body.head?_tokens_append r)
        (body'.head?_tokens_append r') h
      obtain ⟨hadd, hdelete, hr⟩ := ih hrest
      exact ⟨hadd, by rw [deleteClauses, deleteClauses, hnames, hdelete], hr⟩
    · exact absurd (List.cons.inj h).1 nofun
  | effectAdd c body ih =>
    rcases body' with _ | _ | _ | ⟨c', body'⟩
    · exact absurd (List.cons.inj h).1 nofun
    · exact absurd (List.cons.inj h).1 nofun
    · exact absurd (List.cons.inj h).1 nofun
    · simp only [tokens, List.cons_append, List.append_assoc, List.cons_eq_cons, true_and] at h
      obtain ⟨hnames, hrest⟩ := c.tokens_append_inj (body.head?_tokens_append r)
        (body'.head?_tokens_append r') h
      obtain ⟨hadd, hdelete, hr⟩ := ih hrest
      exact ⟨by rw [addClauses, addClauses, hnames, hadd], hdelete, hr⟩

/-- **The events of an action body** end at the bracket. -/
theorem ActionBody.tokens_append_inj {body body' : ActionBody} {r r' : List Token}
    (h : body.tokens ++ .rbrack :: r = body'.tokens ++ .rbrack :: r') :
    body.events = body'.events ∧ r = r' := by
  induction body generalizing body' with
  | empty =>
    rcases body' with _ | _ | _
    · exact ⟨rfl, (List.cons.inj h).2⟩
    all_goals exact absurd (List.cons.inj h).1 nofun
  | owner name body ih =>
    rcases body' with _ | ⟨name', body'⟩ | _
    · exact absurd (List.cons.inj h).1 nofun
    · simp only [tokens, List.cons_append, List.cons_eq_cons, true_and] at h
      obtain ⟨hevents, hr⟩ := ih h.2
      exact ⟨hevents, hr⟩
    · exact absurd (List.cons.inj h).1 nofun
  | event name eventBody body ih =>
    rcases body' with _ | _ | ⟨name', eventBody', body'⟩
    · exact absurd (List.cons.inj h).1 nofun
    · exact absurd (List.cons.inj h).1 nofun
    · simp only [tokens, List.cons_append, List.append_assoc, List.cons_eq_cons, true_and,
        Token.name.injEq] at h
      obtain ⟨rfl, hbody⟩ := h
      obtain ⟨hadd, hdelete, hrest⟩ := EventBody.tokens_append_inj hbody
      obtain ⟨hevents, hr⟩ := ih hrest
      exact ⟨by rw [events, events, hadd, hdelete, hevents], hr⟩

/-- The names of an action input. -/
theorem ActionInput.exists_tokens_eq (input : ActionInput) :
    ∃ names : List String, input.tokens = names.map Token.name := by
  induction input with
  | empty => exact ⟨[], rfl⟩
  | cons type name input ih =>
    obtain ⟨names, hnames⟩ := ih
    exact ⟨type :: name :: names, by rw [tokens, hnames]; rfl⟩

theorem Action.tokens_append_inj {action action' : Action} {r r' : List Token}
    (h : action.tokens ++ r = action'.tokens ++ r') :
    action.body.events = action'.body.events ∧ r = r' := by
  obtain ⟨names, hnames⟩ := action.input.exists_tokens_eq
  obtain ⟨names', hnames'⟩ := action'.input.exists_tokens_eq
  simp only [tokens, hnames, hnames', List.cons_append, List.append_assoc, List.cons_eq_cons,
    true_and, List.nil_append] at h
  obtain ⟨-, hbody⟩ := map_name_append_inj h.2
  exact ActionBody.tokens_append_inj (List.cons.inj hbody).2

theorem Actions.tokens_eq (actions : Actions) :
    actions.tokens = actions.toList.flatMap Action.tokens := by
  induction actions with
  | snoc actions action ih => rw [tokens, toList, ih, List.flatMap_append, List.flatMap_singleton]
  | single action => rw [tokens, toList, List.flatMap_singleton]

theorem flatMap_tokens_append_inj {as as' : List Action} {r r' : List Token}
    (h : as.flatMap Action.tokens ++ .rbrack :: r = as'.flatMap Action.tokens ++ .rbrack :: r') :
    as.map (fun a ↦ a.body.events) = as'.map (fun a ↦ a.body.events) := by
  induction as generalizing as' with
  | nil =>
    rcases as' with - | ⟨a', as'⟩
    · rfl
    · exact absurd (List.cons.inj h).1 nofun
  | cons a as ih =>
    rcases as' with - | ⟨a', as'⟩
    · exact absurd (List.cons.inj h).1 nofun
    · rw [List.flatMap_cons, List.flatMap_cons, List.append_assoc, List.append_assoc] at h
      obtain ⟨hevents, hrest⟩ := Action.tokens_append_inj h
      rw [List.map_cons, List.map_cons, hevents, ih hrest]

/-- **The events of a text** do not depend on how it is derived. -/
theorem events_eq_of_tokens_eq {m m' : Maepl} (h : m.tokens = m'.tokens) :
    m.events = m'.events := by
  simp only [Maepl.tokens, List.cons_eq_cons, true_and] at h
  have hactions := h.2
  rw [Actions.tokens_eq, Actions.tokens_eq] at hactions
  rw [Maepl.events, Maepl.events, List.flatMap_def, List.flatMap_def,
    flatMap_tokens_append_inj hactions]

/-! ### What the actions do to the lists -/

theorem Variables.run_eq (v : Variables) (b : DomainBuffer) :
    v.run b = { b with variableList := b.variableList ++ v.names } := by
  induction v with
  | empty => rw [run, names, List.append_nil]
  | snoc v name ih => rw [run, ih, names, ← List.append_assoc]; rfl
  | single name => rfl

theorem VariablesContainer.run_eq (c : VariablesContainer) (b : DomainBuffer) :
    c.run b = { b with variableList := b.variableList ++ c.names } := by
  rcases c with - | v
  · rw [run, names, List.append_nil]
  · exact v.run_eq b

/-- **An event body** writes the two lists, clause by clause. -/
theorem EventBody.run_spec (body : EventBody) (b : DomainBuffer) :
    (body.run b).eventName = b.eventName ∧
      (body.run b).eventAddList = body.addClauses.getLastD b.eventAddList ∧
      (body.run b).eventDeleteList = body.deleteClauses.getLastD b.eventDeleteList := by
  induction body generalizing b with
  | empty => exact ⟨rfl, rfl, rfl⟩
  | preconditions body ih => exact ih b
  | effectDelete c body ih =>
    rw [run, c.run_eq, deleteClauses, List.getLastD_cons]
    exact ih _
  | effectAdd c body ih =>
    rw [run, c.run_eq, addClauses, List.getLastD_cons]
    exact ih _

/-- **What a part of the text does**, for the events in it: they are created with what is in the
lists when they end. -/
structure Ran (es : List Event) (p p' : Parse) : Prop where
  names : p'.created.map Created.name = p.created.map Created.name ++ es.map Event.name
  adds : p'.created.map Created.addList = p.created.map Created.addList ++
    Latch.reads p.buffer.eventAddList (es.map Event.addClauses)
  deletes : p'.created.map Created.deleteList = p.created.map Created.deleteList ++
    Latch.reads p.buffer.eventDeleteList (es.map Event.deleteClauses)
  addList : p'.buffer.eventAddList =
    (es.map Event.addClauses).flatten.getLastD p.buffer.eventAddList
  deleteList : p'.buffer.eventDeleteList =
    (es.map Event.deleteClauses).flatten.getLastD p.buffer.eventDeleteList

variable {es es' : List Event} {p p' p'' : Parse}

theorem Ran.refl (p : Parse) : Ran [] p p :=
  ⟨(List.append_nil _).symm, (List.append_nil _).symm, (List.append_nil _).symm, rfl, rfl⟩

theorem Ran.trans (h : Ran es p p') (h' : Ran es' p' p'') : Ran (es ++ es') p p'' where
  names := by rw [h'.names, h.names, List.map_append, List.append_assoc]
  adds := by
    rw [h'.adds, h.adds, h.addList, List.map_append, Latch.reads_append, List.append_assoc]
  deletes := by
    rw [h'.deletes, h.deletes, h.deleteList, List.map_append, Latch.reads_append,
      List.append_assoc]
  addList := by
    rw [h'.addList, h.addList, List.map_append, List.flatten_append, Latch.getLastD_append]
  deleteList := by
    rw [h'.deleteList, h.deleteList, List.map_append, List.flatten_append, Latch.getLastD_append]

theorem Parse.created_call (p : Parse) (c : Call) :
    (p.call c).created = p.created ++ c.created?.toList := by
  rw [created, call, List.filterMap_append, created]
  rcases h : c.created? with - | e
  · rw [List.filterMap_cons_none h]
    rfl
  · rw [List.filterMap_cons_some h]
    rfl

/-- Other calls create no events. -/
theorem ran_call (p : Parse) {c : Call} (hc : c.created? = none) : Ran [] p (p.call c) := by
  have hcreated : (p.call c).created = p.created := by
    rw [Parse.created_call, hc]
    exact List.append_nil _
  refine ⟨?_, ?_, ?_, rfl, rfl⟩
  all_goals
    rw [hcreated]
    exact (List.append_nil _).symm

/-- **One event.** -/
theorem ran_createEvent (name : String) (body : EventBody) (p : Parse) :
    Ran [⟨name, body.addClauses, body.deleteClauses⟩] p
      ({ p with buffer := body.run (p.buffer.setEventName name) } : Parse).createEvent := by
  obtain ⟨hname, hadd, hdelete⟩ := body.run_spec (p.buffer.setEventName name)
  have hcreated : ({ p with buffer := body.run (p.buffer.setEventName name) } :
      Parse).createEvent.created = p.created ++ [⟨name, body.addClauses.getLastD
        p.buffer.eventAddList, body.deleteClauses.getLastD p.buffer.eventDeleteList⟩] := by
    rw [Parse.createEvent, Parse.created_call, hname, hadd, hdelete]
    rfl
  refine ⟨?_, ?_, ?_, ?_, ?_⟩
  · rw [hcreated, List.map_append]
    rfl
  · rw [hcreated, List.map_append]
    rfl
  · rw [hcreated, List.map_append]
    rfl
  · rw [List.map_singleton, List.flatten_singleton]
    exact hadd
  · rw [List.map_singleton, List.flatten_singleton]
    exact hdelete

theorem ActionBody.ran (body : ActionBody) (p : Parse) : Ran body.events p (body.run p) := by
  induction body generalizing p with
  | empty => exact Ran.refl p
  | owner name body ih => exact (ran_call p rfl).trans (ih _)
  | event name eventBody body ih => exact (ran_createEvent name eventBody p).trans (ih _)

theorem ActionInput.ran (input : ActionInput) (p : Parse) : Ran [] p (input.run p) := by
  induction input generalizing p with
  | empty => exact Ran.refl p
  | cons type name input ih => exact (ran_call p rfl).trans (ih _)

theorem Action.ran (action : Action) (p : Parse) : Ran action.body.events p (action.run p) := by
  have hbody := (ran_call p rfl).trans ((action.input.ran (p.call (.newAction action.name))).trans
    (action.body.ran _))
  have hall := hbody.trans (ran_call _ (show Call.finishAction.created? = none from rfl))
  rwa [List.append_nil] at hall

theorem Actions.ran (actions : Actions) (p : Parse) :
    Ran (actions.toList.flatMap fun action ↦ action.body.events) p (actions.run p) := by
  induction actions generalizing p with
  | snoc actions action ih =>
    rw [toList, List.flatMap_append, List.flatMap_singleton]
    exact (ih p).trans (action.ran _)
  | single action =>
    rw [toList, List.flatMap_singleton]
    exact action.ran p

/-- **A whole text.** -/
theorem Maepl.ran (m : Maepl) : Ran m.events ⟨[], DomainBuffer.new⟩ m.run := by
  have hactions := (ran_call ⟨[], DomainBuffer.new⟩
    (show (Call.newDomain m.name).created? = none from rfl)).trans (m.actions.ran _)
  have hall := hactions.trans (ran_call _ (show Call.finishDomain.created? = none from rfl))
  rwa [List.append_nil] at hall

/-- Every event that does not write a list finds it as it was at the start. -/
def FindsEmpty (clauses : Event → List (List String)) (es : List Event) : Prop :=
  ∀ k e, es[k]? = some e → clauses e = [] → ((es.take k).flatMap clauses).getLastD [] = []

theorem reads_eq_iff_findsEmpty (clauses : Event → List (List String)) (es : List Event) :
    Latch.reads [] (es.map clauses) = es.map (fun e ↦ (clauses e).getLastD []) ↔
      FindsEmpty clauses es := by
  have hmap : es.map (fun e ↦ (clauses e).getLastD []) =
      (es.map clauses).map fun ws ↦ ws.getLastD [] := by
    rw [List.map_map]
    rfl
  rw [hmap, Latch.reads_eq_iff]
  constructor
  · intro h k e hk he
    have hempty := h k (by rw [List.getElem?_map, hk, Option.map_some, he])
    rwa [← List.map_take] at hempty
  · intro h k hk
    rw [List.getElem?_map, Option.map_eq_some_iff] at hk
    obtain ⟨e, hk, he⟩ := hk
    rw [← List.map_take]
    exact h k e hk he

theorem created_ext {cs cs' : List Created} : cs = cs' ↔
    cs.map Created.name = cs'.map Created.name ∧
      cs.map Created.addList = cs'.map Created.addList ∧
        cs.map Created.deleteList = cs'.map Created.deleteList := by
  induction cs generalizing cs' with
  | nil => cases cs' <;> simp
  | cons c cs ih =>
    rcases cs' with - | ⟨c', cs'⟩
    · simp
    · rcases c with ⟨name, addList, deleteList⟩
      rcases c' with ⟨name', addList', deleteList'⟩
      simp only [List.cons_eq_cons, List.map_cons, ih, Created.mk.injEq]
      tauto

/-- **The events that a text creates** do not depend on how it is derived. -/
theorem created_eq_of_tokens_eq {m m' : Maepl} (h : m.tokens = m'.tokens) :
    m.run.created = m'.run.created := by
  rw [created_ext, m.ran.names, m'.ran.names, m.ran.adds, m'.ran.adds, m.ran.deletes,
    m'.ran.deletes, events_eq_of_tokens_eq h]
  exact ⟨rfl, rfl, rfl⟩

/-- **Which texts keep effects.** Every event that has no `_effect_add` clause comes after no such
clause, or the last one before it has no variables, and so for `_effect_delete`. -/
theorem keepsOwnEffects_iff (m : Maepl) : m.KeepsOwnEffects ↔
    FindsEmpty Event.addClauses m.events ∧ FindsEmpty Event.deleteClauses m.events := by
  have hran := m.ran
  rw [Maepl.KeepsOwnEffects, created_ext, ← reads_eq_iff_findsEmpty Event.addClauses,
    ← reads_eq_iff_findsEmpty Event.deleteClauses, hran.names, hran.adds, hran.deletes,
    List.map_map, List.map_map, List.map_map]
  exact and_iff_right rfl

/-- The second event has no clauses. -/
def twoEvents : Maepl where
  name := "d"
  actions := .single ⟨"a", .empty,
    .event "e1" (.effectAdd (.brackets (.single "p")) .empty) (.event "e2" .empty .empty)⟩

theorem not_keepsOwnEffects_twoEvents :
    twoEvents.run.created = [⟨"e1", ["p"], []⟩, ⟨"e2", ["p"], []⟩] ∧
      ¬ twoEvents.KeepsOwnEffects := by
  decide

end DomainLoader
