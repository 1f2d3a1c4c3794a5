import R2DTU.Library.FailingLoop
import R2DTU.Reasoning.Session

/-!
# Handlers and the answers to their queries

The speech triggers and the handlers that inform about a false belief, with what every query answers
as a parameter (`Outcomes`). A handler returns how it reacts, or why it fails: a call throws, it
indexes an empty result, it evaluates a query with a variable, or the name of a box has no number.
So every combination of answers can be followed through each handler, also answers that no domain
gives.

`inform_about_false_belief_cube` and `inform_about_false_belief_box` have one text with different
queries, and they ask whether there is a place before they use it; the handler for objects,
`inform_about_false_belief_object`, prints the place first. `need_speech_trigger` evaluates the
query that it has asked, with its variable, and not the one about the agent that it builds.
`Handler.sound_iff` says that no other answer is misused, and that the robot informs for a reason.
-/

namespace Reasoning

/-- What queries answer; `none` where a query throws. -/
structure Outcomes where
  /-- The objects for which a query holds. -/
  query : Query → Option (List String)
  /-- Whether a query holds. -/
  evaluate : Query → Option Bool

/-- The answers of the epistemic reasoner. -/
def EpistemicReasoning.outcomes {L : DelDomain} (e : EpistemicReasoning L) : Outcomes :=
  ⟨e.query, e.evaluate⟩

/-- What handlers read besides the answers. -/
structure Scene where
  /-- What the world holds. -/
  world : Contents
  /-- The last explanation. -/
  explainSentence : String
  /-- The names of agents. -/
  agents : List String

/-- Why a handler fails. -/
inductive Failure
  | thrown
  | emptyResult
  | unboundVariable
  | noNumber
  deriving DecidableEq

/-- The handler uses a result in a way that it must not: it indexes an empty one, or it evaluates a
query with a variable. -/
def Failure.isMisuse : Failure → Bool
  | .emptyResult => true
  | .unboundVariable => true
  | _ => false

/-- What changes when a handler informs: the explanation, the sequence that shows the box, and the
calls of the epistemic reasoner. -/
structure Informed where
  /-- What is said when someone asks why. -/
  explainSentence : String
  /-- The box that is shown. -/
  sequence : ShowBoxSequence
  /-- What the reasoner is told. -/
  calls : List EpistemicReasoning.Call

/-- How a handler reacts; an answer is said with an animation. -/
inductive Reaction
  | ignores
  | informs (informed : Option Informed)
  | utters (sentence : String)
  | answers (sentence : String)

namespace Handlers

open Session

/-- A call that throws. -/
def attempt {α : Type} : Option α → Except Failure α
  | some a => .ok a
  | none => .error .thrown

/-- `res[0]`. -/
def first : List String → Except Failure String
  | name :: _ => .ok name
  | [] => .error .emptyResult

/-- `epistemic.evaluate`, without values for variables. -/
def evaluate (o : Outcomes) (q : Query) : Except Failure Bool :=
  if (freeVariables q).isEmpty then attempt (o.evaluate q) else .error .unboundVariable

/-- Where a thing is. -/
def placeOf (thing : String) : Query := inPredicate (.const thing) (.var "x")

/-! ### Informing about false beliefs -/

/-- The part the handlers share. -/
def showBox (persons : List PersonObj) (agent thing box : String)
    (announce : String → String → String) (calls : List EpistemicReasoning.Call) :
    Except Failure Informed :=
  match boxNumber box with
  | none => .error .noNumber
  | some number =>
    .ok
      { explainSentence := explain (otherName persons agent) thing (toString (number - 1000)) agent
        sequence := .new (announce thing (toString (number - 1000))) (number % 2 ^ 32).toNat
        calls := calls }

/-- The common text of `inform_about_false_belief_cube` and `inform_about_false_belief_box`. -/
def informAboutFalseBelief (persons : List PersonObj) (o : Outcomes) (agent : String)
    (belief : Query) (cubeOf boxOf : String → String) (announce : String → String → String) :
    Except Failure (Option Informed) := do
  let res ← attempt (o.query (falseBelief agent belief))
  if res.isEmpty then return none
  else
    let answer ← first res
    let res ← attempt (o.query (placeOf (cubeOf answer)))
    if plan (cubeOf answer) res.isEmpty then
      let actualBox ← first res
      let informed ← showBox persons agent (colourOf (cubeOf answer)) actualBox announce
        [.takeOutOfContainer Observing.robot (cubeOf answer) (boxOf answer),
          .putInContainer Observing.robot (cubeOf answer) actualBox]
      return some informed
    else return none

/-- `inform_about_false_belief_cube`: the agent is told where a cube is, if it is wrong about
that. -/
def informAboutFalseBeliefCube (persons : List PersonObj) (o : Outcomes) (agent cube : String) :
    Except Failure (Option Informed) :=
  informAboutFalseBelief persons o agent (placeOf cube) (fun _ ↦ cube) id announceLocation

/-- `inform_about_false_belief_box`: the agent is told where the cube is that it takes to be in a
box. -/
def informAboutFalseBeliefBox (persons : List PersonObj) (o : Outcomes) (agent box : String) :
    Except Failure (Option Informed) :=
  informAboutFalseBelief persons o agent (inPredicate (.var "x") (.const box)) id (fun _ ↦ box)
    lookingFor

/-- The thing an agent looks for that holds another one. -/
def matchingObject (held : String) : String :=
  getMatchingAffordances (String.ofList (WorldModel.className held))

/-- `inform_about_false_belief_object`: the agent is told where the object is that goes with the one
it holds. -/
def informAboutFalseBeliefObject (persons : List PersonObj) (o : Outcomes) (agent held : String) :
    Except Failure (Option Informed) := do
  let res ← attempt (o.query (falseBelief agent (placeOf (matchingObject held))))
  if res.isEmpty then return none
  else
    let res ← attempt (o.query (placeOf (matchingObject held)))
    -- the first place is printed before anything is asked about it
    let boxName ← first res
    if plan (matchingObject held) res.isEmpty then
      let informed ← showBox persons agent (matchingObject held) boxName objectLookingFor
        [.directConsciousAttention agent (matchingObject held) boxName]
      return some informed
    else return none

/-! ### Speech triggers -/

/-- The agent and the cube of a goal statement. -/
def goal (persons : List PersonObj) (sentence : List Char) : Option (String × String) := do
  let rest ← fromWord sentence "i have come for the "
  let i ← colours.findIdx? (hasWord rest)
  if trackedName persons = "" then none
  else some (trackedName persons, "marker-" ++ toString (i + 1))

/-- `goal_statement_trigger`: a sentence that names a colour makes the robot inform the person in
front of it about that cube. -/
def goalStatement (persons : List PersonObj) (o : Outcomes) (sentence : List Char) :
    Except Failure Reaction :=
  match goal persons sentence with
  | none => .ok .ignores
  | some (agent, cube) => .informs <$> informAboutFalseBeliefCube persons o agent cube

/-- How many cubes are needed, when there is somebody to tell. -/
def need (persons : List PersonObj) (sentence : List Char) : Option ℕ := do
  let n ← (fromWord sentence "jeg skal bruge ").bind cubesNeeded
  if trackedName persons = "" then none else some n

/-- The body of the loop of `need_speech_trigger`. -/
def needStep (o : Outcomes) (st : ℕ × String) (m : Movable) : Except Failure (ℕ × String) :=
  if st.1 = 0 then .ok st
  else if m.markerId ≥ 100 then .ok st
  else do
    let res ← attempt (o.query (placeOf m.name))
    if res.isEmpty then return st
    else
      let box ← first res
      let found ← evaluate o (placeOf m.name)
      let sentence := st.2 ++ m.name ++ " klods " ++ if found then " den er i kasse " ++ box else ""
      return (st.1 - 1, sentence ++ if st.1 - 1 = 1 then " og " else "")

/-- `need_speech_trigger`: a sentence that says how many cubes are needed is answered with their
boxes. -/
def needSpeech (w : Contents) (o : Outcomes) (sentence : List Char) : Except Failure Reaction :=
  match need w.persons sentence with
  | none => .ok .ignores
  | some n => do
    let st ← w.movables.foldlM (needStep o) (n, "tag den ")
    return .utters st.2

/-- `why_speech_trigger`: a sentence that asks why is answered with the last explanation. -/
def whySpeech (explainSentence : String) (sentence : List Char) : Reaction :=
  if hasWord sentence "hvorfor" || hasWord sentence "why" then .utters explainSentence else .ignores

/-- The end of the answers; `response[0]` is used when there is one response. -/
def located (article object : String) (response : List String) : Except Failure String :=
  if response.length = 1 then do
    let box ← first response
    return article ++ inverseTranslate object ++ " is in " ++ inverseTranslate box
  else return article ++ inverseTranslate object ++ " is not in any box"

/-- The agents a question names. -/
def namedAgents (agents : List String) (question : List Char) : List (String × ℕ) :=
  ((agents.drop 1).take 2).filterMap fun agent ↦
    (findWord question agent.toList).map fun position ↦ (agent, position)

/-- The part of `answer_question` after the colour is known. -/
def answerAbout (agents : List String) (o : Outcomes) (question : List Char) (object : String) :
    Except Failure String :=
  match namedAgents agents question with
  | [(name₁, pos₁), (name₂, pos₂)] => do
    let (fst, snd) := if pos₁ < pos₂ then (name₁, name₂) else (name₂, name₁)
    let response ← attempt (o.query
      (.believes fst (.believes snd (placeOf (translateIntoSymbolNamesDk object)))))
    let answer ← located "the " object response
    return fst ++ " believes that " ++ snd ++ " believes that " ++ answer
  | [(name, _)] => do
    let response ← attempt (o.query
      (.believes name (placeOf (translateIntoSymbolNamesDk object))))
    let answer ← located "the " object response
    return name ++ " believes that " ++ answer
  | _ => do
    let response ← attempt (o.query (placeOf object))
    located "The " object response

/-- `epistemic_speech_trigger`. What throws is caught, and then there is no answer. -/
def epistemicSpeech (agents : List String) (o : Outcomes) (sentence : List Char) :
    Except Failure Reaction :=
  match colours.find? (hasWord sentence) with
  | none => .ok .ignores
  | some colour =>
    match answerAbout agents o sentence (translateIntoSymbolNames colour) with
    | .ok answer => .ok (if answer = "" then .ignores else .answers answer)
    | .error .thrown => .ok .ignores
    | .error failure => .error failure

end Handlers

/-- The handlers and what they are called with. -/
inductive Handler
  | informCube (agent cube : String)
  | informBox (agent box : String)
  | informObject (agent held : String)
  | goalStatement (sentence : List Char)
  | needSpeech (sentence : List Char)
  | whySpeech (sentence : List Char)
  | epistemicSpeech (sentence : List Char)

namespace Handler

open Handlers Session

/-- How a handler reacts to what the queries answer. -/
def react (w : Scene) (o : Outcomes) : Handler → Except Failure Reaction
  | .informCube agent cube =>
    .informs <$> informAboutFalseBeliefCube w.world.persons o agent cube
  | .informBox agent box => .informs <$> informAboutFalseBeliefBox w.world.persons o agent box
  | .informObject agent held =>
    .informs <$> informAboutFalseBeliefObject w.world.persons o agent held
  | .goalStatement sentence => Handlers.goalStatement w.world.persons o sentence
  | .needSpeech sentence => Handlers.needSpeech w.world o sentence
  | .whySpeech sentence => .ok (Handlers.whySpeech w.explainSentence sentence)
  | .epistemicSpeech sentence => Handlers.epistemicSpeech w.agents o sentence

/-! ### What handlers may do -/

/-- What a handler is about that informs: the agent, what is asked of it, and the thing that the
first answer makes it look up. -/
structure Aim where
  /-- Whom it informs. -/
  agent : String
  /-- What that one may be wrong about. -/
  belief : Query
  /-- The thing an answer is about. -/
  thingOf : String → String

/-- **A reason to inform.** The agent believes in something that is not so, the thing that the first
answer is about is at a known place, and that place is the box that is shown. -/
def Aim.Warrants (o : Outcomes) (aim : Aim) (i : Informed) : Prop :=
  ∃ (answer box : String) (answers boxes : List String) (number : ℤ),
    o.query (falseBelief aim.agent aim.belief) = some (answer :: answers) ∧
      o.query (placeOf (aim.thingOf answer)) = some (box :: boxes) ∧
      boxNumber box = some number ∧ i.sequence.boxId = (number % 2 ^ 32).toNat

/-- The agent believes in something that is not so, and the thing that the first answer is about is
at no known place. -/
def Aim.Unplaced (o : Outcomes) (aim : Aim) : Prop :=
  ∃ (answer : String) (answers : List String),
    o.query (falseBelief aim.agent aim.belief) = some (answer :: answers) ∧
      o.query (placeOf (aim.thingOf answer)) = some []

/-- What a handler is about. -/
def aim (w : Scene) : Handler → Option Aim
  | .informCube agent cube => some ⟨agent, placeOf cube, fun _ ↦ cube⟩
  | .informBox agent box => some ⟨agent, inPredicate (.var "x") (.const box), id⟩
  | .informObject agent held =>
    some ⟨agent, placeOf (matchingObject held), fun _ ↦ matchingObject held⟩
  | .goalStatement sentence =>
    (goal w.world.persons sentence).map fun (agent, cube) ↦ ⟨agent, placeOf cube, fun _ ↦ cube⟩
  | _ => none

/-- **What a handler may do**: it does not misuse a result, and it informs only when there is a
reason to. -/
def Sound (w : Scene) (o : Outcomes) (h : Handler) : Prop :=
  (∀ f, h.react w o = .error f → f.isMisuse = false) ∧
    ∀ i, h.react w o = .ok (.informs (some i)) → ∃ aim, h.aim w = some aim ∧ aim.Warrants o i

/-- **Where a handler goes wrong.** The object that an agent looks for is believed to be where it is
not, and it is at no known place; or somebody needs cubes, and one of the cubes is at a known
place. -/
def Fails (w : Scene) (o : Outcomes) : Handler → Prop
  | .informObject agent held =>
    Aim.Unplaced o ⟨agent, placeOf (matchingObject held), fun _ ↦ matchingObject held⟩
  | .needSpeech sentence =>
    (need w.world.persons sentence).isSome ∧
      ∃ before m after box boxes, w.world.movables = before ++ m :: after ∧
        (∀ b ∈ before, b.markerId < 100 → o.query (placeOf b.name) = some []) ∧
        m.markerId < 100 ∧ o.query (placeOf m.name) = some (box :: boxes)
  | _ => False

end Handler

namespace Handlers

open Session

/-! ### Handlers that inform -/

section Told

variable {persons : List PersonObj} {o : Outcomes} {agent thing box : String} {belief : Query}
  {announce : String → String → String} {calls : List EpistemicReasoning.Call} {f : Failure}

theorem showBox_eq_error (h : showBox persons agent thing box announce calls = .error f) :
    f = .noNumber := by
  rw [showBox] at h
  split at h
  · exact (Except.error.inj h).symm
  · exact nomatch h

theorem showBox_eq_ok {i : Informed} (h : showBox persons agent thing box announce calls = .ok i) :
    ∃ number, boxNumber box = some number ∧ i.sequence.boxId = (number % 2 ^ 32).toNat := by
  rw [showBox] at h
  split at h
  next => exact nomatch h
  next number hnumber =>
    obtain rfl := Except.ok.inj h
    exact ⟨number, hnumber, rfl⟩

/-- What handlers that inform have in common. They differ in what they do when the place is not
known. -/
def told (persons : List PersonObj) (o : Outcomes) (aim : Handler.Aim)
    (unplaced : Except Failure (Option Informed)) (nameOf : String → String)
    (announce : String → String → String)
    (calls : String → String → List EpistemicReasoning.Call) :
    Except Failure (Option Informed) :=
  match o.query (falseBelief aim.agent aim.belief) with
  | none => .error .thrown
  | some [] => .ok none
  | some (answer :: _) =>
    match o.query (placeOf (aim.thingOf answer)) with
    | none => .error .thrown
    | some [] => unplaced
    | some (box :: _) =>
      some <$> showBox persons aim.agent (nameOf answer) box announce (calls answer box)

theorem informAboutFalseBelief_eq_told (cubeOf boxOf : String → String) :
    informAboutFalseBelief persons o agent belief cubeOf boxOf announce =
      told persons o ⟨agent, belief, cubeOf⟩ (.ok none) (fun answer ↦ colourOf (cubeOf answer))
        announce fun answer box ↦
          [.takeOutOfContainer Observing.robot (cubeOf answer) (boxOf answer),
            .putInContainer Observing.robot (cubeOf answer) box] := by
  rw [informAboutFalseBelief, told]
  rcases o.query (falseBelief agent belief) with _ | _ | ⟨answer, answers⟩
  · rfl
  · rfl
  · simp only [attempt, first, Except.ok_bind, List.isEmpty_cons]
    rcases o.query (placeOf (cubeOf answer)) with _ | _ | ⟨box, boxes⟩ <;> rfl

/-- The place is printed before the handler asks whether there is one. -/
theorem informAboutFalseBeliefObject_eq_told (held : String) :
    informAboutFalseBeliefObject persons o agent held =
      told persons o ⟨agent, placeOf (matchingObject held), fun _ ↦ matchingObject held⟩
        (.error .emptyResult) (fun _ ↦ matchingObject held) objectLookingFor fun _ box ↦
          [.directConsciousAttention agent (matchingObject held) box] := by
  rw [informAboutFalseBeliefObject, told]
  rcases o.query (falseBelief agent (placeOf (matchingObject held))) with
    _ | _ | ⟨answer, answers⟩
  · rfl
  · rfl
  · simp only [attempt, Except.ok_bind, List.isEmpty_cons]
    rcases o.query (placeOf (matchingObject held)) with _ | _ | ⟨box, boxes⟩ <;> rfl

variable {aim : Handler.Aim} {unplaced : Except Failure (Option Informed)}
  {nameOf : String → String} {callsOf : String → String → List EpistemicReasoning.Call}

theorem told_of_unplaced (h : aim.Unplaced o) :
    told persons o aim unplaced nameOf announce callsOf = unplaced := by
  obtain ⟨answer, answers, hbelief, hplace⟩ := h
  simp only [told, hbelief, hplace]

/-- A result is misused only where the place is not known. -/
theorem told_eq_error (h : told persons o aim unplaced nameOf announce callsOf = .error f)
    (hf : f.isMisuse = true) : aim.Unplaced o ∧ unplaced = .error f := by
  rw [told] at h
  split at h
  next => exact absurd hf (Except.error.inj h ▸ Bool.false_ne_true)
  next => exact nomatch h
  next answer answers hbelief =>
    split at h
    next => exact absurd hf (Except.error.inj h ▸ Bool.false_ne_true)
    next hplace => exact ⟨⟨answer, answers, hbelief, hplace⟩, h⟩
    next =>
      obtain rfl := showBox_eq_error (Except.map_eq_error h)
      exact absurd hf Bool.false_ne_true

/-- There is a reason to inform. -/
theorem told_eq_ok {i : Informed} (hunplaced : unplaced ≠ .ok (some i))
    (h : told persons o aim unplaced nameOf announce callsOf = .ok (some i)) :
    aim.Warrants o i := by
  rw [told] at h
  split at h
  next => exact nomatch h
  next => exact nomatch h
  next answer answers hbelief =>
    split at h
    next => exact nomatch h
    next => exact absurd h hunplaced
    next box boxes hplace =>
      obtain ⟨i', hi', hi⟩ := Except.map_eq_ok h
      obtain rfl := Option.some.inj hi
      obtain ⟨number, hnumber, hbox⟩ := showBox_eq_ok hi'
      exact ⟨answer, box, answers, boxes, number, hbelief, hplace, hnumber, hbox⟩

end Told

/-! ### Speech triggers that say something -/

section Triggers

variable {o : Outcomes} {f : Failure}

theorem freeVariables_placeOf (thing : String) : freeVariables (placeOf thing) = ["x"] := by
  simp [placeOf, inPredicate, freeVariables, freeVariablesAll]

theorem evaluate_placeOf (thing : String) :
    evaluate o (placeOf thing) = .error .unboundVariable := by
  rw [evaluate, freeVariables_placeOf]
  rfl

/-- **A step** over a cube keeps the state, or fails. Where the query has an answer, the step
evaluates it. -/
theorem needStep_eq {st : ℕ × String} (hst : st.1 ≠ 0) (m : Movable) :
    needStep o st m =
      if m.markerId < 100 then
        match o.query (placeOf m.name) with
        | none => .error .thrown
        | some [] => .ok st
        | some (_ :: _) => .error .unboundVariable
      else .ok st := by
  rw [needStep, if_neg hst]
  split
  next hm => rw [if_neg (Nat.not_lt.2 hm)]
  next hm =>
    rw [if_pos (Nat.not_le.1 hm)]
    rcases o.query (placeOf m.name) with _ | _ | ⟨box, boxes⟩
    · rfl
    · rfl
    · simp only [attempt, first, evaluate_placeOf, Except.ok_bind, Except.error_bind,
        List.isEmpty_cons, Bool.false_eq_true, if_false]

theorem needStep_eq_ok {st st' : ℕ × String} (hst : st.1 ≠ 0) {m : Movable}
    (h : needStep o st m = .ok st') : st' = st := by
  rw [needStep_eq hst] at h
  split at h
  · split at h
    next => exact nomatch h
    next => exact (Except.ok.inj h).symm
    next => exact nomatch h
  · exact (Except.ok.inj h).symm

theorem needStep_eq_ok_iff {st : ℕ × String} (hst : st.1 ≠ 0) {m : Movable} :
    needStep o st m = .ok st ↔ (m.markerId < 100 → o.query (placeOf m.name) = some []) := by
  rw [needStep_eq hst]
  split
  next hm =>
    split
    next h => exact iff_of_false nofun fun h' ↦ nomatch h.symm.trans (h' hm)
    next h => exact iff_of_true rfl fun _ ↦ h
    next h => exact iff_of_false nofun fun h' ↦ nomatch h.symm.trans (h' hm)
  next hm => exact iff_of_true rfl fun h ↦ absurd h hm

theorem needStep_eq_unboundVariable_iff {st : ℕ × String} (hst : st.1 ≠ 0) {m : Movable} :
    needStep o st m = .error .unboundVariable ↔
      m.markerId < 100 ∧ ∃ box boxes, o.query (placeOf m.name) = some (box :: boxes) := by
  rw [needStep_eq hst]
  split
  next hm =>
    split
    next h => exact iff_of_false nofun fun ⟨_, _, _, h'⟩ ↦ nomatch h.symm.trans h'
    next h => exact iff_of_false nofun fun ⟨_, _, _, h'⟩ ↦ nomatch h.symm.trans h'
    next box boxes h => exact iff_of_true rfl ⟨hm, box, boxes, h⟩
  next hm => exact iff_of_false nofun fun h ↦ hm h.1

theorem needStep_eq_error {st : ℕ × String} (hst : st.1 ≠ 0) {m : Movable}
    (h : needStep o st m = .error f) (hf : f.isMisuse = true) : f = .unboundVariable := by
  rw [needStep_eq hst] at h
  split at h
  · split at h
    next => exact absurd hf (Except.error.inj h ▸ Bool.false_ne_true)
    next => exact nomatch h
    next => exact (Except.error.inj h).symm
  · exact nomatch h

theorem cubesNeeded_ne_zero {rest : List Char} {n : ℕ} (h : cubesNeeded rest = some n) :
    n ≠ 0 := by
  rw [cubesNeeded] at h
  split at h
  · exact Option.some.inj h ▸ one_ne_zero
  · split at h
    · exact Option.some.inj h ▸ two_ne_zero
    · split at h
      · exact Option.some.inj h ▸ three_ne_zero
      · exact nomatch h

theorem need_ne_zero {persons : List PersonObj} {sentence : List Char} {n : ℕ}
    (h : need persons sentence = some n) : n ≠ 0 := by
  obtain ⟨n', hn', h⟩ := Option.bind_eq_some_iff.1 h
  obtain ⟨rest, -, hrest⟩ := Option.bind_eq_some_iff.1 hn'
  split at h
  · exact nomatch h
  · exact Option.some.inj h ▸ cubesNeeded_ne_zero hrest

/-- The trigger evaluates a query with a variable at the first cube that is at a known place, when
no cube before it makes a query throw. -/
theorem needSpeech_eq_error_iff {w : Contents} {sentence : List Char} (hf : f.isMisuse = true) :
    needSpeech w o sentence = .error f ↔
      f = .unboundVariable ∧ (need w.persons sentence).isSome ∧
        ∃ before m after box boxes, w.movables = before ++ m :: after ∧
          (∀ b ∈ before, b.markerId < 100 → o.query (placeOf b.name) = some []) ∧
          m.markerId < 100 ∧ o.query (placeOf m.name) = some (box :: boxes) := by
  rw [needSpeech]
  split
  next h => exact iff_of_false nofun fun h' ↦ nomatch h ▸ h'.2.1
  next n h =>
    have hn : ((n, "tag den ") : ℕ × String).1 ≠ 0 := need_ne_zero h
    have hidle : ∀ m ∈ w.movables, ∀ st, needStep o (n, "tag den ") m = .ok st →
        st = (n, "tag den ") := fun m _ st hm ↦ needStep_eq_ok hn hm
    rw [h]
    constructor
    · intro herror
      obtain ⟨before, m, after, hmovables, hbefore, hm⟩ :=
        (Except.foldlM_idle_eq_error_iff hidle).1 (Except.map_eq_error herror)
      obtain rfl := needStep_eq_error hn hm hf
      obtain ⟨hmarker, box, boxes, hbox⟩ := (needStep_eq_unboundVariable_iff hn).1 hm
      exact ⟨rfl, rfl, before, m, after, box, boxes, hmovables,
        fun b hb ↦ (needStep_eq_ok_iff hn).1 (hbefore b hb), hmarker, hbox⟩
    · rintro ⟨rfl, -, before, m, after, box, boxes, hmovables, hbefore, hmarker, hbox⟩
      rw [(Except.foldlM_idle_eq_error_iff hidle).2 ⟨before, m, after, hmovables,
        fun b hb ↦ (needStep_eq_ok_iff hn).2 (hbefore b hb),
        (needStep_eq_unboundVariable_iff hn).2 ⟨hmarker, box, boxes, hbox⟩⟩]
      rfl

/-- **What the trigger says** does not depend on the cubes: it never tells where one is. -/
theorem needSpeech_eq_ok {w : Contents} {sentence : List Char} {reaction : Reaction}
    (h : needSpeech w o sentence = .ok reaction) :
    reaction = .ignores ∨ reaction = .utters "tag den " := by
  rw [needSpeech] at h
  split at h
  next => exact Or.inl (Except.ok.inj h).symm
  next n hn =>
    obtain ⟨st, hst, rfl⟩ := Except.map_eq_ok h
    refine Or.inr ?_
    rw [((Except.foldlM_eq_ok_iff fun m _ st hm ↦ needStep_eq_ok (need_ne_zero hn) hm).1 hst).1]

/-- An answer indexes its response only when there is one. -/
theorem located_ne_error (article object : String) (response : List String) :
    located article object response ≠ .error f := by
  rw [located]
  split
  next h =>
    obtain ⟨box, rfl⟩ := List.length_eq_one_iff.1 h
    exact nofun
  next => exact nofun

theorem attempt_eq_error {α : Type} {x : Option α} (h : attempt x = .error f) : f = .thrown := by
  cases x with
  | none => exact (Except.error.inj h).symm
  | some a => exact nomatch h

/-- What fails in a question is a query. -/
theorem answerAbout_eq_error {agents : List String} {question : List Char} {object : String}
    (h : answerAbout agents o question object = .error f) : f = .thrown := by
  rw [answerAbout] at h
  split at h
  · rcases Except.bind_eq_error h with h | ⟨response, -, h⟩
    · exact attempt_eq_error h
    · exact absurd (Except.map_eq_error h) (located_ne_error _ _ _)
  · rcases Except.bind_eq_error h with h | ⟨response, -, h⟩
    · exact attempt_eq_error h
    · exact absurd (Except.map_eq_error h) (located_ne_error _ _ _)
  · rcases Except.bind_eq_error h with h | ⟨response, -, h⟩
    · exact attempt_eq_error h
    · exact absurd h (located_ne_error _ _ _)

theorem epistemicSpeech_ne_error {agents : List String} {sentence : List Char} :
    epistemicSpeech agents o sentence ≠ .error f := by
  rw [epistemicSpeech]
  split
  next => exact nofun
  next =>
    split
    next => exact nofun
    next => exact nofun
    next failure hthrown h =>
      obtain rfl := answerAbout_eq_error h
      exact absurd rfl hthrown

theorem epistemicSpeech_ne_informs {agents : List String} {sentence : List Char}
    {informed : Option Informed} :
    epistemicSpeech agents o sentence ≠ .ok (.informs informed) := by
  rw [epistemicSpeech]
  split
  next => exact nofun
  next =>
    split
    next => split <;> exact nofun
    next => exact nofun
    next => exact nofun

end Triggers

end Handlers

namespace Handler

open Handlers

/-! ### All handlers -/

section Sound

variable {w : Scene} {o : Outcomes} {h : Handler} {aim : Aim}
  {result unplaced : Except Failure (Option Informed)} {nameOf : String → String}
  {announce : String → String → String}
  {callsOf : String → String → List EpistemicReasoning.Call}

theorem misuses_iff_of_told (hreact : h.react w o = .informs <$> result)
    (hresult : result = told w.world.persons o aim unplaced nameOf announce callsOf) :
    (∃ f, f.isMisuse = true ∧ h.react w o = .error f) ↔
      aim.Unplaced o ∧ ∃ f, f.isMisuse = true ∧ unplaced = .error f := by
  subst hresult
  rw [hreact]
  constructor
  · rintro ⟨f, hf, herror⟩
    obtain ⟨hplace, hunplaced⟩ := told_eq_error (Except.map_eq_error herror) hf
    exact ⟨hplace, f, hf, hunplaced⟩
  · rintro ⟨hplace, f, hf, rfl⟩
    refine ⟨f, hf, ?_⟩
    rw [told_of_unplaced hplace]
    rfl

theorem warrants_of_told (haim : h.aim w = some aim) (hreact : h.react w o = .informs <$> result)
    (hresult : result = told w.world.persons o aim unplaced nameOf announce callsOf)
    (hunplaced : ∀ i, unplaced ≠ .ok (some i)) {i : Informed}
    (hi : h.react w o = .ok (.informs (some i))) :
    ∃ aim, h.aim w = some aim ∧ aim.Warrants o i := by
  subst hresult
  rw [hreact] at hi
  obtain ⟨informed, hinformed, hi⟩ := Except.map_eq_ok hi
  obtain rfl := Reaction.informs.inj hi
  exact ⟨aim, haim, told_eq_ok (hunplaced i) hinformed⟩

theorem react_goalStatement_of_none {sentence : List Char}
    (hgoal : goal w.world.persons sentence = none) :
    react w o (.goalStatement sentence) = .ok .ignores := by
  rw [react, Handlers.goalStatement, hgoal]

theorem react_goalStatement_of_some {sentence : List Char} {agent cube : String}
    (hgoal : goal w.world.persons sentence = some (agent, cube)) :
    react w o (.goalStatement sentence) =
      .informs <$> informAboutFalseBeliefCube w.world.persons o agent cube := by
  rw [react, Handlers.goalStatement, hgoal]

/-- **Where results are misused.** -/
theorem misuses_iff (h : Handler) (w : Scene) (o : Outcomes) :
    (∃ f, f.isMisuse = true ∧ h.react w o = .error f) ↔ h.Fails w o := by
  cases h with
  | informCube agent cube =>
    refine (misuses_iff_of_told (h := .informCube agent cube) rfl
      (informAboutFalseBelief_eq_told _ _)).trans ?_
    exact iff_of_false (fun ⟨_, f, _, hf⟩ ↦ nomatch hf) id
  | informBox agent box =>
    refine (misuses_iff_of_told (h := .informBox agent box) rfl
      (informAboutFalseBelief_eq_told _ _)).trans ?_
    exact iff_of_false (fun ⟨_, f, _, hf⟩ ↦ nomatch hf) id
  | informObject agent held =>
    refine (misuses_iff_of_told (h := .informObject agent held) rfl
      (informAboutFalseBeliefObject_eq_told held)).trans ?_
    exact and_iff_left ⟨.emptyResult, rfl, rfl⟩
  | goalStatement sentence =>
    refine iff_of_false (fun ⟨f, hf, hreact⟩ ↦ ?_) id
    cases hgoal : goal w.world.persons sentence with
    | none => exact nomatch (react_goalStatement_of_none hgoal).symm.trans hreact
    | some p =>
      obtain ⟨-, f, -, hf⟩ := (misuses_iff_of_told (react_goalStatement_of_some hgoal)
        (informAboutFalseBelief_eq_told _ _)).1 ⟨f, hf, hreact⟩
      exact nomatch hf
  | needSpeech sentence =>
    constructor
    · rintro ⟨f, hf, hreact⟩
      exact ((needSpeech_eq_error_iff hf).1 hreact).2
    · intro hfails
      exact ⟨.unboundVariable, rfl, (needSpeech_eq_error_iff rfl).2 ⟨rfl, hfails⟩⟩
  | whySpeech sentence => exact iff_of_false (fun ⟨_, _, hreact⟩ ↦ nomatch hreact) id
  | epistemicSpeech sentence =>
    exact iff_of_false (fun ⟨_, _, hreact⟩ ↦ epistemicSpeech_ne_error hreact) id

/-- **When the robot informs** there is a reason to. -/
theorem warrants_of_informs {i : Informed} (hi : h.react w o = .ok (.informs (some i))) :
    ∃ aim, h.aim w = some aim ∧ aim.Warrants o i := by
  cases h with
  | informCube agent cube =>
    exact warrants_of_told rfl rfl (informAboutFalseBelief_eq_told _ _)
      (fun _ h ↦ nomatch Except.ok.inj h) hi
  | informBox agent box =>
    exact warrants_of_told rfl rfl (informAboutFalseBelief_eq_told _ _)
      (fun _ h ↦ nomatch Except.ok.inj h) hi
  | informObject agent held =>
    exact warrants_of_told rfl rfl (informAboutFalseBeliefObject_eq_told held)
      (fun _ h ↦ nomatch h) hi
  | goalStatement sentence =>
    cases hgoal : goal w.world.persons sentence with
    | none => exact nomatch (react_goalStatement_of_none hgoal).symm.trans hi
    | some p =>
      have haim : aim w (.goalStatement sentence) = some ⟨p.1, placeOf p.2, fun _ ↦ p.2⟩ := by
        rw [Handler.aim, hgoal, Option.map_some]
      exact warrants_of_told haim (react_goalStatement_of_some hgoal)
        (informAboutFalseBelief_eq_told _ _) (fun _ h ↦ nomatch Except.ok.inj h) hi
  | needSpeech sentence => rcases needSpeech_eq_ok hi with hi | hi <;> exact nomatch hi
  | whySpeech sentence =>
    have hi := Except.ok.inj hi
    rw [Handlers.whySpeech] at hi
    split at hi <;> exact nomatch hi
  | epistemicSpeech sentence => exact absurd hi epistemicSpeech_ne_informs

/-- **What handlers do with the answers** to their queries is what they may do, but for two of them:
the one that informs about an object and the one that tells where the needed cubes are. -/
theorem sound_iff (h : Handler) (w : Scene) (o : Outcomes) : h.Sound w o ↔ ¬ h.Fails w o := by
  rw [← misuses_iff]
  constructor
  · rintro ⟨hmisuse, -⟩ ⟨f, hf, hreact⟩
    exact Bool.false_ne_true ((hmisuse f hreact).symm.trans hf)
  · intro hmisuse
    refine ⟨fun f hreact ↦ Bool.eq_false_iff.2 fun hf ↦ hmisuse ⟨f, hf, hreact⟩, fun i hi ↦ ?_⟩
    exact warrants_of_informs hi

end Sound

/-- Anne is seen, with two things. -/
def kitchen : Scene where
  world :=
    { objects := []
      persons := [⟨"Anne", .tracked, ⟨fun _ ↦ .zero, fun _ ↦ 0⟩⟩]
      movables := [⟨⟨"marker-1", 1, .tracked⟩, .zero⟩, ⟨⟨"knife-104", 104, .tracked⟩, .zero⟩] }
  explainSentence := ""
  agents := ["R2DTU", "Anne"]

/-- The false belief is about a box, and the apple is at no known place. -/
def lostApple : Outcomes where
  query
    | .and _ _ => some ["marker-1001"]
    | _ => some []
  evaluate _ := some false

/-- Everything is in one box. -/
def oneBox : Outcomes where
  query _ := some ["marker-1001"]
  evaluate _ := some true

/-- **Two handlers** misuse what the queries answer: one prints the place of an apple that has none,
the other evaluates a query with a variable. -/
theorem handlers_misuse_results :
    ¬ (Handler.informObject "Anne" "knife-104").Sound kitchen lostApple ∧
      ¬ (Handler.needSpeech "jeg skal bruge en klods".toList).Sound kitchen oneBox := by
  constructor
  · have hreact : (Handler.informObject "Anne" "knife-104").react kitchen lostApple =
        .error .emptyResult := rfl
    exact fun h ↦ Bool.false_ne_true (h.1 _ hreact).symm
  · have hneed : (need kitchen.world.persons "jeg skal bruge en klods".toList).isSome := by decide
    have hreact : (Handler.needSpeech "jeg skal bruge en klods".toList).react kitchen oneBox =
        .error .unboundVariable :=
      (needSpeech_eq_error_iff rfl).2
        ⟨rfl, hneed, [], _, _, _, _, rfl, nofun, by decide, rfl⟩
    exact fun h ↦ Bool.false_ne_true (h.1 _ hreact).symm

end Handler

end Reasoning
