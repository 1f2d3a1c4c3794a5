import R2DTU.Reasoning.Handlers

/-!
# Handlers as programs of a session

`program_run` says that a program of a session does what the reaction of its handler says, with the
answers of the epistemic reasoner, and fails where the handler does. So what is said about reactions
holds in sessions; a handler that goes wrong ends the session (`program_eq_none_of_fails`).
-/

namespace Reasoning

open Reactive Session

variable {L : DelDomain}

/-! ### What reactions do -/

/-- What handlers read of a session. -/
def Session.toScene (s : Session L) : Scene := ⟨s.world, s.explainSentence, s.epistemic.agents⟩

/-- The robot is going to show a box. -/
def Informed.program (order : Del.HashOrder) (i : Informed) : Program L Unit := do
  change fun s ↦
    { s with explainSentence := i.explainSentence, currentSequence := some i.sequence }
  each (perform order) i.calls

/-- A handler that may inform. -/
def informing (order : Del.HashOrder) : Option Informed → Program L Unit
  | none => pure ()
  | some i => i.program order

/-- What a reaction does, and whether the sentence is taken. -/
def Reaction.program (c : Setting) : Reaction → Program L Bool
  | .ignores => pure false
  | .informs informed => do
    informing c.order informed
    pure true
  | .utters sentence => do
    emit (.say sentence)
    pure true
  | .answers sentence => do
    emit (.say sentence)
    update fun s ↦ ({ s with animationsDrawn := s.animationsDrawn + 1 },
      [.playAnimation (c.animation s.animationsDrawn)])
    pure true

/-- The program of a session that a handler is. -/
def Handler.program (c : Setting) : Handler → Program L Bool
  | .informCube agent cube => do
    informAboutFalseBeliefCube c.order agent cube
    pure true
  | .informBox agent box => do
    informAboutFalseBeliefBox c.order agent box
    pure true
  | .informObject agent held => do
    informAboutFalseBeliefObject c.order agent held
    pure true
  | .goalStatement sentence => goalStatementTrigger c sentence
  | .needSpeech sentence => needSpeechTrigger sentence
  | .whySpeech sentence => whySpeechTrigger sentence
  | .epistemicSpeech sentence => epistemicSpeechTrigger c sentence

/-! ### Informing about false beliefs -/

theorem query_run (q : Query) (s : Session L × List Output) :
    Session.query q s = (s.1.epistemic.query q).map (·, s) := rfl

theorem showBox_run {order : Del.HashOrder} {agent thing box : String}
    {announce : String → String → String} {p : Program L Unit}
    {calls : List EpistemicReasoning.Call} (hp : ∀ s, p s = each (perform order) calls s)
    (s : Session L × List Output) :
    (do Session.showBox agent thing box announce; p : Program L Unit) s =
      (Handlers.showBox s.1.world.persons agent thing box announce calls).toOption.bind
        fun i ↦ i.program order s := by
  rw [Handlers.showBox, Session.showBox]
  cases boxNumber box with
  | none => rfl
  | some number => exact hp _

theorem perform_pair (order : Del.HashOrder) (call call' : EpistemicReasoning.Call)
    (s : Session L × List Output) :
    (do perform order call; perform order call' : Program L Unit) s =
      each (perform order) [call, call'] s := by
  rw [bind_run, each_cons_run]
  exact congrArg _ (funext fun r ↦ (each_singleton_run _ _ _).symm)

theorem informAboutFalseBelief_run (order : Del.HashOrder) (agent : String) (belief : Query)
    (cubeOf boxOf : String → String) (announce : String → String → String)
    (s : Session L × List Output) :
    Session.informAboutFalseBelief order agent belief cubeOf boxOf announce s =
      (Handlers.informAboutFalseBelief s.1.world.persons s.1.epistemic.outcomes agent belief cubeOf
        boxOf announce).toOption.bind fun i ↦ informing order i s := by
  rw [Handlers.informAboutFalseBelief_eq_told, Handlers.told, Session.informAboutFalseBelief,
    bind_run, query_run]
  simp only [EpistemicReasoning.outcomes]
  rcases s.1.epistemic.query (falseBelief agent belief) with _ | _ | ⟨answer, answers⟩
  · rfl
  · rfl
  · rw [Option.map_some, Option.bind_some]
    simp only [bind_run, query_run, Handlers.placeOf]
    rcases s.1.epistemic.query (inPredicate (.const (cubeOf answer)) (.var "x")) with
      _ | _ | ⟨box, boxes⟩
    · rfl
    · rfl
    · rw [Except.toOption_map, Option.map_some, Option.bind_some, Option.bind_map]
      exact showBox_run (perform_pair order _ _) s

theorem informAboutFalseBeliefObject_run (order : Del.HashOrder) (agent held : String)
    (s : Session L × List Output) :
    Session.informAboutFalseBeliefObject order agent held s =
      (Handlers.informAboutFalseBeliefObject s.1.world.persons s.1.epistemic.outcomes agent
        held).toOption.bind fun i ↦ informing order i s := by
  rw [Handlers.informAboutFalseBeliefObject_eq_told, Handlers.told,
    Session.informAboutFalseBeliefObject, ← Handlers.matchingObject, bind_run, query_run]
  simp only [EpistemicReasoning.outcomes, Handlers.placeOf]
  rcases s.1.epistemic.query (falseBelief agent
    (inPredicate (.const (Handlers.matchingObject held)) (.var "x"))) with
    _ | _ | ⟨answer, answers⟩
  · rfl
  · rfl
  · rw [Option.map_some, Option.bind_some]
    simp only [bind_run, query_run]
    rcases s.1.epistemic.query
      (inPredicate (.const (Handlers.matchingObject held)) (.var "x")) with _ | _ | ⟨box, boxes⟩
    · rfl
    · rfl
    · rw [Except.toOption_map, Option.map_some, Option.bind_some, Option.bind_map]
      exact showBox_run (fun s ↦ (each_singleton_run _ _ _).symm) s

/-! ### Speech triggers -/

theorem toOption_attempt {α : Type} (x : Option α) : (Handlers.attempt x).toOption = x := by
  cases x <;> rfl

theorem evaluate_unbound (e : EpistemicReasoning L) (thing : String) :
    e.evaluate (Handlers.placeOf thing) = none := by
  simp only [Handlers.placeOf, inPredicate, EpistemicReasoning.evaluate, buildFormula,
    reifyPredicate, List.mapM_cons, reifyLeaf]
  rfl

theorem toOption_needStep (e : EpistemicReasoning L) (st : ℕ × String) (m : Movable) :
    (Handlers.needStep e.outcomes st m).toOption = Session.needStep e st m := by
  by_cases hst : st.1 = 0
  · rw [Handlers.needStep, Session.needStep, if_pos hst, if_pos hst]
    rfl
  · rw [Handlers.needStep_eq hst, Session.needStep, if_neg hst]
    split
    next hm =>
      rw [if_neg (Nat.not_le.2 hm)]
      have hplace : inPredicate (.const m.name) (.var "x") = Handlers.placeOf m.name := rfl
      simp only [EpistemicReasoning.outcomes, hplace, evaluate_unbound]
      rcases e.query (Handlers.placeOf m.name) with _ | _ | ⟨box, boxes⟩ <;> rfl
    next hm =>
      rw [if_pos (Nat.not_lt.1 hm)]
      rfl

theorem goalStatementTrigger_run (c : Setting) (sentence : List Char)
    (s : Session L × List Output) :
    goalStatementTrigger c sentence s =
      (Handlers.goalStatement s.1.world.persons s.1.epistemic.outcomes sentence).toOption.bind
        fun r ↦ r.program c s := by
  rw [goalStatementTrigger, Handlers.goalStatement, Handlers.goal]
  cases fromWord sentence "i have come for the " with
  | none => rfl
  | some rest =>
    simp only [Option.bind_eq_bind, Option.bind_some]
    cases colours.findIdx? (hasWord rest) with
    | none => rfl
    | some i =>
      simp only [bind_run, read_run, Option.bind_some]
      split
      · rfl
      · rw [Except.toOption_map, Option.bind_map]
        simp only [informAboutFalseBeliefCube, bind_run, informAboutFalseBelief_run]
        exact Option.bind_assoc _ _ _

theorem needSpeechTrigger_run (c : Setting) (sentence : List Char) (s : Session L × List Output) :
    needSpeechTrigger sentence s =
      (Handlers.needSpeech s.1.world s.1.epistemic.outcomes sentence).toOption.bind
        fun r ↦ r.program c s := by
  rw [needSpeechTrigger, Handlers.needSpeech, Handlers.need]
  cases (fromWord sentence "jeg skal bruge ").bind cubesNeeded with
  | none => rfl
  | some n =>
    simp only [Option.bind_eq_bind, Option.bind_some, bind_run, read_run]
    split
    · rfl
    · rw [bind_run, read_run, Option.bind_some, bind_run, read_run, Option.bind_some, bind_run,
        ofOption_run, Except.toOption_bind,
        Except.toOption_foldlM (toOption_needStep s.1.epistemic)]
      cases s.1.world.movables.foldlM (Session.needStep s.1.epistemic) (n, "tag den ") with
      | none => rfl
      | some st => rfl

theorem whySpeechTrigger_run (c : Setting) (sentence : List Char) (s : Session L × List Output) :
    whySpeechTrigger sentence s =
      (Handlers.whySpeech s.1.explainSentence sentence).program c s := by
  rw [whySpeechTrigger, Handlers.whySpeech]
  split
  · rfl
  · rfl

theorem toOption_located (article object : String) (response : List String) :
    (Handlers.located article object response).toOption =
      some (located article object response) := by
  rcases response with _ | ⟨box, _ | ⟨box', boxes⟩⟩ <;> rfl

theorem toOption_answerAbout (e : EpistemicReasoning L) (question : List Char) (object : String) :
    (Handlers.answerAbout e.agents e.outcomes question object).toOption =
      e.answerAbout question object := by
  rw [Handlers.answerAbout, EpistemicReasoning.answerAbout, EpistemicReasoning.namedAgents,
    Handlers.namedAgents]
  generalize ((e.agents.drop 1).take 2).filterMap _ = named
  rcases named with _ | ⟨p, _ | ⟨q, _ | ⟨r, rest⟩⟩⟩ <;>
  · simp only [Except.toOption_bind, toOption_attempt, toOption_located]
    rfl

theorem epistemicSpeech_eq (e : EpistemicReasoning L) (sentence : List Char) :
    Handlers.epistemicSpeech e.agents e.outcomes sentence =
      .ok (if e.answerQuestion sentence = "" then .ignores
        else .answers (e.answerQuestion sentence)) := by
  rw [Handlers.epistemicSpeech, EpistemicReasoning.answerQuestion]
  cases colours.find? (hasWord sentence) with
  | none => rfl
  | some colour =>
    simp only [← toOption_answerAbout]
    cases hanswer : Handlers.answerAbout e.agents e.outcomes sentence
      (translateIntoSymbolNames colour) with
    | error failure =>
      obtain rfl := Handlers.answerAbout_eq_error hanswer
      rfl
    | ok answer => rfl

theorem epistemicSpeechTrigger_run (c : Setting) (sentence : List Char)
    (s : Session L × List Output) :
    epistemicSpeechTrigger c sentence s =
      (Handlers.epistemicSpeech s.1.epistemic.agents s.1.epistemic.outcomes
        sentence).toOption.bind fun r ↦ r.program c s := by
  rw [epistemicSpeechTrigger, bind_run, read_run, Option.bind_some, epistemicSpeech_eq]
  by_cases hempty : s.1.epistemic.answerQuestion sentence = ""
  · rw [if_pos hempty, if_pos hempty]
    rfl
  · rw [if_neg hempty, if_neg hempty]
    rfl

/-! ### All handlers -/

/-- **The programs of a session** are the handlers, with the answers of the epistemic reasoner. -/
theorem Handler.program_run (c : Setting) (h : Handler) (s : Session L × List Output) :
    h.program c s =
      (h.react s.1.toScene s.1.epistemic.outcomes).toOption.bind fun r ↦ r.program c s := by
  cases h with
  | informCube agent cube =>
    rw [Handler.program, bind_run, informAboutFalseBeliefCube, informAboutFalseBelief_run,
      Handler.react, Except.toOption_map, Option.bind_map]
    exact Option.bind_assoc _ _ _
  | informBox agent box =>
    rw [Handler.program, bind_run, informAboutFalseBeliefBox, informAboutFalseBelief_run,
      Handler.react, Except.toOption_map, Option.bind_map]
    exact Option.bind_assoc _ _ _
  | informObject agent held =>
    rw [Handler.program, bind_run, informAboutFalseBeliefObject_run,
      Handler.react, Except.toOption_map, Option.bind_map]
    exact Option.bind_assoc _ _ _
  | goalStatement sentence => exact goalStatementTrigger_run c sentence s
  | needSpeech sentence => exact needSpeechTrigger_run c sentence s
  | whySpeech sentence => exact whySpeechTrigger_run c sentence s
  | epistemicSpeech sentence => exact epistemicSpeechTrigger_run c sentence s

/-- **A handler that goes wrong** ends the session. -/
theorem Handler.program_eq_none_of_fails (c : Setting) {h : Handler} {s : Session L}
    (hfails : h.Fails s.toScene s.epistemic.outcomes) (out : List Output) :
    h.program c (s, out) = none := by
  obtain ⟨f, -, hreact⟩ := (h.misuses_iff s.toScene s.epistemic.outcomes).2 hfails
  rw [Handler.program_run, hreact]
  rfl

end Reasoning
