import R2DTU.Reasoning.HeadTracking
import R2DTU.Reasoning.Transformers
import R2DTU.Reasoning.Registration

/-!
# Entering a session again

Is `enter` a clean start? Two runs are compared: one that enters after a history of sessions, and
one that enters for the first time. `reenter_commands_iff` says when no inputs can tell them apart.

* **No inputs can**, when the two states after `enter` are `Alike`. Every handler only reads what
  `Alike` makes equal, so each of them is `Determined`, and with them every step. The table of
  persons, the recording and the view flag are read by none.
* **Some inputs can**, when a session has left something behind. `leave` and `enter` reset neither
  the containers that are remembered nor the explanation, and the `static` variables of `tick` and
  the animations belong to the process. For each there are inputs that show it: an object that
  appears, a question why, persons to look at, and questions to be answered with an animation.
-/

namespace Reasoning

open Reactive

namespace Session

variable {L : DelDomain} {c : Setting} {s t : Session L}

/-! ### Sessions that cannot be told apart -/

/-- Two states that may differ in the table of persons, in what is recorded and shown, and in the
past of the head and of the animations. -/
structure Alike (c : Setting) (s t : Session L) : Prop where
  epistemic : s.epistemic = t.epistemic
  currentContainer : s.currentContainer = t.currentContainer
  world : s.world = t.world
  currentSequence : s.currentSequence = t.currentSequence
  explainSentence : s.explainSentence = t.explainSentence
  counter : s.counter = t.counter
  tracking : s.tracking.Alike t.tracking
  animations (n : ℕ) :
    c.animation (s.animationsDrawn + n) = c.animation (t.animationsDrawn + n)

/-- A program that puts out the same from states that are alike. -/
abbrev Determined {α : Type} (c : Setting) (p : Program L α) : Prop := Respects (Alike c) p

theorem determined_pure {α : Type} (a : α) : Determined c (pure a : Program L α) := respects_pure a

theorem determined_perform (order : Del.HashOrder) (call : EpistemicReasoning.Call) :
    Determined c (perform order call : Program L Unit) := by
  refine (respects_read fun h ↦ h.epistemic).bind fun e ↦ ?_
  refine (respects_ofOption _).bind fun e' ↦ ?_
  refine (respects_change fun h ↦ ?_).bind fun _ ↦ respects_emit _
  exact { h with epistemic := rfl }

theorem determined_query (q : Query) : Determined c (query q : Program L (List String)) :=
  (respects_read fun h ↦ h.epistemic).bind fun _ ↦ respects_ofOption _

theorem determined_heard (text : String) : Determined c (heard text : Program L Unit) :=
  (respects_each (fun _ ↦ respects_emit _) _).bind fun _ ↦
    .ite (respects_emit _) (respects_emit _)

theorem determined_showBox (agent thing box : String) (announce : String → String → String) :
    Determined c (showBox agent thing box announce : Program L Unit) := by
  refine (respects_read fun h ↦ congrArg Contents.persons h.world).bind fun persons ↦ ?_
  refine (respects_ofOption _).bind fun number ↦ respects_change fun h ↦ ?_
  exact { h with explainSentence := rfl, currentSequence := rfl }

theorem determined_informAboutFalseBelief (order : Del.HashOrder) (agent : String) (belief : Query)
    (cubeOf boxOf : String → String) (announce : String → String → String) :
    Determined c (informAboutFalseBelief order agent belief cubeOf boxOf announce :
      Program L Unit) := by
  refine (determined_query _).bind fun believed ↦ ?_
  cases believed with
  | nil => exact determined_pure ()
  | cons answer _ =>
    refine (determined_query _).bind fun actual ↦ .ite ?_ (determined_pure ())
    refine (respects_ofOption _).bind fun actualBox ↦ ?_
    refine (determined_showBox _ _ _ _).bind fun _ ↦ ?_
    exact (determined_perform _ _).bind fun _ ↦ determined_perform _ _

theorem determined_informAboutFalseBeliefObject (order : Del.HashOrder) (agent held : String) :
    Determined c (informAboutFalseBeliefObject order agent held : Program L Unit) := by
  refine (determined_query _).bind fun believed ↦ ?_
  cases believed with
  | nil => exact determined_pure ()
  | cons _ _ =>
    refine (determined_query _).bind fun actual ↦ ?_
    refine (respects_ofOption _).bind fun boxName ↦ .ite ?_ (determined_pure ())
    exact (determined_showBox _ _ _ _).bind fun _ ↦ determined_perform _ _

/-! ### World ticks -/

theorem determined_whenTouched (person : PersonObj) (movable : Movable) (ignored : Bool)
    {inform : Program L Unit} (h : Determined c inform) :
    Determined c (whenTouched person movable ignored inform) :=
  .ite (determined_pure ()) (.ite (determined_pure ()) (.ite h (determined_pure ())))

theorem determined_pairTriggers (order : Del.HashOrder) (fst snd : Entity) :
    Determined c (pairTriggers order fst snd : Program L Unit) := by
  cases fst with
  | movable _ => exact determined_pure ()
  | person person =>
    cases snd with
    | person _ => exact determined_pure ()
    | movable movable =>
      have hbox : Determined c (intentionTrigger order person movable : Program L Unit) :=
        determined_whenTouched _ _ _ (determined_informAboutFalseBelief _ _ _ _ _ _)
      refine hbox.bind fun _ ↦ ?_
      exact determined_whenTouched _ _ _ (determined_informAboutFalseBeliefObject _ _ _)

theorem determined_objectNewTransformer (order : Del.HashOrder) (text : String) (obj : Entity) :
    Determined c (objectNewTransformer order text obj : Program L Unit) := by
  cases obj with
  | movable obj =>
    refine .ite (determined_perform _ _) (.ite (determined_perform _ _) ?_)
    exact .ite (determined_heard text) (determined_pure ())
  | person p =>
    refine .ite (determined_pure ()) ?_
    refine (determined_perform _ _).bind fun _ ↦ (determined_perform _ _).bind fun _ ↦ ?_
    exact respects_change fun h ↦ { h with }

theorem determined_takeOut (order : Del.HashOrder) (name : String) :
    Determined c (takeOut order name : Program L Unit) := by
  refine (respects_read fun h ↦ congrFun h.currentContainer name).bind fun container ↦ ?_
  cases container with
  | none => exact determined_pure ()
  | some container =>
    refine (determined_perform _ _).bind fun _ ↦ respects_change fun h ↦ ?_
    exact { h with currentContainer := by rw [h.currentContainer] }

theorem determined_objectAppearTransformer (order : Del.HashOrder) (text : String) (obj : Entity) :
    Determined c (objectAppearTransformer order text obj : Program L Unit) := by
  cases obj with
  | person p => exact .ite (determined_pure ()) (determined_perform _ _)
  | movable obj =>
    exact (determined_takeOut _ _).bind fun _ ↦ .ite (determined_heard text) (determined_pure ())

theorem determined_lookInto (order : Del.HashOrder) (obj movable : Movable) :
    Determined c (lookInto order obj movable : Program L Unit) := by
  refine .ite (determined_pure ()) (.ite (determined_pure ()) (.ite ?_ (determined_pure ())))
  refine (respects_change fun h ↦ ?_).bind fun _ ↦ determined_perform _ _
  exact { h with
    currentContainer := by simp only [Observing.insertContainer, h.currentContainer] }

theorem determined_objectDisappearTransformer (order : Del.HashOrder) (text : String)
    (obj : Entity) : Determined c (objectDisappearTransformer order text obj : Program L Unit) := by
  cases obj with
  | person p =>
    refine .ite (determined_pure ()) ((determined_perform _ _).bind fun _ ↦ ?_)
    exact respects_change fun h ↦ { h with }
  | movable obj =>
    have hlook : Determined c (lookIntoAll order obj : Program L Unit) :=
      (respects_read fun h ↦ congrArg Contents.movables h.world).bind fun movables ↦
        respects_each (determined_lookInto order obj) movables
    have hstop : Determined c (stopListening text : Program L Unit) :=
      (determined_heard text).bind fun _ ↦ respects_change fun h ↦ { h with }
    exact .ite (determined_pure ()) (.ite (hstop.bind fun _ ↦ hlook) hlook)

theorem determined_transform (order : Del.HashOrder) (event : SeenEvent) :
    Determined c (transform order event : Program L Unit) := by
  unfold transform
  cases event.type with
  | newObject => exact determined_objectNewTransformer _ _ _
  | appear => exact determined_objectAppearTransformer _ _ _
  | disappear => exact determined_objectDisappearTransformer _ _ _

theorem determined_worldTick (order : Del.HashOrder) (world : Contents)
    (events : List SeenEvent) : Determined c (worldTick order world events : Program L Unit) := by
  refine (respects_change fun h ↦ { h with world := rfl }).bind fun _ ↦ ?_
  refine (respects_each (determined_transform order) events).bind fun _ ↦ ?_
  refine respects_each (fun fst ↦ ?_) world.objects
  exact respects_each (determined_pairTriggers order fst) world.objects

/-! ### Commands and ticks -/

theorem determined_goalStatementTrigger (sentence : List Char) :
    Determined c (goalStatementTrigger c sentence : Program L Bool) := by
  unfold goalStatementTrigger
  split
  · exact determined_pure false
  · split
    · exact determined_pure false
    · refine (respects_read fun h ↦ congrArg Contents.persons h.world).bind fun persons ↦ ?_
      refine .ite (determined_pure false) ?_
      exact (determined_informAboutFalseBelief _ _ _ _ _ _).bind fun _ ↦ determined_pure true

theorem determined_whySpeechTrigger (sentence : List Char) :
    Determined c (whySpeechTrigger sentence : Program L Bool) := by
  refine .ite ?_ (determined_pure false)
  refine (respects_read fun h ↦ h.explainSentence).bind fun text ↦ ?_
  exact (respects_emit _).bind fun _ ↦ determined_pure true

theorem determined_needSpeechTrigger (sentence : List Char) :
    Determined c (needSpeechTrigger sentence : Program L Bool) := by
  unfold needSpeechTrigger
  split
  · exact determined_pure false
  · refine (respects_read fun h ↦ congrArg Contents.persons h.world).bind fun persons ↦ ?_
    refine .ite (determined_pure false) ?_
    refine (respects_read fun h ↦ congrArg Contents.movables h.world).bind fun movables ↦ ?_
    refine (respects_read fun h ↦ h.epistemic).bind fun e ↦ ?_
    refine (respects_ofOption _).bind fun st ↦ ?_
    exact (respects_emit _).bind fun _ ↦ determined_pure true

theorem determined_epistemicSpeechTrigger (sentence : List Char) :
    Determined c (epistemicSpeechTrigger c sentence : Program L Bool) := by
  refine (respects_read fun h ↦ by rw [h.epistemic]).bind fun answer ↦ ?_
  refine .ite (determined_pure false) ?_
  refine (respects_emit _).bind fun _ ↦ Respects.bind ?_ fun _ ↦ determined_pure true
  refine respects_update fun {s t} h ↦ ⟨{ h with animations := fun n ↦ ?_ }, ?_⟩
  · show c.animation (s.animationsDrawn + 1 + n) = c.animation (t.animationsDrawn + 1 + n)
    rw [Nat.add_assoc, Nat.add_assoc]
    exact h.animations (1 + n)
  · rw [show c.animation s.animationsDrawn = c.animation t.animationsDrawn from h.animations 0]

theorem determined_firstOf {triggers : List (Program L Bool)}
    (h : ∀ trigger ∈ triggers, Determined c trigger) : Determined c (firstOf triggers) := by
  induction triggers with
  | nil => exact determined_pure ()
  | cons trigger triggers ih =>
    refine (h trigger List.mem_cons_self).bind fun taken ↦ .ite (determined_pure ()) ?_
    exact ih fun trigger' hmem ↦ h trigger' (List.mem_cons_of_mem _ hmem)

theorem determined_terminalCmd (cmd param text : String) :
    Determined c (terminalCmd c cmd param text : Program L Unit) := by
  refine .ite (determined_firstOf ?_) ?_
  · simp only [List.mem_cons, List.not_mem_nil, or_false, forall_eq_or_imp, forall_eq]
    exact ⟨determined_goalStatementTrigger _, determined_whySpeechTrigger _,
      determined_needSpeechTrigger _, determined_epistemicSpeechTrigger _⟩
  · refine .ite (respects_change fun h ↦ { h with }) (.ite (determined_heard text) ?_)
    refine .ite ((respects_emit _).bind fun _ ↦ respects_emit _) ?_
    exact .ite (respects_emit _) (.ite (respects_emit _) (determined_pure ()))

theorem determined_tick : Determined c (tick c : Program L Unit) := by
  refine (respects_read fun h ↦ h.currentSequence).bind fun sequence ↦ ?_
  cases sequence with
  | some sequence =>
    refine respects_update fun {s t} h ↦ ?_
    simp only [h.world]
    exact ⟨{ h with world := rfl, currentSequence := rfl }, trivial⟩
  | none =>
    refine (respects_read fun h ↦ h.counter).bind fun counter ↦ .ite ?_ (determined_pure ())
    refine respects_update fun {s t} h ↦ ?_
    simp only [h.world]
    obtain ⟨htracking, hout⟩ :=
      h.tracking.tick (cubeTargets t.world) (personTargets t.world)
    exact ⟨{ h with world := rfl, tracking := htracking }, hout⟩

/-- **A step** puts out the same from states that are alike. -/
theorem determined_step (input : Input) : Determined c (step c input : Program L Unit) := by
  cases input with
  | world contents events => exact determined_worldTick _ _ _
  | terminalCmd cmd param text => exact determined_terminalCmd _ _ _
  | tick => exact determined_tick

/-! ### What a session leaves behind -/

/-- **Nothing left behind**: no object is remembered in a container, nothing is there to be
explained, the head is idle and has followed no person, and the animations go on as from the
start. -/
structure Clean (c : Setting) (s : Session L) : Prop where
  /-- No thing is remembered in a container. -/
  containers (name : String) : s.currentContainer name = none
  /-- There is no explanation. -/
  explanation : s.explainSentence = ""
  /-- No cube was looked at shortly before. -/
  idle : s.tracking.isIdle = true
  /-- The timer stands at its beginning. -/
  timer : s.tracking.personSwitchTimer = 0
  /-- Nobody was looked at. -/
  target : s.tracking.currentlyTrackTarget = ""
  /-- The animations to come are those that come first. -/
  animations (n : ℕ) : c.animation (s.animationsDrawn + n) = c.animation n

/-- The state after `enter`. -/
def entered (e : EpistemicReasoning L) (s : Session L) : Session L :=
  { s with epistemic := e, world := .clear, currentSequence := none, counter := 0 }

theorem Clean.alike {e₀ : EpistemicReasoning L} (h : s.Clean c) (e : EpistemicReasoning L) :
    Alike c (s.entered e) ((new e₀).entered e) where
  epistemic := rfl
  currentContainer := funext h.containers
  world := rfl
  currentSequence := rfl
  explainSentence := h.explanation
  counter := rfl
  tracking := ⟨h.target, h.timer, h.idle, fun hbusy ↦ absurd (hbusy.symm.trans h.idle) (by decide)⟩
  animations := fun n ↦ (h.animations n).trans (congrArg c.animation (Nat.zero_add n).symm)

variable {e : EpistemicReasoning L}

theorem visit_run (he : EpistemicReasoning.reset c.order = some e) (inputs : List Input)
    (s : Session L) :
    visit c inputs (s, []) = each (step c) inputs (s.entered e, [.toggleBreathing true]) := by
  simp only [visit, enter, bind_run, ofOption_run, he, Option.map_some, Option.bind_some,
    change_run, emit_run]
  rfl

/-! ### Telling states apart -/

/-- No inputs after `enter` tell the state from a new one. -/
def Indistinct (c : Setting) (e₀ : EpistemicReasoning L) (s : Session L) : Prop :=
  ∀ inputs : List Input, commands (visit c inputs) s = commands (visit c inputs) (new e₀)

variable {e₀ : EpistemicReasoning L} {inputs : List Input} {out out' : List Output}

/-- What some inputs put out after `enter`. -/
def putOut (c : Setting) (e : EpistemicReasoning L) (inputs : List Input) (s : Session L) :
    Option (List Output) :=
  (each (step c) inputs (s.entered e, [.toggleBreathing true])).map (·.2.2)

theorem commands_visit (he : EpistemicReasoning.reset c.order = some e) (inputs : List Input)
    (s : Session L) :
    commands (visit c inputs) s = (putOut c e inputs s).map (List.filter Output.isCommand) := by
  rw [commands, outputs, visit_run he, putOut]

theorem Indistinct.putOut_eq (h : Indistinct c e₀ s)
    (he : EpistemicReasoning.reset c.order = some e) (inputs : List Input) :
    (putOut c e inputs s).map (List.filter Output.isCommand) =
      (putOut c e inputs (new e)).map (List.filter Output.isCommand) := by
  have hnew : putOut c e inputs (new e) = putOut c e inputs (new e₀) := rfl
  rw [hnew, ← commands_visit he, ← commands_visit he]
  exact h inputs

/-- When only commands are put out, they are the same. -/
theorem Indistinct.out_eq (h : Indistinct c e₀ s)
    (he : EpistemicReasoning.reset c.order = some e)
    (hs : putOut c e inputs s = some ([.toggleBreathing true] ++ out))
    (hnew : putOut c e inputs (new e) = some ([.toggleBreathing true] ++ out'))
    (hout : ∀ o ∈ out, o.isCommand = true) (hout' : ∀ o ∈ out', o.isCommand = true) :
    out = out' := by
  have heq := h.putOut_eq he inputs
  rw [hs, hnew, Option.map_some, Option.map_some, List.filter_append, List.filter_append,
    List.filter_eq_self.2 hout, List.filter_eq_self.2 hout'] at heq
  exact List.append_cancel_left (Option.some.inj heq)

/-- An object appears. -/
def appearing (name : String) : Input :=
  .world .clear [⟨.appear, .movable ⟨⟨name, 1, .lost⟩, .zero⟩, ""⟩]

theorem appearing_run_of_none {name : String} (h : s.currentContainer name = none)
    (out : List Output) :
    step c (appearing name) (s, out) = some ((), { s with world := .clear }, out) := by
  simp only [step, appearing, worldTick, bind_run, change_run, each_cons_run, each_nil_run,
    transform, objectAppearTransformer, takeOut, read_run, h, Contents.clear, Option.bind_some]
  rfl

theorem appearing_run_of_some {name container : String}
    (h : s.currentContainer name = some container) (out : List Output) :
    (step c (appearing name) (s, out)).map (·.2.2) =
      (s.epistemic.takeOutOfContainer Observing.robot name container).map fun _ ↦
        out ++ [.epistemic (.takeOutOfContainer Observing.robot name container)] := by
  simp only [step, appearing, worldTick, bind_run, change_run, each_cons_run, each_nil_run,
    transform, objectAppearTransformer, takeOut, read_run, h, Contents.clear, perform_run,
    Option.bind_some, EpistemicReasoning.call]
  cases s.epistemic.takeOutOfContainer Observing.robot name container <;> rfl

/-- An object that is remembered in a container is taken out when it appears. -/
theorem Indistinct.containers (h : Indistinct c e₀ s)
    (he : EpistemicReasoning.reset c.order = some e) (name : String) :
    s.currentContainer name = none := by
  have heq := h.putOut_eq he [appearing name]
  rw [putOut, putOut, each_singleton_run, each_singleton_run,
    appearing_run_of_none (s := (new e).entered e) rfl, Option.map_some, Option.map_some] at heq
  cases hname : s.currentContainer name with
  | none => rfl
  | some container =>
    rw [appearing_run_of_some (s := s.entered e) hname, Option.map_map,
      Option.map_eq_some_iff] at heq
    obtain ⟨e', -, hout⟩ := heq
    have hlength : 2 = 1 := congrArg List.length hout
    exact absurd hlength (by decide)

/-- What was explained last is said again. -/
theorem terminalCmd_why_run (s : Session L) (out : List Output) :
    step c (.terminalCmd "hear:" "why" "") (s, out) =
      some ((), s, out ++ [.say s.explainSentence]) := by
  rfl

theorem Indistinct.explanation (h : Indistinct c e₀ s)
    (he : EpistemicReasoning.reset c.order = some e) : s.explainSentence = "" := by
  have hwhy (s : Session L) : putOut c e [.terminalCmd "hear:" "why" ""] s =
      some ([.toggleBreathing true] ++ [.say s.explainSentence]) := by
    rw [putOut, each_singleton_run, terminalCmd_why_run]
    rfl
  have hsay := h.out_eq he (hwhy s) (hwhy (new e)) (by simp [Output.isCommand])
    (by simp [Output.isCommand])
  exact Output.say.inj (List.cons.inj hsay).1

/-! ### The head -/

/-- A person that is tracked, with all joints in one place. -/
def bystander (p : String × Vec3) : PersonObj := ⟨p.1, .tracked, fun _ ↦ p.2, fun _ ↦ 0⟩

/-- The world holds these persons. -/
def watching (persons : List (String × Vec3)) : Input := .world ⟨[], persons.map bystander, []⟩ []

theorem watching_run (persons : List (String × Vec3)) (s : Session L) (out : List Output) :
    step c (watching persons) (s, out) =
      some ((), { s with world := ⟨[], persons.map bystander, []⟩ }, out) := by
  simp only [step, watching, worldTick, bind_run, change_run, each_nil_run, Option.bind_some]

theorem tick_run (hsequence : s.currentSequence = none) (hcounter : s.counter = 0)
    (out : List Output) :
    step c .tick (s, out) =
      some ((), { s with
        tracking := (s.tracking.tick (cubeTargets s.world) (personTargets s.world)).1 },
        out ++ (s.tracking.tick (cubeTargets s.world) (personTargets s.world)).2) := by
  obtain ⟨observing, world, sequence, explained, counter⟩ := s
  obtain rfl : sequence = none := hsequence
  obtain rfl : counter = 0 := hcounter
  rfl

theorem cubeTargets_eq_nil (persons : List PersonObj) : cubeTargets ⟨[], persons, []⟩ = [] := by
  simp [cubeTargets]

theorem personTargets_bystander {persons : List (String × Vec3)}
    (hnames : ∀ p ∈ persons, p.1 ≠ "") :
    personTargets ⟨[], persons.map bystander, []⟩ = persons := by
  have hall : ∀ p ∈ persons.map bystander, isTarget p = true := by
    intro p hp
    obtain ⟨q, hq, rfl⟩ := List.mem_map.1 hp
    simp [isTarget, bystander, hnames q hq]
  rw [personTargets, List.filter_eq_self.2 hall, List.map_map]
  exact List.map_id'' (fun _ ↦ rfl) persons

/-- **The head in a session**: with persons and no cubes it does what its own run says. -/
theorem watching_ticks_run {l : List (List (String × Vec3))} (hnames : HeadTracking.Named l)
    (hsequence : s.currentSequence = none) (hcounter : s.counter = 0) (out : List Output) :
    (each (step c) (l.flatMap fun persons ↦ [watching persons, .tick]) (s, out)).map (·.2.2) =
      some (out ++ s.tracking.run l) := by
  induction l generalizing s out with
  | nil => exact congrArg some (List.append_nil out).symm
  | cons persons l ih =>
    rw [List.flatMap_cons, List.cons_append, List.cons_append, List.nil_append, each_cons_run,
      watching_run,
      Option.bind_some, each_cons_run,
      tick_run (s := { s with world := ⟨[], persons.map bystander, []⟩ }) hsequence hcounter,
      Option.bind_some, cubeTargets_eq_nil,
      personTargets_bystander (hnames persons List.mem_cons_self), HeadTracking.run_cons,
      ← List.append_assoc]
    exact ih (s := { s with
      world := ⟨[], persons.map bystander, []⟩
      tracking := (s.tracking.tick [] persons).1 })
      (fun persons' hmem ↦ hnames persons' (List.mem_cons_of_mem _ hmem)) hsequence hcounter _

theorem Indistinct.run_eq (h : Indistinct c e₀ s) (he : EpistemicReasoning.reset c.order = some e)
    (l : List (List (String × Vec3))) (hnames : HeadTracking.Named l) :
    s.tracking.run l = HeadTracking.start.run l := by
  have hrun (s : Session L) : putOut c e (l.flatMap fun persons ↦ [watching persons, .tick]) s =
      some ([.toggleBreathing true] ++ s.tracking.run l) :=
    watching_ticks_run (s := s.entered e) hnames rfl rfl _
  exact h.out_eq he (hrun s) (hrun (new e)) (fun _ ↦ HeadTracking.isCommand_of_mem_run)
    fun _ ↦ HeadTracking.isCommand_of_mem_run

/-! ### The animations -/

theorem answerQuestion_reset (he : EpistemicReasoning.reset c.order = some e) :
    e.answerQuestion "red".toList = "The red cube is not in any box" := by
  have hkept := Registrations.kept_setupDomain he
  have hcolour : colours.find? (hasWord "red".toList) = some "red" := by decide
  have hagents : e.namedAgents "red".toList = [] := by
    rw [EpistemicReasoning.namedAgents, hkept.agents]
    rfl
  have hquery : e.query (inPredicate (.const "marker-1") (.var "x")) = some [] := by
    show e.queryFrom _ "x" e.allObjects = some []
    rw [hkept.allObjects]
    rfl
  have hsymbol : translateIntoSymbolNames "red" = "marker-1" := by decide
  simp only [EpistemicReasoning.answerQuestion, hcolour, EpistemicReasoning.answerAbout, hagents,
    hsymbol, hquery]
  decide

/-- A question is answered and an animation drawn. -/
theorem terminalCmd_red_run {answer : String} (hanswer : answer ≠ "")
    (h : s.epistemic.answerQuestion "red".toList = answer) (out : List Output) :
    step c (.terminalCmd "hear:" "red" "") (s, out) =
      some ((), { s with animationsDrawn := s.animationsDrawn + 1 },
        out ++ [.say answer, .playAnimation (c.animation s.animationsDrawn)]) := by
  have htrigger : epistemicSpeechTrigger c "red".toList (s, out) =
      some (true, { s with animationsDrawn := s.animationsDrawn + 1 },
        out ++ [.say answer] ++ [.playAnimation (c.animation s.animationsDrawn)]) := by
    rw [epistemicSpeechTrigger, bind_run, read_run, Option.bind_some, h, if_neg hanswer]
    rfl
  -- the other three triggers do not take the sentence
  show (firstOf [epistemicSpeechTrigger c "red".toList] (s, out)) = _
  rw [firstOf, bind_run, htrigger, List.append_assoc]
  rfl

/-- What is put out for some questions in a row. -/
def answered (c : Setting) (drawn n : ℕ) : List Output :=
  (List.range n).flatMap fun i ↦
    [.say "The red cube is not in any box", .playAnimation (c.animation (drawn + i))]

theorem isCommand_of_mem_answered {drawn n : ℕ} {o : Output} (h : o ∈ answered c drawn n) :
    o.isCommand = true := by
  obtain ⟨i, -, ho⟩ := List.mem_flatMap.1 h
  rcases List.mem_pair.1 ho with rfl | rfl
  · rfl
  · rfl

theorem terminalCmds_red_run (n : ℕ)
    (h : s.epistemic.answerQuestion "red".toList = "The red cube is not in any box")
    (out : List Output) :
    each (step c) (List.replicate n (.terminalCmd "hear:" "red" "")) (s, out) =
      some ((), { s with animationsDrawn := s.animationsDrawn + n },
        out ++ answered c s.animationsDrawn n) := by
  induction n with
  | zero => simp [answered, each_nil_run]
  | succ n ih =>
    have hred := terminalCmd_red_run (c := c)
      (s := { s with animationsDrawn := s.animationsDrawn + n }) (by decide) h
      (out ++ answered c s.animationsDrawn n)
    rw [List.replicate_succ', each_append_run, ih, Option.bind_some, each_singleton_run, hred,
      List.append_assoc, answered, answered, List.range_succ, List.flatMap_append]
    rfl

theorem Indistinct.animations (h : Indistinct c e₀ s)
    (he : EpistemicReasoning.reset c.order = some e) (n : ℕ) :
    c.animation (s.animationsDrawn + n) = c.animation n := by
  have hrun (s : Session L) :
      putOut c e (List.replicate (n + 1) (.terminalCmd "hear:" "red" "")) s =
        some ([.toggleBreathing true] ++ answered c s.animationsDrawn (n + 1)) := by
    rw [putOut, terminalCmds_red_run (s := s.entered e) _ (answerQuestion_reset he)]
    rfl
  have hall := h.out_eq he (hrun s) (hrun (new e)) (fun _ ↦ isCommand_of_mem_answered)
    fun _ ↦ isCommand_of_mem_answered
  rw [answered, answered, List.range_succ, List.flatMap_append, List.flatMap_append] at hall
  have hlast := (List.append_inj' hall rfl).2
  simpa [new] using hlast

/-! ### The two runs -/

theorem Indistinct.clean (h : Indistinct c e₀ s)
    (he : EpistemicReasoning.reset c.order = some e) : s.Clean c := by
  have hidle := HeadTracking.isIdle_of_run (h.run_eq he)
  have htimer := HeadTracking.timer_of_run hidle (h.run_eq he)
  have htarget := HeadTracking.target_of_run hidle htimer (h.run_eq he)
  exact ⟨h.containers he, h.explanation he, hidle, htimer, htarget, h.animations he⟩

theorem Clean.indistinct (h : s.Clean c) : Indistinct c e₀ s := by
  intro inputs
  cases he : @EpistemicReasoning.reset L c.order with
  | none =>
    rw [commands, commands, outputs, outputs, visit, bind_run, bind_run, enter, bind_run, bind_run,
      ofOption_run, he]
    rfl
  | some e =>
    have halike : Alike c (s.entered e) ((new e₀).entered e) := h.alike e
    have hmatched := (respects_each determined_step inputs).matched [.toggleBreathing true] halike
    rw [commands_visit he, commands_visit he, putOut, putOut, hmatched.outputs_eq]

/-- A session that was entered has reset the epistemic reasoner. -/
theorem exists_reset {inputs : List Input} {sessions : List (List Input)}
    (h : (history c (inputs :: sessions)).final (new e₀) = some s) :
    ∃ e : EpistemicReasoning L, EpistemicReasoning.reset c.order = some e := by
  cases he : @EpistemicReasoning.reset L c.order with
  | some e => exact ⟨e, rfl⟩
  | none =>
    rw [final, history, each_cons_run, bind_run, visit, bind_run, enter, bind_run, ofOption_run, he]
      at h
    exact absurd h nofun

/-- **Entering again.** After any history of sessions, entering and then any inputs give the calls
and commands that they give after the very first `enter`, if and only if nothing was left behind. -/
theorem reenter_commands_iff {sessions : List (List Input)}
    (h : (history c sessions).final (new e₀) = some s) :
    (∀ inputs : List Input, commands (visit c inputs) s = commands (visit c inputs) (new e₀)) ↔
      s.Clean c := by
  refine ⟨fun hsame ↦ ?_, Clean.indistinct⟩
  cases sessions with
  | nil =>
    obtain rfl : new e₀ = s := Option.some.inj h
    exact ⟨fun _ ↦ rfl, rfl, rfl, rfl, rfl, fun n ↦ congrArg c.animation (Nat.zero_add n)⟩
  | cons inputs sessions =>
    obtain ⟨e, he⟩ := exists_reset h
    exact Indistinct.clean hsame he

/-! ### A cube that was in a box -/

/-- The animations in some order. -/
def setting : Setting where
  order := .insertion
  position := .zero
  animation := fun n ↦ "animations/Stand/BodyTalk/Speaking/BodyTalk_" ++ toString (n % 16 + 1)

/-- An epistemic reasoner without a domain. -/
def blank : EpistemicReasoning plainDomain := ⟨⟨[], [], [], [], []⟩, ⟨[], [], [], []⟩, (0 : ℕ)⟩

def redCube (status : WorldObjectStatus) (center : Vec3) : Movable :=
  ⟨⟨"marker-1", 1, status⟩, center⟩

def firstBox : Movable := ⟨⟨"marker-1001", 1001, .tracked⟩, .zero⟩

/-- An event while there are the red cube and the first box. -/
def scene (status : WorldObjectStatus) (center : Vec3) (type : WorldModel.EventType)
    (obj : Movable) : Input :=
  .world ⟨[.movable (redCube status center), .movable firstBox], [],
    [redCube status center, firstBox]⟩ [⟨type, .movable obj, ""⟩]

/-- The cube and the box are seen, and then the cube no more. -/
def lostAt (center : Vec3) : List Input :=
  [scene .tracked center .newObject (redCube .tracked center),
    scene .tracked center .newObject firstBox,
    scene .lost center .disappear (redCube .lost center)]

/-- In the middle of the box, and beside it. -/
def inside : Vec3 := ⟨0, -35 / 100, 1 / 10⟩

def beside : Vec3 := ⟨1, 0, 0⟩

/-- The cube is lost beside the box and seen again. -/
def seenAgain : List Input :=
  lostAt beside ++ [scene .tracked beside .appear (redCube .tracked beside)]

/-- **A quiet session**: the robot pushes and looks for someone, and entering again is a clean
start. -/
theorem reenter_commands_iff_push :
    ∃ s : Session plainDomain,
      (history setting [[.terminalCmd "push" "" "", .tick]]).final (new blank) = some s ∧
      s.Clean setting ∧ ∀ inputs : List Input,
        commands (visit setting inputs) s = commands (visit setting inputs) (new blank) := by
  have hfinal : ((history setting [[.terminalCmd "push" "" "", .tick]]).final (new blank)).map
      (fun s ↦ (s.currentContainer, s.explainSentence, s.tracking, s.animationsDrawn)) =
      some (fun _ ↦ none, "", .start, 0) := by
    rfl
  obtain ⟨s, hs, hfields⟩ := Option.map_eq_some_iff.1 hfinal
  simp only [Prod.mk.injEq] at hfields
  obtain ⟨hcontainers, hexplained, htracking, hdrawn⟩ := hfields
  have hclean : s.Clean setting := by
    refine ⟨congrFun hcontainers, hexplained, ?_, ?_, ?_, fun n ↦ ?_⟩
    · rw [htracking]
      rfl
    · rw [htracking]
      rfl
    · rw [htracking]
      rfl
    · rw [hdrawn, Nat.zero_add]
  exact ⟨s, hs, hclean, (reenter_commands_iff hs).2 hclean⟩

/-- **A cube that was in a box** in the session before is taken out of it when it is seen again,
though in this session it was never put in. -/
theorem reenter_takes_out :
    ∃ s : Session plainDomain, (history setting [lostAt inside]).final (new blank) = some s ∧
      commands (visit setting seenAgain) s ≠ commands (visit setting seenAgain) (new blank) ∧
      commands (visit setting seenAgain) s = (commands (visit setting seenAgain) (new blank)).map
        (· ++ [.epistemic (.takeOutOfContainer "R2DTU" "marker-1" "marker-1001")]) := by
  have hscene : ((history setting [lostAt inside]).final (new blank)).bind (fun s ↦
      commands (visit setting seenAgain) s) =
      some [.toggleBreathing true, .epistemic (.addObject .storable "marker-1"),
        .epistemic (.addObject .container "marker-1001"),
        .epistemic (.takeOutOfContainer "R2DTU" "marker-1" "marker-1001")] := by
    decide +kernel
  have hfirst : commands (visit setting seenAgain) (new blank) =
      some [.toggleBreathing true, .epistemic (.addObject .storable "marker-1"),
        .epistemic (.addObject .container "marker-1001")] := by
    decide +kernel
  obtain ⟨s, hs, hout⟩ := Option.bind_eq_some_iff.1 hscene
  refine ⟨s, hs, ?_, ?_⟩
  · rw [hout, hfirst]
    decide
  · rw [hout, hfirst]
    rfl

end Session

end Reasoning
