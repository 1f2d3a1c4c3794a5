import R2DTU.Executor.Robot
import Mathlib.Data.List.Induction
import Mathlib.Data.List.Nodup

/-!
# Greeting persons

In the state `Greet` the robot turns to a person it has no name for, shakes hands and asks for the
name. The operator leads it through the dialogue with confirmations, and types or confirms the name
that was heard.

Persons are looked at in every tick, so a dialogue has to hold on to its person: `current_target`
may only change between two dialogues. `Telling` is the invariant. It reads what the robot has said
as dialogues that are finished, each with another person, and one that is not (`Telling.step`, and
`greet_visit` for a visit of the state).

The last sentence is written into a buffer of 128 bytes. With a name of more than 110 bytes it does
not fit, and the tick fails (`thank`). A visit in which no such name is typed does not
(`Short.step`).

The texts are the English ones. The persons are those the world lists in the tick. Terminal commands
come with what the speech recognition has heard by then. A tick that only switches its target
returns before it dispatches them, so they are none in such a tick.
-/

namespace Executor

universe u

variable {V : Type u}

/-- `L10N_HELLO`: the first sentence of a greeting. -/
def l10nHello : String := "Hello"

/-- `L10N_MY_NAME`: the second one, by which the robot introduces itself. -/
def l10nMyName : String := "My name is R2DTU"

/-- `L10N_YOUR_NAME`: the third one, which asks for a name. -/
def l10nYourName : String := "What is your name?"

/-- `L10N_NICE_TO_MEET`: the last one, once the name has been learnt. Names have no zero byte, at
which `%s` would stop. -/
def l10nNiceToMeet (name : String) : String := "Nice to meet you " ++ name

/-- `HEAD_TRACKING_FREQUENCY`: the head follows a person in every third tick. -/
def headTrackingFrequency : ℕ := 3

/-- `HEAD_TRACKING_SWITCH_FREQUENCY`: after more than three times as many ticks, the head may turn
to another person. -/
def headTrackingSwitchFrequency : ℕ := 50

/-- The size of the buffer for the last sentence. -/
def bufferSize : ℕ := 128

/-- `sprintf` into the buffer. It fails when the text, with a zero byte behind it, does not fit. -/
def sprintf (text : String) : Option String :=
  if text.utf8ByteSize < bufferSize then some text else none

/-- `Greet`, with the variable of `tick` that is `static`: the ticks and the answers of the dialogue
in progress, whether the operator has confirmed, whether the head follows the target, the name that
was learned, the person looked at, whom the state has greeted, and whether it is recording. The
counters are `int` in the source, and natural numbers here. -/
structure Greet where
  /-- The ticks of the dialogue in this part of it. -/
  counter : ℕ
  /-- How far the dialogue is: which answer of the operator is next. -/
  confirmCounter : ℕ
  /-- The operator has confirmed, and that is not used up yet. -/
  confirmFlag : Bool
  /-- Whether the head follows the target. -/
  headTracking : Bool
  greetInProgress : Bool
  /-- The name that came with the last learn command. -/
  newlyLearned : String
  /-- The person that is greeted or looked at. -/
  currentTarget : UInt32
  /-- The persons whose dialogue is finished. -/
  alreadyGreetedIds : List UInt32
  /-- Whether the microphone is recording. -/
  recording : Bool
  /-- The ticks without a dialogue since the head has turned to another person. -/
  personSwitchTimer : ℕ

/-- `TerminalCmdMsg`, and what the speech recognition returns when it is finished now. -/
structure TerminalCmd where
  cmdType : String
  param : String
  /-- What the microphone has heard, if this ends a recording. -/
  heard : String

namespace Greet

/-- `Robot::finish_recording`: what was heard, in quotes and with a question mark. -/
def finishRecording (heard : String) : String := "\"" ++ heard ++ "?\""

/-- The loop over the text that was heard: blanks and punctuation are left out, and the first
character of the text would become a capital. -/
def spokenName (text : String) : String :=
  String.ofList (text.toList.zipIdx.filterMap fun (c, i) ↦
    if c ≠ ' ' ∧ c ≠ '?' ∧ c ≠ '"' then some (if i = 0 then c.toUpper else c) else none)

/-- `terminal_cmd`: the operator starts or ends a recording, which ends in a proposal for the
terminal, or says which name has been learnt. -/
def terminalCmd (g : Greet) (msg : TerminalCmd) : Greet × List (Command V) :=
  if msg.cmdType = "sr" then
    if !g.recording then ({ g with recording := true }, [.startRecording])
    else
      let text := finishRecording msg.heard
      ({ g with recording := false },
        [.logInfo ("\"" ++ text ++ "\""), .sendToTerminal ("learn " ++ spokenName text)])
  else if msg.cmdType = "learn" then ({ g with newlyLearned := msg.param }, [])
  else (g, [])

/-- `sub->tick()`, with the messages it dispatches. -/
def terminalCmds (g : Greet) (msgs : List TerminalCmd) : Greet × List (Command V) :=
  msgs.foldl (fun st msg ↦ ((terminalCmd (V := V) st.1 msg).1, st.2 ++ (terminalCmd st.1 msg).2))
    (g, [])

/-- `confirm`: the operator lets the greeting go on. -/
def confirm (g : Greet) : Greet := { g with confirmFlag := true }

/-- `enter` ends the dialogue of the visit before; whom it has greeted stays. -/
def enter (g : Greet) : Greet × List (Command V) :=
  ({ g with
      greetInProgress := false
      currentTarget := 0
      counter := 0
      confirmCounter := 0
      confirmFlag := false },
    [.toggleBreathing false, .moveTo 0 0 (-3 / 10)])

/-- `leave` turns the robot back. -/
def leave : List (Command V) := [.turn 0, .moveTo 0 0 (-6 / 10)]

/-- Whether a dialogue with the person starts. -/
def starts (g : Greet) (p : Person V) : Bool :=
  g.confirmFlag && !g.greetInProgress && p.tracked && p.name = "" && p.id ∉ g.alreadyGreetedIds

/-- One round of the first loop over the persons, with `target_head` and `target_tracked`. -/
def lookFor (st : Greet × Option V × Bool) (p : Person V) : Greet × Option V × Bool :=
  let g :=
    if st.1.starts p then
      { st.1 with
        greetInProgress := true
        currentTarget := p.id
        counter := 0
        confirmCounter := 0
        confirmFlag := false
        headTracking := true
        newlyLearned := "" }
    else st.1
  if p.id = g.currentTarget then (g, some p.head, p.tracked) else (g, st.2)

/-- The greeting is over. -/
def finish (g : Greet) : Greet :=
  { g with
    alreadyGreetedIds :=
      if g.currentTarget ∈ g.alreadyGreetedIds then g.alreadyGreetedIds
      else g.alreadyGreetedIds ++ [g.currentTarget]
    newlyLearned := ""
    counter := 0
    confirmCounter := 0
    confirmFlag := false
    greetInProgress := false }

/-- What a dialogue does in a tick before the first answer. -/
def approach (g : Greet) (head : Option V) (tracked : Bool) : Greet × List (Command V) :=
  let cmds :=
    (if g.counter = 0 then [.setHeadAngles 0 0] else []) ++
      (if g.counter = 15 && tracked then (head.map Command.turnTowards).toList else []) ++
      if g.counter = 120 then [.startLearn g.currentTarget, .handshakeUp, .say l10nHello] else []
  let headTracking :=
    if g.counter = 0 then false else if g.counter = 150 then true else g.headTracking
  if g.confirmFlag then
    ({ g with headTracking, confirmFlag := false, confirmCounter := g.confirmCounter + 1 },
      cmds ++ [.say l10nMyName, .handshakeReciprocate])
  else ({ g with headTracking }, cmds)

/-- What it does after the name was said. -/
def ask (g : Greet) : Greet × List (Command V) :=
  if g.confirmFlag then
    ({ g with
        headTracking := false
        confirmFlag := false
        confirmCounter := g.confirmCounter + 1
        counter := 0 },
      [.handshakeDown, .say l10nYourName])
  else if g.counter = 30 then ({ g with headTracking := true }, [])
  else (g, [])

/-- What it does after the question. -/
def thank (g : Greet) (persons : List (Person V)) : Option (Greet × List (Command V)) :=
  let personLearned := persons.any fun p ↦ g.newlyLearned ≠ "" && p.name = g.newlyLearned
  if g.counter > 30 && (personLearned || g.confirmFlag) then
    (sprintf (l10nNiceToMeet g.newlyLearned)).map fun buffer ↦ (g.finish, [.say buffer])
  else some (g, [])

/-- The part of `tick` for a greeting in progress. -/
def dialogue (g : Greet) (persons : List (Person V)) (head : Option V) (tracked : Bool) :
    Option (Greet × List (Command V)) :=
  if g.greetInProgress then
    match g.confirmCounter with
    | 0 => some (g.approach head tracked)
    | 1 => some g.ask
    | 2 => g.thank persons
    | _ => some (g, [])
  else some (g, [])

/-- The other persons that could be looked at. -/
def otherTargets (g : Greet) (persons : List (Person V)) : List UInt32 :=
  (persons.filter fun p ↦ p.tracked && p.id ≠ g.currentTarget).map Person.id

/-- The part of `tick` behind the switch of the target. -/
def proceed (g : Greet) (persons : List (Person V)) (head : Option V) (tracked : Bool)
    (msgs : List TerminalCmd) : Option (Greet × List (Command V)) :=
  let (g, terminal) := g.terminalCmds msgs
  (g.dialogue persons head tracked).map fun (g, spoken) ↦
    let looks :=
      if g.headTracking && g.counter % headTrackingFrequency = 0 && tracked then
        (head.map Command.lookAt).toList
      else []
    ({ g with counter := g.counter + 1 }, terminal ++ spoken ++ looks)

/-- `tick`. It always returns `false`, unless it fails. -/
def tick (g : Greet) (persons : List (Person V)) (msgs : List TerminalCmd) :
    Option (Greet × List (Command V)) :=
  let (g, head, tracked) := persons.foldl lookFor (g, none, false)
  if g.greetInProgress then g.proceed persons head tracked msgs
  else
    match if g.personSwitchTimer > headTrackingSwitchFrequency * 3 then
      (g.otherTargets persons).head? else none with
    | some target => some ({ g with currentTarget := target, personSwitchTimer := 0 }, [])
    | none =>
      { g with personSwitchTimer := g.personSwitchTimer + 1 }.proceed persons head tracked msgs

/-- What happens to the state while it is the current one. -/
inductive Op (V : Type u)
  | tick (persons : List (Person V)) (msgs : List TerminalCmd)
  | confirm

/-- What the state does then, and what it tells the robot. -/
def step (g : Greet) : Op V → Option (Greet × List (Command V))
  | .tick persons msgs => g.tick persons msgs
  | .confirm => some (g.confirm, [])

/-- A visit of the state, from `enter` on. -/
def visit (g : Greet) (ops : List (Op V)) : Option (Greet × List (Command V)) :=
  ops.foldlM (fun st op ↦ (st.1.step op).map fun next ↦ (next.1, st.2 ++ next.2)) g.enter

theorem sprintf_eq {text buffer : String} (h : sprintf text = some buffer) : buffer = text := by
  rw [sprintf] at h
  split_ifs at h
  exact (Option.some.inj h).symm

/-! ### Dialogues -/

/-- What belongs to a dialogue: what is said, and that a face is learned. -/
inductive Line
  | startLearn (id : UInt32)
  | say (text : String)
  deriving DecidableEq

/-- The lines among the commands. -/
def script (cmds : List (Command V)) : List Line :=
  cmds.filterMap fun
    | .startLearn id => some (.startLearn id)
    | .say text => some (.say text)
    | _ => none

/-- How a dialogue begins. The operator may go on before the robot says hello; then no face is
learned. -/
def opening (hello : Bool) (target : UInt32) : List Line :=
  if hello then [.startLearn target, .say l10nHello] else []

/-- A dialogue that is finished. -/
structure Dialogue where
  /-- The person that is greeted. -/
  target : UInt32
  /-- Whether the first sentence was said. -/
  hello : Bool
  /-- The name in the last sentence. -/
  name : String

/-- The lines of a dialogue. -/
def Dialogue.lines (d : Dialogue) : List Line :=
  opening d.hello d.target ++ [.say l10nMyName, .say l10nYourName, .say (l10nNiceToMeet d.name)]

/-- What has been said of the dialogue in progress. -/
inductive Saying (g : Greet) : List Line → Prop
  | idle (h : g.greetInProgress = false) : Saying g []
  | approaching (h : g.greetInProgress = true) (hc : g.confirmCounter = 0)
    (hcounter : g.counter ≤ 120) : Saying g []
  | learning (h : g.greetInProgress = true) (hc : g.confirmCounter = 0)
    (hcounter : 120 < g.counter) : Saying g (opening true g.currentTarget)
  | introduced (hello : Bool) (h : g.greetInProgress = true) (hc : g.confirmCounter = 1) :
    Saying g (opening hello g.currentTarget ++ [.say l10nMyName])
  | asked (hello : Bool) (h : g.greetInProgress = true) (hc : g.confirmCounter = 2) :
    Saying g (opening hello g.currentTarget ++ [.say l10nMyName, .say l10nYourName])

/-- A person of the id has been in view without a name. -/
def Met (ops : List (Op V)) (id : UInt32) : Prop :=
  ∃ persons msgs, Op.tick persons msgs ∈ ops ∧
    ∃ p ∈ persons, p.id = id ∧ p.tracked = true ∧ p.name = ""

/-- The confirmations that a state has used up or is still to use. -/
def spent (g : Greet) : ℕ :=
  (if g.greetInProgress then 1 + g.confirmCounter else 0) + if g.confirmFlag then 1 else 0

/-- The confirmations of the operator. -/
def confirmations (ops : List (Op V)) : ℕ :=
  ops.countP fun
    | .confirm => true
    | .tick _ _ => false

/-- **The lines of a visit** are finished dialogues with persons that were not greeted before, and
what has been said of the one in progress. Three confirmations were spent on each that is
finished. -/
structure Telling (before : List UInt32) (ops : List (Op V)) (g : Greet) (lines : List Line)
    (finished : List Dialogue) (rest : List Line) : Prop where
  /-- What was said is the finished dialogues, and the beginning of another one. -/
  lines_eq : lines = finished.flatMap Dialogue.lines ++ rest
  /-- That one is in progress. -/
  saying : Saying g rest
  /-- The state remembers the finished ones. -/
  greeted_eq : g.alreadyGreetedIds = before ++ finished.map Dialogue.target
  /-- They are with different persons. -/
  nodup : (finished.map Dialogue.target).Nodup
  /-- Nobody was greeted before, and everybody was seen without a name. -/
  notMem : ∀ d ∈ finished, d.target ∉ before ∧ Met ops d.target
  /-- So it is with the person that is greeted now. -/
  current : g.greetInProgress = true → g.currentTarget ∉ g.alreadyGreetedIds ∧
    Met ops g.currentTarget
  /-- Confirmations were spent on each of them. -/
  confirmed : 3 * finished.length + g.spent ≤ confirmations ops

variable {before : List UInt32} {ops ops' : List (Op V)} {g g' : Greet} {lines rest : List Line}
  {finished : List Dialogue} {cmds : List (Command V)}

@[simp] theorem script_append (cmds cmds' : List (Command V)) :
    script (cmds ++ cmds') = script cmds ++ script cmds' := List.filterMap_append

theorem Met.mono {id : UInt32} (h : Met ops id) (hsub : ops ⊆ ops') : Met ops' id := by
  obtain ⟨persons, msgs, hop, hp⟩ := h
  exact ⟨persons, msgs, hsub hop, hp⟩

/-- Between two dialogues nothing has been said. -/
theorem Saying.eq_nil (h : Saying g rest) (hidle : g.greetInProgress = false) : rest = [] := by
  cases h with
  | idle => rfl
  | approaching => rfl
  | learning h => exact absurd (h.symm.trans hidle) nofun
  | introduced hello h => exact absurd (h.symm.trans hidle) nofun
  | asked hello h => exact absurd (h.symm.trans hidle) nofun

/-! ### What a dialogue does not look at -/

/-- Two states agree on what belongs to the dialogue. -/
structure Agrees (g g' : Greet) : Prop where
  counter : g'.counter = g.counter
  confirmCounter : g'.confirmCounter = g.confirmCounter
  confirmFlag : g'.confirmFlag = g.confirmFlag
  greetInProgress : g'.greetInProgress = g.greetInProgress
  currentTarget : g'.currentTarget = g.currentTarget
  alreadyGreetedIds : g'.alreadyGreetedIds = g.alreadyGreetedIds

theorem Agrees.saying (h : Agrees g g') (hs : Saying g rest) : Saying g' rest := by
  cases hs with
  | idle hg => exact .idle (h.greetInProgress.trans hg)
  | approaching hg hc hcounter =>
    exact .approaching (h.greetInProgress.trans hg) (h.confirmCounter.trans hc)
      (h.counter.trans_le hcounter)
  | learning hg hc hcounter =>
    rw [← h.currentTarget]
    exact .learning (h.greetInProgress.trans hg) (h.confirmCounter.trans hc)
      (hcounter.trans_eq h.counter.symm)
  | introduced hello hg hc =>
    rw [← h.currentTarget]
    exact .introduced hello (h.greetInProgress.trans hg) (h.confirmCounter.trans hc)
  | asked hello hg hc =>
    rw [← h.currentTarget]
    exact .asked hello (h.greetInProgress.trans hg) (h.confirmCounter.trans hc)

theorem Agrees.telling (h : Agrees g g') (ht : Telling before ops g lines finished rest) :
    Telling before ops g' lines finished rest where
  lines_eq := ht.lines_eq
  saying := h.saying ht.saying
  greeted_eq := h.alreadyGreetedIds.trans ht.greeted_eq
  nodup := ht.nodup
  notMem := ht.notMem
  current hg := by
    rw [h.currentTarget, h.alreadyGreetedIds]
    exact ht.current (h.greetInProgress.symm.trans hg)
  confirmed := by
    rw [spent, h.greetInProgress, h.confirmCounter, h.confirmFlag]
    exact ht.confirmed

/-- Terminal commands say nothing. -/
theorem terminalCmd_spec (g : Greet) (msg : TerminalCmd) :
    Agrees g (terminalCmd (V := V) g msg).1 ∧ script (terminalCmd (V := V) g msg).2 = [] := by
  simp only [terminalCmd]
  split_ifs
  all_goals exact ⟨⟨rfl, rfl, rfl, rfl, rfl, rfl⟩, rfl⟩

theorem Agrees.trans {g'' : Greet} (h : Agrees g g') (h' : Agrees g' g'') : Agrees g g'' where
  counter := h'.counter.trans h.counter
  confirmCounter := h'.confirmCounter.trans h.confirmCounter
  confirmFlag := h'.confirmFlag.trans h.confirmFlag
  greetInProgress := h'.greetInProgress.trans h.greetInProgress
  currentTarget := h'.currentTarget.trans h.currentTarget
  alreadyGreetedIds := h'.alreadyGreetedIds.trans h.alreadyGreetedIds

theorem terminalCmds_spec (g : Greet) (msgs : List TerminalCmd) :
    Agrees g (terminalCmds (V := V) g msgs).1 ∧ script (terminalCmds (V := V) g msgs).2 = [] := by
  induction msgs using List.reverseRecOn with
  | nil => exact ⟨⟨rfl, rfl, rfl, rfl, rfl, rfl⟩, rfl⟩
  | append_singleton msgs msg ih =>
    obtain ⟨hagrees, hscript⟩ := terminalCmd_spec (V := V) (terminalCmds (V := V) g msgs).1 msg
    rw [terminalCmds, List.foldl_append]
    refine ⟨ih.1.trans hagrees, ?_⟩
    show script
      ((terminalCmds g msgs).2 ++ (terminalCmd (terminalCmds (V := V) g msgs).1 msg).2) = []
    rw [script_append, hscript, List.append_nil]
    exact ih.2

/-! ### How a dialogue starts -/

/-- What the first loop over the persons does: nothing, or it starts a dialogue with one of them. -/
inductive Found (g : Greet) (persons : List (Person V)) : Greet → Prop
  | same : Found g persons g
  | started {p : Person V} (hp : p ∈ persons) (hstarts : g.starts p = true) :
    Found g persons { g with
      greetInProgress := true
      currentTarget := p.id
      counter := 0
      confirmCounter := 0
      confirmFlag := false
      headTracking := true
      newlyLearned := "" }

theorem fst_lookFor (st : Greet × Option V × Bool) (p : Person V) :
    (lookFor st p).1 = if st.1.starts p then
      { st.1 with
        greetInProgress := true
        currentTarget := p.id
        counter := 0
        confirmCounter := 0
        confirmFlag := false
        headTracking := true
        newlyLearned := "" }
      else st.1 := by
  simp only [lookFor]
  split_ifs <;> rfl

theorem found_foldl (g : Greet) (x : Option V × Bool) (persons : List (Person V)) :
    Found g persons (persons.foldl lookFor (g, x)).1 := by
  induction persons using List.reverseRecOn with
  | nil => exact .same
  | append_singleton persons p ih =>
    rw [List.foldl_append, List.foldl_cons, List.foldl_nil, fst_lookFor]
    generalize (persons.foldl lookFor (g, x)).1 = g' at ih ⊢
    cases ih with
    | same =>
      split_ifs with hstarts
      · exact .started (List.mem_append_right _ (List.mem_singleton.2 rfl)) hstarts
      · exact .same
    | started hp hstarts =>
      -- a dialogue is in progress, so no other one starts
      rw [if_neg (by simp [starts])]
      exact .started (List.mem_append_left _ hp) hstarts

theorem starts_iff {p : Person V} : g.starts p = true ↔
    g.confirmFlag = true ∧ g.greetInProgress = false ∧ p.tracked = true ∧ p.name = "" ∧
      p.id ∉ g.alreadyGreetedIds := by
  simp [starts, and_assoc]

theorem Found.telling {persons : List (Person V)} {msgs : List TerminalCmd}
    (h : Found g persons g') (hop : Op.tick persons msgs ∈ ops)
    (ht : Telling before ops g lines finished rest) :
    Telling before ops g' lines finished rest := by
  cases h with
  | same => exact ht
  | @started p hp hstarts =>
    obtain ⟨hflag, hidle, htracked, hname, hid⟩ := starts_iff.1 hstarts
    obtain rfl := ht.saying.eq_nil hidle
    refine ⟨ht.lines_eq, .approaching rfl rfl (Nat.zero_le _), ht.greeted_eq, ht.nodup, ht.notMem,
      fun _ ↦ ⟨hid, persons, msgs, hop, p, hp, rfl, htracked, hname⟩, ?_⟩
    have hconfirmed := ht.confirmed
    rw [spent, hflag, hidle] at hconfirmed
    simpa [spent] using hconfirmed

/-! ### How a dialogue goes on -/

/-- The end of a tick. -/
def count (g : Greet) : Greet := { g with counter := g.counter + 1 }

/-- A dialogue goes on with the same person and more lines. -/
theorem Telling.goOn (ht : Telling before ops g lines finished rest) {said : List Line}
    (hsaying : Saying g' (rest ++ said)) (hg : g.greetInProgress = true)
    (htarget : g'.currentTarget = g.currentTarget)
    (hgreeted : g'.alreadyGreetedIds = g.alreadyGreetedIds) (hspent : g'.spent ≤ g.spent) :
    Telling before ops g' (lines ++ said) finished (rest ++ said) where
  lines_eq := by rw [ht.lines_eq, List.append_assoc]
  saying := hsaying
  greeted_eq := hgreeted.trans ht.greeted_eq
  nodup := ht.nodup
  notMem := ht.notMem
  current _ := by
    rw [htarget, hgreeted]
    exact ht.current hg
  confirmed := (Nat.add_le_add_left hspent _).trans ht.confirmed

/-- The lines before the first answer. -/
theorem script_approach (g : Greet) (head : Option V) (tracked : Bool) :
    script (g.approach head tracked).2 =
      (if g.counter = 120 then opening true g.currentTarget else []) ++
        if g.confirmFlag then [.say l10nMyName] else [] := by
  have hhead : script ((head.map Command.turnTowards).toList) = [] := by cases head <;> rfl
  simp only [approach]
  by_cases hzero : g.counter = 0
  · rw [hzero]
    cases g.confirmFlag <;> simp [script]
  by_cases hfifteen : g.counter = 15
  · rw [hfifteen]
    cases g.confirmFlag <;> cases tracked <;> cases head <;> simp [script]
  by_cases hhello : g.counter = 120
  · rw [hhello]
    cases g.confirmFlag <;> simp [script, opening]
  · cases g.confirmFlag <;> simp [script, hzero, hfifteen, hhello]

/-- Tick 120 says hello, so it has been said from then on. -/
theorem Saying.opening_of_approach (hs : Saying g rest) (hg : g.greetInProgress = true)
    (hc : g.confirmCounter = 0) :
    ∃ hello, rest ++ (if g.counter = 120 then opening true g.currentTarget else []) =
      opening hello g.currentTarget ∧ (hello = true ↔ 120 ≤ g.counter) := by
  cases hs with
  | idle h => exact absurd (h.symm.trans hg) nofun
  | approaching _ _ hcounter =>
    rcases Nat.eq_or_lt_of_le hcounter with heq | hlt
    · exact ⟨true, by rw [if_pos heq, List.nil_append], by simp [heq]⟩
    · exact ⟨false, by rw [if_neg (Nat.ne_of_lt hlt)]; rfl, by simp; omega⟩
  | learning _ _ hcounter =>
    exact ⟨true, by rw [if_neg (Nat.ne_of_gt hcounter), List.append_nil], by simp; omega⟩
  | introduced _ _ h => exact absurd (h.symm.trans hc) nofun
  | asked _ _ h => exact absurd (h.symm.trans hc) nofun

/-- **Before the first answer.** The robot says hello in tick 120, unless the operator has already
confirmed. -/
theorem Telling.approach (ht : Telling before ops g lines finished rest)
    (hg : g.greetInProgress = true) (hc : g.confirmCounter = 0) (head : Option V) (tracked : Bool) :
    ∃ rest', Telling before ops (g.approach head tracked).1.count
      (lines ++ script (g.approach head tracked).2) finished rest' := by
  obtain ⟨hello, hopening, hhello⟩ := ht.saying.opening_of_approach hg hc
  rw [script_approach]
  refine ⟨_, ht.goOn ?_ hg ?_ ?_ ?_⟩
  · rw [← List.append_assoc, hopening]
    cases hflag : g.confirmFlag with
    | true =>
      have hfst : (g.approach head tracked).1.confirmCounter = 1 ∧
          (g.approach head tracked).1.greetInProgress = true ∧
          (g.approach head tracked).1.currentTarget = g.currentTarget := by
        simp [Greet.approach, hflag, hc, hg]
      have hs := Saying.introduced (g := (g.approach head tracked).1.count) hello hfst.2.1 hfst.1
      rw [if_pos rfl]
      rwa [show (g.approach head tracked).1.count.currentTarget = g.currentTarget from hfst.2.2]
        at hs
    | false =>
      have hfst : (g.approach head tracked).1.count.confirmCounter = 0 ∧
          (g.approach head tracked).1.count.greetInProgress = true ∧
          (g.approach head tracked).1.count.currentTarget = g.currentTarget ∧
          (g.approach head tracked).1.count.counter = g.counter + 1 := by
        simp [Greet.approach, count, hflag, hc, hg]
      obtain ⟨hc', hg', htarget', hcounter'⟩ := hfst
      rw [if_neg Bool.false_ne_true, List.append_nil]
      cases hello with
      | true =>
        rw [← htarget']
        exact .learning hg' hc' (by have := hhello.1 rfl; omega)
      | false =>
        refine .approaching hg' hc' ?_
        have hlt : ¬ 120 ≤ g.counter := fun h ↦ Bool.false_ne_true (hhello.2 h)
        omega
  · cases hflag : g.confirmFlag <;> simp [Greet.approach, count, hflag]
  · cases hflag : g.confirmFlag <;> simp [Greet.approach, count, hflag]
  · cases hflag : g.confirmFlag <;> simp [Greet.approach, count, spent, hflag, hc, hg]

/-- **After the name of the robot.** -/
theorem Telling.ask (ht : Telling before ops g lines finished rest)
    (hg : g.greetInProgress = true) (hc : g.confirmCounter = 1) :
    ∃ rest', Telling before ops (Greet.ask (V := V) g).1.count
      (lines ++ script (Greet.ask (V := V) g).2) finished rest' := by
  have hs := ht.saying
  cases hs with
  | idle h => exact absurd (h.symm.trans hg) nofun
  | approaching _ h => exact absurd (h.symm.trans hc) nofun
  | learning _ h => exact absurd (h.symm.trans hc) nofun
  | asked _ _ h => exact absurd (h.symm.trans hc) nofun
  | introduced hello =>
    cases hflag : g.confirmFlag with
    | true =>
      have hask : Greet.ask (V := V) g = ({ g with
          headTracking := false
          confirmFlag := false
          confirmCounter := g.confirmCounter + 1
          counter := 0 }, [.handshakeDown, .say l10nYourName]) := by rw [Greet.ask, if_pos hflag]
      rw [hask]
      refine ⟨_, ht.goOn ?_ hg rfl rfl ?_⟩
      · rw [List.append_assoc]
        exact .asked hello hg (congrArg (· + 1) hc)
      · simp [spent, count, hg, hflag, Nat.add_assoc]
    | false =>
      have hagrees : Agrees g (Greet.ask (V := V) g).1 ∧ (Greet.ask (V := V) g).2 = [] := by
        rw [Greet.ask, if_neg (by rw [hflag]; exact Bool.false_ne_true)]
        split_ifs
        all_goals exact ⟨⟨rfl, rfl, rfl, rfl, rfl, rfl⟩, rfl⟩
      rw [hagrees.2]
      have ht' := hagrees.1.telling ht
      refine ⟨_, ht'.goOn ?_ (hagrees.1.greetInProgress.trans hg) rfl rfl le_rfl⟩
      rw [show script ([] : List (Command V)) = [] from rfl, List.append_nil,
        ← hagrees.1.currentTarget]
      exact .introduced hello (hagrees.1.greetInProgress.trans hg)
        (hagrees.1.confirmCounter.trans hc)

/-- The dialogue is finished, and its person is one of those that were greeted. -/
theorem Telling.finish {hello : Bool}
    (ht : Telling before ops g lines finished
      (opening hello g.currentTarget ++ [.say l10nMyName, .say l10nYourName]))
    (hg : g.greetInProgress = true) (hc : g.confirmCounter = 2) :
    Telling before ops g.finish.count (lines ++ [.say (l10nNiceToMeet g.newlyLearned)])
      (finished ++ [⟨g.currentTarget, hello, g.newlyLearned⟩]) [] := by
  obtain ⟨hnew, hmet⟩ := ht.current hg
  have hgreeted : g.finish.count.alreadyGreetedIds = g.alreadyGreetedIds ++ [g.currentTarget] :=
    if_neg hnew
  rw [ht.greeted_eq, List.mem_append, not_or] at hnew
  refine ⟨?_, .idle rfl, ?_, ?_, fun d hd ↦ ?_, fun h ↦ absurd h nofun, ?_⟩
  · rw [ht.lines_eq, List.flatMap_append, List.flatMap_singleton, List.append_nil,
      List.append_assoc, List.append_assoc]
    rfl
  · rw [hgreeted, ht.greeted_eq, List.map_append, List.append_assoc]
    rfl
  · rw [List.map_append, List.nodup_append]
    refine ⟨ht.nodup, List.nodup_singleton _, fun i hi j hj hij ↦ hnew.2 ?_⟩
    obtain rfl : j = g.currentTarget := List.mem_singleton.1 hj
    exact hij ▸ hi
  · rcases List.mem_append.1 hd with hd | hd
    · exact ht.notMem d hd
    · rw [List.mem_singleton.1 hd]
      exact ⟨hnew.1, hmet⟩
  · have hconfirmed := ht.confirmed
    simp only [spent, hg, hc, if_true] at hconfirmed
    simp only [List.length_append, List.length_singleton, spent, count, Greet.finish,
      Bool.false_eq_true, if_false]
    omega

/-- **After the question**, until the name is learned or the operator goes on. -/
theorem Telling.thank (ht : Telling before ops g lines finished rest)
    (hg : g.greetInProgress = true) (hc : g.confirmCounter = 2) {persons : List (Person V)}
    (h : g.thank persons = some (g', cmds)) :
    ∃ finished' rest', Telling before ops g'.count (lines ++ script cmds) finished' rest' := by
  have hs := ht.saying
  cases hs with
  | idle h => exact absurd (h.symm.trans hg) nofun
  | approaching _ h => exact absurd (h.symm.trans hc) nofun
  | learning _ h => exact absurd (h.symm.trans hc) nofun
  | introduced _ _ h => exact absurd (h.symm.trans hc) nofun
  | asked hello =>
    simp only [Greet.thank] at h
    split_ifs at h with hends
    · obtain ⟨buffer, hbuffer, heq⟩ := Option.map_eq_some_iff.1 h
      obtain ⟨rfl, rfl⟩ := Prod.mk.inj heq
      obtain rfl := sprintf_eq hbuffer
      exact ⟨_, [], ht.finish hg hc⟩
    · obtain ⟨rfl, rfl⟩ := Prod.mk.inj (Option.some.inj h)
      refine ⟨finished, _, ht.goOn ?_ hg rfl rfl le_rfl⟩
      rw [show script ([] : List (Command V)) = [] from rfl, List.append_nil]
      exact .asked hello hg hc

/-- **The part of a tick for the dialogue.** -/
theorem Telling.dialogue (ht : Telling before ops g lines finished rest)
    {persons : List (Person V)} {head : Option V} {tracked : Bool}
    (h : g.dialogue persons head tracked = some (g', cmds)) :
    ∃ finished' rest', Telling before ops g'.count (lines ++ script cmds) finished' rest' := by
  simp only [Greet.dialogue] at h
  cases hg : g.greetInProgress with
  | false =>
    rw [hg, if_neg Bool.false_ne_true] at h
    obtain ⟨rfl, rfl⟩ := Prod.mk.inj (Option.some.inj h)
    obtain rfl := ht.saying.eq_nil hg
    refine ⟨finished, [], ?_, .idle hg, ht.greeted_eq, ht.nodup, ht.notMem,
      fun h ↦ absurd (h.symm.trans hg) nofun, ht.confirmed⟩
    rw [show script ([] : List (Command V)) = [] from rfl, List.append_nil]
    exact ht.lines_eq
  | true =>
    rw [hg, if_pos rfl] at h
    have hstage : g.confirmCounter = 0 ∨ g.confirmCounter = 1 ∨ g.confirmCounter = 2 := by
      have hs := ht.saying
      cases hs with
      | idle h => exact absurd (h.symm.trans hg) nofun
      | approaching _ h => exact Or.inl h
      | learning _ h => exact Or.inl h
      | introduced _ _ h => exact Or.inr (Or.inl h)
      | asked _ _ h => exact Or.inr (Or.inr h)
    rcases hstage with hc | hc | hc
    · rw [hc] at h
      obtain ⟨rfl, rfl⟩ := Prod.mk.inj (Option.some.inj h)
      exact ⟨finished, ht.approach hg hc head tracked⟩
    · rw [hc] at h
      obtain ⟨rfl, rfl⟩ := Prod.mk.inj (Option.some.inj h)
      exact ⟨finished, ht.ask hg hc⟩
    · rw [hc] at h
      exact ht.thank hg hc h

/-! ### Visits -/

theorem script_looks (head : Option V) :
    script ((head.map Command.lookAt).toList) = [] := by
  cases head <;> rfl

theorem Telling.proceed (ht : Telling before ops g lines finished rest)
    {persons : List (Person V)} {head : Option V} {tracked : Bool} {msgs : List TerminalCmd}
    (h : g.proceed persons head tracked msgs = some (g', cmds)) :
    ∃ finished' rest', Telling before ops g' (lines ++ script cmds) finished' rest' := by
  obtain ⟨hagrees, hterminal⟩ := terminalCmds_spec (V := V) g msgs
  rw [Greet.proceed] at h
  generalize g.terminalCmds (V := V) msgs = typed at hagrees hterminal h
  obtain ⟨⟨g'', spoken⟩, hspoken, heq⟩ := Option.map_eq_some_iff.1 h
  obtain ⟨rfl, rfl⟩ := Prod.mk.inj heq
  obtain ⟨finished', rest', hdialogue⟩ := (hagrees.telling ht).dialogue hspoken
  refine ⟨finished', rest', ?_⟩
  simp only [script_append, hterminal, List.nil_append]
  split_ifs
  · rw [script_looks, List.append_nil]
    exact hdialogue
  · rw [show script ([] : List (Command V)) = [] from rfl, List.append_nil]
    exact hdialogue

theorem Telling.tick {persons : List (Person V)} {msgs : List TerminalCmd}
    (hop : Op.tick persons msgs ∈ ops) (ht : Telling before ops g lines finished rest)
    (h : g.tick persons msgs = some (g', cmds)) :
    ∃ finished' rest', Telling before ops g' (lines ++ script cmds) finished' rest' := by
  have hfound := (found_foldl g (none, false) persons).telling hop ht
  simp only [Greet.tick] at h
  generalize persons.foldl lookFor (g, none, false) = st at hfound h
  obtain ⟨looked, head, tracked⟩ := st
  simp only at hfound h
  have htimer : Agrees looked { looked with personSwitchTimer := looked.personSwitchTimer + 1 } :=
    ⟨rfl, rfl, rfl, rfl, rfl, rfl⟩
  by_cases hprogress : looked.greetInProgress = true
  · rw [if_pos hprogress] at h
    exact hfound.proceed h
  · have hg : looked.greetInProgress = false := Bool.eq_false_iff.2 hprogress
    rw [if_neg hprogress] at h
    split at h
    · -- the target changes between two dialogues only
      obtain ⟨rfl, rfl⟩ := Prod.mk.inj (Option.some.inj h)
      obtain rfl := hfound.saying.eq_nil hg
      refine ⟨finished, [], ?_, .idle hg, hfound.greeted_eq, hfound.nodup, hfound.notMem,
        fun h ↦ absurd (h.symm.trans hg) nofun, hfound.confirmed⟩
      rw [show script ([] : List (Command V)) = [] from rfl, List.append_nil]
      exact hfound.lines_eq
    · exact (htimer.telling hfound).proceed h

/-- **One step.** -/
theorem Telling.step (ht : Telling before ops g lines finished rest) {op : Op V}
    (h : g.step op = some (g', cmds)) :
    ∃ finished' rest', Telling before (ops ++ [op]) g' (lines ++ script cmds) finished' rest' := by
  have hmono : ∀ {id}, Met ops id → Met (ops ++ [op]) id := fun h ↦
    h.mono (List.subset_append_left ops [op])
  cases op with
  | tick persons msgs =>
    have ht' : Telling before (ops ++ [.tick persons msgs]) g lines finished rest := by
      refine ⟨ht.lines_eq, ht.saying, ht.greeted_eq, ht.nodup,
        fun d hd ↦ (ht.notMem d hd).imp_right hmono, fun h ↦ (ht.current h).imp_right hmono, ?_⟩
      rw [confirmations, List.countP_append]
      exact ht.confirmed.trans (Nat.le_add_right _ _)
    exact ht'.tick (List.mem_append_right _ (List.mem_singleton.2 rfl)) h
  | confirm =>
    obtain ⟨rfl, rfl⟩ := Prod.mk.inj (Option.some.inj h)
    refine ⟨finished, rest, ?_, ?_, ht.greeted_eq, ht.nodup,
      fun d hd ↦ (ht.notMem d hd).imp_right hmono, fun h ↦ (ht.current h).imp_right hmono, ?_⟩
    · rw [show script ([] : List (Command V)) = [] from rfl, List.append_nil]
      exact ht.lines_eq
    · cases ht.saying with
      | idle h => exact .idle h
      | approaching h hc hcounter => exact .approaching h hc hcounter
      | learning h hc hcounter => exact .learning h hc hcounter
      | introduced hello h hc => exact .introduced hello h hc
      | asked hello h hc => exact .asked hello h hc
    · have hconfirmed := ht.confirmed
      have hone : confirmations (ops ++ [.confirm]) = confirmations ops + 1 := by
        rw [confirmations, List.countP_append]
        rfl
      have hspent : g.confirm.spent ≤ g.spent + 1 := by
        cases hg : g.greetInProgress <;> cases hflag : g.confirmFlag <;>
          simp [spent, confirm, hg, hflag]
      omega

/-! ### Names that fit -/

/-- The name fits into the buffer with the rest of the sentence. -/
def NameFits (name : String) : Prop := name.utf8ByteSize ≤ 110

theorem sprintf_of_nameFits {name : String} (h : NameFits name) :
    sprintf (l10nNiceToMeet name) = some (l10nNiceToMeet name) := by
  have hprefix : "Nice to meet you ".utf8ByteSize = 17 := by decide
  have hsize : (l10nNiceToMeet name).utf8ByteSize = 17 + name.utf8ByteSize :=
    (String.utf8ByteSize_append ..).trans (congrArg (· + name.utf8ByteSize) hprefix)
  exact if_pos (hsize ▸ Nat.lt_of_le_of_lt (Nat.add_le_add_left h 17) (by decide))

/-- A name that is typed while the state is the current one fits. -/
def Op.Fits : Op V → Prop
  | .tick _ msgs => ∀ msg ∈ msgs, msg.cmdType = "learn" → NameFits msg.param
  | .confirm => True

/-- In a dialogue the name that was learned last fits. -/
def Short (g : Greet) : Prop := g.greetInProgress = true → NameFits g.newlyLearned

instance : DecidablePred (Op.Fits (V := V))
  | .tick _ msgs => inferInstanceAs (Decidable (∀ msg ∈ msgs, msg.cmdType = "learn" →
      msg.param.utf8ByteSize ≤ 110))
  | .confirm => .isTrue trivial

/-- A dialogue starts without a name. -/
theorem Found.short {persons : List (Person V)} (hfound : Found g persons g') (h : g.Short) :
    g'.Short := by
  cases hfound with
  | same => exact h
  | started => exact fun _ ↦ Nat.zero_le _

theorem Short.terminalCmds {msgs : List TerminalCmd} (h : g.Short)
    (hfits : ∀ msg ∈ msgs, msg.cmdType = "learn" → NameFits msg.param) :
    (g.terminalCmds (V := V) msgs).1.Short := by
  induction msgs using List.reverseRecOn with
  | nil => exact h
  | append_singleton msgs msg ih =>
    have hbefore := ih fun msg' hmem ↦ hfits msg' (List.mem_append_left _ hmem)
    rw [Greet.terminalCmds, List.foldl_append]
    show (terminalCmd (V := V) (Greet.terminalCmds (V := V) g msgs).1 msg).1.Short
    simp only [terminalCmd]
    split_ifs with hsr hrecording hlearn
    · exact hbefore
    · exact hbefore
    · exact fun _ ↦ hfits msg (List.mem_append_right _ (List.mem_singleton.2 rfl)) hlearn
    · exact hbefore

/-- A sentence with a name that fits is written. -/
theorem Short.dialogue (h : g.Short) (persons : List (Person V)) (head : Option V)
    (tracked : Bool) :
    ∃ next, g.dialogue persons head tracked = some next ∧ next.1.count.Short := by
  simp only [Greet.dialogue]
  split_ifs with hg
  · split
    · refine ⟨_, rfl, fun _ ↦ ?_⟩
      have hname : (g.approach head tracked).1.newlyLearned = g.newlyLearned := by
        simp only [approach]
        split_ifs <;> rfl
      exact hname ▸ h hg
    · refine ⟨_, rfl, fun _ ↦ ?_⟩
      have hname : (g.ask (V := V)).1.newlyLearned = g.newlyLearned := by
        simp only [ask]
        split_ifs <;> rfl
      exact hname ▸ h hg
    · simp only [thank]
      split_ifs
      · rw [sprintf_of_nameFits (h hg)]
        exact ⟨_, rfl, fun hfinish ↦ absurd hfinish Bool.false_ne_true⟩
      · exact ⟨_, rfl, h⟩
    · exact ⟨_, rfl, h⟩
  · exact ⟨_, rfl, h⟩

theorem Short.proceed (h : g.Short) (persons : List (Person V)) (head : Option V)
    (tracked : Bool) {msgs : List TerminalCmd}
    (hfits : ∀ msg ∈ msgs, msg.cmdType = "learn" → NameFits msg.param) :
    ∃ next, g.proceed persons head tracked msgs = some next ∧ next.1.Short := by
  obtain ⟨next, hnext, hshort⟩ :=
    (h.terminalCmds (V := V) hfits).dialogue persons head tracked
  simp only [Greet.proceed, hnext, Option.map_some]
  exact ⟨_, rfl, hshort⟩

/-- **No step fails** while the names that are typed fit. -/
theorem Short.step (h : g.Short) {op : Op V} (hfits : op.Fits) :
    ∃ next, g.step op = some next ∧ next.1.Short := by
  cases op with
  | confirm => exact ⟨_, rfl, h⟩
  | tick persons msgs =>
    have hfound := (found_foldl g (none, false) persons).short h
    show ∃ next, g.tick persons msgs = some next ∧ next.1.Short
    simp only [Greet.tick]
    generalize persons.foldl lookFor (g, none, false) = st at hfound ⊢
    obtain ⟨looked, head, tracked⟩ := st
    simp only at hfound ⊢
    have hswitched : Short { looked with personSwitchTimer := looked.personSwitchTimer + 1 } :=
      hfound
    by_cases hprogress : looked.greetInProgress = true
    · rw [if_pos hprogress]
      exact hfound.proceed persons head tracked hfits
    · rw [if_neg hprogress]
      split
      · exact ⟨_, rfl, hfound⟩
      · exact hswitched.proceed persons head tracked hfits

/-- **A visit of the state.** Whatever persons come and go, and whatever names that fit are typed,
the visit goes on, and the robot leads its dialogues one after the other, each with another person
that it has met without a name and never greeted before; it remembers exactly those it has finished.
The operator has confirmed each of them three times. -/
theorem greet_visit (g : Greet) (ops : List (Op V)) (hfits : ∀ op ∈ ops, op.Fits) :
    ∃ g' cmds finished rest, g.visit ops = some (g', cmds) ∧
      Telling g.alreadyGreetedIds ops g' (script cmds) finished rest := by
  suffices hall : ∃ g' cmds, g.visit ops = some (g', cmds) ∧ g'.Short ∧
      ∃ finished rest, Telling g.alreadyGreetedIds ops g' (script cmds) finished rest by
    obtain ⟨g', cmds, hvisit, -, finished, rest, ht⟩ := hall
    exact ⟨g', cmds, finished, rest, hvisit, ht⟩
  induction ops using List.reverseRecOn with
  | nil =>
    refine ⟨_, _, rfl, fun h ↦ absurd h Bool.false_ne_true, [], [], ?_⟩
    exact ⟨rfl, .idle rfl, (List.append_nil _).symm, List.nodup_nil,
      fun _ h ↦ absurd h List.not_mem_nil, fun h ↦ absurd h Bool.false_ne_true, Nat.zero_le _⟩
  | append_singleton ops op ih =>
    obtain ⟨g', cmds, hvisit, hshort, finished, rest, ht⟩ :=
      ih fun op' hop ↦ hfits op' (List.mem_append_left _ hop)
    obtain ⟨⟨g'', said⟩, hstep, hshort'⟩ :=
      hshort.step (hfits op (List.mem_append_right _ (List.mem_singleton.2 rfl)))
    obtain ⟨finished', rest', ht'⟩ := ht.step hstep
    refine ⟨g'', cmds ++ said, ?_, hshort', finished', rest', ?_⟩
    · rw [visit] at hvisit ⊢
      rw [List.foldlM_append, hvisit]
      simp [hstep]
    · rw [script_append]
      exact ht'

/-- A visit that greets the person 7 and takes down a name. -/
def oneVisit : List (Op Unit) :=
  [.confirm, .tick [⟨7, true, "", ()⟩] [], .confirm, .tick [⟨7, true, "", ()⟩] [], .confirm] ++
    List.replicate 32 (.tick [⟨7, true, "", ()⟩] [⟨"learn", "Anne", ""⟩]) ++
    [.confirm, .tick [⟨7, true, "", ()⟩] []]

/-- The state before its first visit. -/
def idle : Greet := ⟨0, 0, false, false, false, "", 0, [], false, 0⟩

theorem greet_visit_oneVisit :
    ∃ g' cmds finished rest, idle.visit oneVisit = some (g', cmds) ∧
      Telling idle.alreadyGreetedIds oneVisit g' (script cmds) finished rest ∧
      g'.alreadyGreetedIds = [7] := by
  have hfits : ∀ op ∈ oneVisit, op.Fits := by decide +kernel
  obtain ⟨g', cmds, finished, rest, hvisit, ht⟩ := greet_visit idle oneVisit hfits
  have hids : (idle.visit oneVisit).map (·.1.alreadyGreetedIds) = some [7] := by decide +kernel
  obtain ⟨_, hsome, hgreeted⟩ := Option.map_eq_some_iff.1 hids
  obtain rfl := Option.some.inj (hsome.symm.trans hvisit)
  exact ⟨g', cmds, finished, rest, hvisit, ht, hgreeted⟩

end Greet

end Executor
