import R2DTU.Executor.Calibration
import R2DTU.Executor.Greet
import R2DTU.Reasoning.Views

/-!
# The executor

`FBT1` has four states in a row and is in one of them. The operator goes to the next one or back, or
confirms; a tick of a state may go to the next one as well. Going to another state leaves the one
before and enters the other, and an index that is not there is ignored: from the first state there
is no way back, although the index wraps around.

A state is an object that lives as long as the executor, so what it remembers from one visit is
there in the next. `Greeted` is what this comes to for `Greet`: in a whole session the visits of the
state finish dialogues with different persons, whatever the operator does in between
(`session_greetings`). A dialogue that a visit breaks off is not taken up again, and its person may
be greeted later.

Every call of a state is an event, with what the state tells the robot. What `Observing` tells it is
an input here, and so are the random animations. Drawing the names of persons and the timer of the
speech recognition, which is never set, are left out.
-/

namespace Executor

open WorldModel (World SetOrder PerceptsMsg)

universe u

variable {V : Type u} {order : SetOrder}

/-- `Waiting`: the ticks since it was entered, which are an `int` in the source, and whether the
operator has confirmed. -/
structure Waiting where
  /-- The ticks since it was entered. -/
  counter : ℕ
  /-- The operator has confirmed. -/
  done : Bool

namespace Waiting

/-- `WAITING_ANIMATE_FREQUENCY`: the ticks between two animations. -/
def animateFrequency : ℕ := 30 * 30

/-- `enter`: the robot waits and breathes. -/
def enter : Waiting × List (Command V) := (⟨0, false⟩, [.toggleBreathing true])

/-- `confirm`: the operator has had enough of waiting. -/
def confirm (w : Waiting) : Waiting := { w with done := true }

/-- `tick`, with the animation that is drawn. The last part is what it returns. -/
def tick (w : Waiting) (animation : String) : Waiting × List (Command V) × Bool :=
  ({ w with counter := w.counter + 1 },
    if (w.counter + 1) % animateFrequency = 0 then [.playAnimation animation] else [], w.done)

end Waiting

/-- The states, in their order. -/
inductive StateId
  | calibration
  | waiting
  | greet
  | observing
  deriving DecidableEq

/-- `states`: the four states in the order in which the operator goes through them. -/
def states : List StateId := [.calibration, .waiting, .greet, .observing]

/-- `current_state` of the state. -/
def StateId.index : StateId → UInt32
  | .calibration => 0
  | .waiting => 1
  | .greet => 2
  | .observing => 3

/-- `StateCmdMsg`: what the operator commands. -/
inductive StateCmd
  | next
  | back
  | confirm

/-- What happens between two ticks, and what the states see in a tick. -/
structure Input (V : Type u) where
  /-- What the operator has commanded. -/
  stateCmds : List StateCmd
  /-- What the world is going to read. -/
  pending : List PerceptsMsg
  /-- The persons that states see. -/
  persons : List (Person V)
  /-- What comes from the terminal. -/
  terminalCmds : List TerminalCmd
  /-- The animation that is drawn next. -/
  animation : String
  /-- What `Observing` tells the robot, which is not looked into here. -/
  observed : List (Command V)

/-- The calls of a state. -/
inductive Call (V : Type u)
  | enter
  | leave
  | confirm
  | tick (persons : List (Person V)) (msgs : List TerminalCmd)

/-- A call of a state, and what the state told the robot for it. -/
structure Event (V : Type u) where
  /-- The state that was called. -/
  state : StateId
  call : Call V
  /-- What it told the robot. -/
  commands : List (Command V)

/-- `FBT1`: the world, what the first three states keep, and which state is the current one. -/
structure Fbt1 where
  /-- The world that all states read. -/
  world : World
  calibration : Calibration
  waiting : Waiting
  greet : Greet
  /-- The current state. -/
  state : StateId

namespace Fbt1

/-- `state->leave(robot)`. -/
def leave (f : Fbt1) : Fbt1 × Event V :=
  match f.state with
  | .calibration => (f, ⟨.calibration, .leave, []⟩)
  | .waiting => (f, ⟨.waiting, .leave, []⟩)
  | .greet => (f, ⟨.greet, .leave, Greet.leave⟩)
  | .observing => ({ f with world := f.world.clear }, ⟨.observing, .leave, []⟩)

/-- `state->enter(robot)`. -/
def enter (f : Fbt1) : Fbt1 × Event V :=
  match f.state with
  | .calibration =>
    ({ f with calibration := (f.calibration.enter (V := V)).1 },
      ⟨.calibration, .enter, f.calibration.enter.2⟩)
  | .waiting =>
    ({ f with waiting := (Waiting.enter (V := V)).1 }, ⟨.waiting, .enter, Waiting.enter.2⟩)
  | .greet => ({ f with greet := (f.greet.enter (V := V)).1 }, ⟨.greet, .enter, f.greet.enter.2⟩)
  | .observing =>
    ({ f with world := f.world.clear }, ⟨.observing, .enter, [.toggleBreathing true]⟩)

/-- `state->confirm()`. -/
def confirm (f : Fbt1) : Fbt1 × Event V :=
  match f.state with
  | .waiting => ({ f with waiting := f.waiting.confirm }, ⟨.waiting, .confirm, []⟩)
  | .greet => ({ f with greet := f.greet.confirm }, ⟨.greet, .confirm, []⟩)
  | k => (f, ⟨k, .confirm, []⟩)

/-- `state->tick(robot)`. The last part is what it returns. A tick of `Greet` may fail. -/
def tickState (f : Fbt1) (i : Input V) : Option (Fbt1 × Event V × Bool) :=
  match f.state with
  | .calibration =>
    let ticked := f.calibration.tick f.world
    some ({ f with calibration := ticked.state, world := ticked.world },
      ⟨.calibration, .tick i.persons i.terminalCmds, ticked.commands⟩, ticked.leaves)
  | .waiting =>
    let (waiting, commands, done) := f.waiting.tick i.animation
    some ({ f with waiting }, ⟨.waiting, .tick i.persons i.terminalCmds, commands⟩, done)
  | .greet =>
    (f.greet.tick i.persons i.terminalCmds).map fun (greet, commands) ↦
      ({ f with greet }, ⟨.greet, .tick i.persons i.terminalCmds, commands⟩, false)
  | .observing => some (f, ⟨.observing, .tick i.persons i.terminalCmds, i.observed⟩, false)

/-- `goto_state`: the current state is left and another one entered, unless the number is none of a
state. Numbers are unsigned, so the one before the first is out of range, too. -/
def gotoState (f : Fbt1) (s : UInt32) : Fbt1 × List (Event V) :=
  match states[s.toNat]? with
  | none => (f, [])
  | some k =>
    let (left, leaving) := f.leave
    let (entered, entering) := { left with state := k }.enter
    (entered, [leaving, entering])

/-- `state_cmd`: the operator goes on, back, or confirms in the current state. -/
def stateCmd (f : Fbt1) : StateCmd → Fbt1 × List (Event V)
  | .next => f.gotoState (f.state.index + 1)
  | .back => f.gotoState (f.state.index - 1)
  | .confirm => ((f.confirm (V := V)).1, [f.confirm.2])

/-- `sub->tick()`, with the messages it dispatches. -/
def stateCmds (f : Fbt1) (cmds : List StateCmd) : Fbt1 × List (Event V) :=
  cmds.foldl (fun st cmd ↦ ((st.1.stateCmd (V := V) cmd).1, st.2 ++ (st.1.stateCmd cmd).2)) (f, [])

/-- The part of `tick` behind the tick of the world. -/
def advance (f : Fbt1) (i : Input V) : Option (Fbt1 × List (Event V)) :=
  (f.tickState i).map fun (ticked, event, leaves) ↦
    if leaves then
      let (moved, events) := ticked.gotoState (ticked.state.index + 1)
      (moved, event :: events)
    else (ticked, [event])

/-- `tick`. It fails when the world or the state does. -/
def tick (order : SetOrder) (f : Fbt1) (i : Input V) : Option (Fbt1 × List (Event V)) :=
  let (f, events) := f.stateCmds i.stateCmds
  (f.world.tick order i.pending).bind fun world ↦
    ({ f with world }.advance i).map fun (f, new) ↦ (f, events ++ new)

/-- The constructor. Memory that is not initialised is taken as it is. -/
def new (newPercepts greetInProgress : Bool) (currentTarget : UInt32) : Fbt1 × Event V :=
  enter {
    world := World.new newPercepts
    calibration := Calibration.new
    waiting := ⟨0, false⟩
    greet := {
      counter := 0
      confirmCounter := 0
      confirmFlag := false
      headTracking := false
      greetInProgress
      newlyLearned := ""
      currentTarget
      alreadyGreetedIds := []
      recording := false
      personSwitchTimer := 0 }
    state := .calibration }

/-- A session: the executor after its ticks, and the events so far. -/
def session (order : SetOrder) (newPercepts greetInProgress : Bool) (currentTarget : UInt32)
    (inputs : List (Input V)) : Option (Fbt1 × List (Event V)) :=
  inputs.foldlM
    (fun st i ↦ (st.1.tick order i).map fun next ↦ (next.1, st.2 ++ next.2))
    ((new (V := V) newPercepts greetInProgress currentTarget).1,
      [(new newPercepts greetInProgress currentTarget).2])

/-! ### What belongs to the greetings -/

/-- What the event is to the state `Greet` while it is visited. -/
def greetOp (e : Event V) : Option (Greet.Op V) :=
  if e.state = .greet then
    match e.call with
    | .confirm => some .confirm
    | .tick persons msgs => some (.tick persons msgs)
    | _ => none
  else none

/-- The ticks and confirmations of `Greet`, over all visits. -/
def greetOps (events : List (Event V)) : List (Greet.Op V) := events.filterMap greetOp

/-- The lines of `Greet`. -/
def said (events : List (Event V)) : List Greet.Line :=
  events.flatMap fun e ↦ if e.state = .greet then Greet.script e.commands else []

end Fbt1

namespace Greet

/-- A visit: the dialogues it finishes, and the lines of one that it breaks off. -/
structure Visit where
  /-- The dialogues that were finished. -/
  finished : List Dialogue
  /-- The lines of the one that was broken off. -/
  rest : List Line

/-- The lines are the beginning of a dialogue. -/
def BrokenOff (rest : List Line) : Prop := ∃ d : Dialogue, rest <+: d.lines ∧ rest ≠ d.lines

def Visit.lines (v : Visit) : List Line := v.finished.flatMap Dialogue.lines ++ v.rest

/-- **The lines of several visits** are those of one after the other. Together they finish each
dialogue with another person. -/
structure Greeted (ops : List (Op V)) (lines : List Line) (ids : List UInt32)
    (visits : List Visit) : Prop where
  /-- What was said is the lines of the visits. -/
  lines_eq : lines = visits.flatMap Visit.lines
  /-- What a visit leaves unfinished is the beginning of a dialogue. -/
  brokenOff : ∀ v ∈ visits, BrokenOff v.rest
  /-- The state remembers the finished dialogues. -/
  ids_eq : ids = (visits.flatMap Visit.finished).map Dialogue.target
  /-- They are with different persons. -/
  nodup : ids.Nodup
  /-- Everybody was seen without a name. -/
  met : ∀ d ∈ visits.flatMap Visit.finished, Met ops d.target
  /-- Three confirmations were spent on each of them. -/
  confirmed : 3 * (visits.flatMap Visit.finished).length ≤ confirmations ops

/-- A visit is going on, after others. -/
inductive InVisit (ops : List (Op V)) (lines : List Line) (g : Greet) : Prop
  | mk {before now : List (Op V)} {saidBefore saidNow : List Line} {ids : List UInt32}
    {visits : List Visit} {finished : List Dialogue} {rest : List Line}
    (hops : ops = before ++ now) (hlines : lines = saidBefore ++ saidNow)
    (hbefore : Greeted before saidBefore ids visits)
    (hnow : Telling ids now g saidNow finished rest)

variable {ops : List (Op V)} {lines rest : List Line} {g : Greet} {ids : List UInt32}
  {visits : List Visit}

/-- What has been said of a dialogue can be broken off. -/
theorem Saying.brokenOff (h : Saying g rest) : BrokenOff rest := by
  cases h with
  | idle => exact ⟨⟨0, false, ""⟩, List.nil_prefix, nofun⟩
  | approaching => exact ⟨⟨0, false, ""⟩, List.nil_prefix, nofun⟩
  | learning => exact ⟨⟨g.currentTarget, true, ""⟩, ⟨_, rfl⟩, nofun⟩
  | introduced hello =>
    refine ⟨⟨g.currentTarget, hello, ""⟩, ?_, ?_⟩
    · exact (List.prefix_append_right_inj _).2 ⟨_, rfl⟩
    · exact fun h ↦ absurd (List.append_cancel_left h) nofun
  | asked hello =>
    refine ⟨⟨g.currentTarget, hello, ""⟩, ?_, ?_⟩
    · exact (List.prefix_append_right_inj _).2 ⟨_, rfl⟩
    · exact fun h ↦ absurd (List.append_cancel_left h) nofun

/-- A visit that ends is one more visit. -/
theorem InVisit.greeted (h : InVisit ops lines g) :
    ∃ visits, Greeted ops lines g.alreadyGreetedIds visits := by
  obtain ⟨hops, hlines, hbefore, hnow⟩ := h
  rename_i before now saidBefore saidNow ids visits finished rest
  subst hops hlines
  have hall : (visits ++ [(⟨finished, rest⟩ : Visit)]).flatMap Visit.finished =
      visits.flatMap Visit.finished ++ finished := by
    rw [List.flatMap_append, List.flatMap_singleton]
  refine ⟨visits ++ [⟨finished, rest⟩], ?_, fun v hv ↦ ?_, ?_, ?_, fun d hd ↦ ?_, ?_⟩
  · rw [List.flatMap_append, List.flatMap_singleton, hbefore.lines_eq, hnow.lines_eq]
    rfl
  · rcases List.mem_append.1 hv with hv | hv
    · exact hbefore.brokenOff v hv
    · rw [List.mem_singleton.1 hv]
      exact hnow.saying.brokenOff
  · rw [hall, List.map_append, ← hbefore.ids_eq]
    exact hnow.greeted_eq
  · rw [hnow.greeted_eq, List.nodup_append]
    refine ⟨hbefore.nodup, hnow.nodup, fun i hi j hj hij ↦ ?_⟩
    obtain ⟨d, hd, rfl⟩ := List.mem_map.1 hj
    exact (hnow.notMem d hd).1 (hij ▸ hi)
  · rw [hall] at hd
    rcases List.mem_append.1 hd with hd | hd
    · exact (hbefore.met d hd).mono (List.subset_append_left _ _)
    · exact (hnow.notMem d hd).2.mono (List.subset_append_right _ _)
  · have hpast := hbefore.confirmed
    have hrecent := hnow.confirmed
    rw [hall, List.length_append, confirmations, List.countP_append]
    simp only [confirmations] at hpast hrecent
    omega

/-- A visit begins. -/
theorem Greeted.enter (h : Greeted ops lines g.alreadyGreetedIds visits) :
    InVisit ops lines (g.enter (V := V)).1 := by
  have hnow : Telling g.alreadyGreetedIds ([] : List (Op V)) (g.enter (V := V)).1 [] [] [] :=
    ⟨rfl, .idle rfl, (List.append_nil _).symm, List.nodup_nil, nofun,
      fun hg ↦ absurd hg nofun, Nat.zero_le _⟩
  exact .mk (List.append_nil _).symm (List.append_nil _).symm h hnow

/-- A visit goes on. -/
theorem InVisit.step (h : InVisit ops lines g) {op : Op V} {g' : Greet} {cmds : List (Command V)}
    (hstep : g.step op = some (g', cmds)) :
    InVisit (ops ++ [op]) (lines ++ script cmds) g' := by
  obtain ⟨hops, hlines, hbefore, hnow⟩ := h
  obtain ⟨finished, rest, hnext⟩ := hnow.step hstep
  refine .mk ?_ ?_ hbefore hnext
  · rw [hops, List.append_assoc]
  · rw [hlines, List.append_assoc]

end Greet

namespace Fbt1

variable {f : Fbt1} {events : List (Event V)}

/-- **The invariant of a session.** -/
def Telling (f : Fbt1) (events : List (Event V)) : Prop :=
  if f.state = .greet then Greet.InVisit (greetOps events) (said events) f.greet
  else ∃ visits, Greet.Greeted (greetOps events) (said events) f.greet.alreadyGreetedIds visits

theorem Telling.greeted (h : f.Telling events) :
    ∃ visits, Greet.Greeted (greetOps events) (said events) f.greet.alreadyGreetedIds visits := by
  rw [Telling] at h
  split_ifs at h
  · exact h.greeted
  · exact h

theorem greetOps_append (events events' : List (Event V)) :
    greetOps (events ++ events') = greetOps events ++ greetOps events' := List.filterMap_append

theorem said_append (events events' : List (Event V)) :
    said (events ++ events') = said events ++ said events' := List.flatMap_append

/-- An event that adds nothing to the greetings. -/
structure Silent (e : Event V) : Prop where
  greetOp_eq : greetOp e = none
  said_eq : said [e] = []

theorem Silent.of_ne {e : Event V} (h : e.state ≠ .greet) : Silent e := by
  refine ⟨if_neg h, ?_⟩
  rw [said, List.flatMap_singleton, if_neg h]

theorem Silent.greetOps_append {e : Event V} (h : Silent e) (events : List (Event V)) :
    greetOps (events ++ [e]) = greetOps events := by
  rw [Fbt1.greetOps_append, greetOps, greetOps, List.filterMap_cons_none h.greetOp_eq,
    List.filterMap_nil, List.append_nil]

theorem Silent.said_append {e : Event V} (h : Silent e) (events : List (Event V)) :
    said (events ++ [e]) = said events := by
  rw [Fbt1.said_append, h.said_eq, List.append_nil]

/-! ### What each call does to the greetings -/

variable {f' : Fbt1} {e : Event V}

theorem Telling.silent (h : f.Telling events) (he : Silent e) (hstate : f'.state = f.state)
    (hgreet : f'.greet = f.greet) : f'.Telling (events ++ [e]) := by
  rw [Telling, he.greetOps_append, he.said_append, hstate, hgreet]
  exact h

theorem Telling.op (h : f.Telling events) {op : Greet.Op V} {commands : List (Command V)}
    (hstate : f.state = .greet) (hop : greetOp e = some op)
    (hsaid : said [e] = Greet.script commands) (hstate' : f'.state = .greet)
    (hstep : f.greet.step op = some (f'.greet, commands)) :
    f'.Telling (events ++ [e]) := by
  rw [Telling, if_pos hstate] at h
  rw [Telling, if_pos hstate', greetOps_append, said_append, hsaid, greetOps, greetOps,
    List.filterMap_cons_some hop, List.filterMap_nil]
  exact h.step hstep

theorem Telling.confirm (h : f.Telling events) :
    (f.confirm (V := V)).1.Telling (events ++ [f.confirm.2]) := by
  cases hstate : f.state with
  | calibration =>
    simp only [Fbt1.confirm, hstate]
    exact h.silent (.of_ne nofun) rfl rfl
  | waiting =>
    simp only [Fbt1.confirm, hstate]
    exact h.silent (.of_ne nofun) hstate.symm rfl
  | greet =>
    simp only [Fbt1.confirm, hstate]
    exact h.op hstate (show greetOp _ = some .confirm from rfl)
      (show said _ = Greet.script [] from rfl) rfl rfl
  | observing =>
    simp only [Fbt1.confirm, hstate]
    exact h.silent (.of_ne nofun) rfl rfl

theorem Telling.tickState (h : f.Telling events) {i : Input V} {leaves : Bool}
    (hf : f.tickState i = some (f', e, leaves)) : f'.Telling (events ++ [e]) := by
  cases hstate : f.state with
  | calibration =>
    simp only [Fbt1.tickState, hstate, Option.some.injEq, Prod.mk.injEq] at hf
    obtain ⟨rfl, rfl, rfl⟩ := hf
    exact h.silent (.of_ne nofun) hstate.symm rfl
  | waiting =>
    simp only [Fbt1.tickState, hstate, Option.some.injEq, Prod.mk.injEq] at hf
    obtain ⟨rfl, rfl, rfl⟩ := hf
    exact h.silent (.of_ne nofun) hstate.symm rfl
  | greet =>
    simp only [Fbt1.tickState, hstate, Option.map_eq_some_iff, Prod.mk.injEq] at hf
    obtain ⟨⟨greet, commands⟩, htick, rfl, rfl, rfl⟩ := hf
    exact h.op hstate (show greetOp _ = some (.tick i.persons i.terminalCmds) from rfl)
      (List.append_nil _) rfl htick
  | observing =>
    simp only [Fbt1.tickState, hstate, Option.some.injEq, Prod.mk.injEq] at hf
    obtain ⟨rfl, rfl, rfl⟩ := hf
    exact h.silent (.of_ne nofun) rfl rfl

/-- Leaving a state adds nothing to the greetings. -/
theorem leave_spec (f : Fbt1) :
    Silent (f.leave (V := V)).2 ∧ (f.leave (V := V)).1.greet = f.greet := by
  cases hstate : f.state with
  | greet =>
    simp only [leave, hstate, and_true]
    exact ⟨rfl, rfl⟩
  | _ =>
    simp only [leave, hstate, and_true]
    exact .of_ne nofun

/-- Entering another state than `Greet` adds nothing either. -/
theorem enter_spec (h : f.state ≠ .greet) : Silent (f.enter (V := V)).2 ∧
    (f.enter (V := V)).1.greet = f.greet ∧ (f.enter (V := V)).1.state = f.state := by
  cases hstate : f.state with
  | greet => exact absurd hstate h
  | _ =>
    simp only [enter, hstate, and_true]
    exact .of_ne nofun

/-- Entering a state, from any other. -/
theorem telling_enter
    (h : ∃ visits, Greet.Greeted (greetOps events) (said events) f.greet.alreadyGreetedIds visits) :
    (f.enter (V := V)).1.Telling (events ++ [f.enter.2]) := by
  by_cases hstate : f.state = .greet
  · obtain ⟨visits, h⟩ := h
    have hsilent : Silent (f.enter (V := V)).2 := by
      simp only [enter, hstate]
      exact ⟨rfl, rfl⟩
    rw [Telling, hsilent.greetOps_append, hsilent.said_append]
    simp only [enter, hstate, if_true]
    exact h.enter
  · obtain ⟨hsilent, hgreet, hstate'⟩ := enter_spec (V := V) hstate
    rw [Telling, hsilent.greetOps_append, hsilent.said_append, hgreet,
      if_neg (hstate' ▸ hstate)]
    exact h

theorem Telling.gotoState (h : f.Telling events) (s : UInt32) :
    (f.gotoState (V := V) s).1.Telling (events ++ (f.gotoState s).2) := by
  rw [Fbt1.gotoState]
  cases states[s.toNat]? with
  | none =>
    rw [List.append_nil]
    exact h
  | some k =>
    obtain ⟨hsilent, hgreet⟩ := leave_spec (V := V) f
    obtain ⟨visits, hgreeted⟩ := h.greeted
    rw [← hsilent.greetOps_append, ← hsilent.said_append, ← hgreet] at hgreeted
    have hentered :=
      telling_enter (f := { (f.leave (V := V)).1 with state := k }) ⟨visits, hgreeted⟩
    rwa [List.append_assoc] at hentered

theorem Telling.stateCmd (h : f.Telling events) (cmd : StateCmd) :
    (f.stateCmd (V := V) cmd).1.Telling (events ++ (f.stateCmd cmd).2) := by
  cases cmd with
  | next => exact h.gotoState _
  | back => exact h.gotoState _
  | confirm => exact h.confirm

theorem Telling.stateCmds (h : f.Telling events) (cmds : List StateCmd) :
    (f.stateCmds (V := V) cmds).1.Telling (events ++ (f.stateCmds cmds).2) := by
  induction cmds using List.reverseRecOn with
  | nil =>
    rw [Fbt1.stateCmds, List.foldl_nil, List.append_nil]
    exact h
  | append_singleton cmds cmd ih =>
    have hnext := ih.stateCmd cmd
    rw [List.append_assoc] at hnext
    rw [Fbt1.stateCmds, List.foldl_append]
    exact hnext

theorem Telling.advance (h : f.Telling events) {i : Input V} {new : List (Event V)}
    (hf : f.advance i = some (f', new)) : f'.Telling (events ++ new) := by
  obtain ⟨⟨ticked, event, leaves⟩, htick, heq⟩ := Option.map_eq_some_iff.1 hf
  have hticked := h.tickState htick
  cases leaves with
  | true =>
    obtain ⟨rfl, rfl⟩ := Prod.mk.inj heq
    have hmoved := hticked.gotoState (ticked.state.index + 1)
    rwa [List.append_assoc] at hmoved
  | false =>
    obtain ⟨rfl, rfl⟩ := Prod.mk.inj heq
    exact hticked

/-- **One tick.** -/
theorem Telling.tick (h : f.Telling events) {i : Input V} {new : List (Event V)}
    (hf : f.tick order i = some (f', new)) : f'.Telling (events ++ new) := by
  rw [Fbt1.tick] at hf
  obtain ⟨world, -, hadvance⟩ := Option.bind_eq_some_iff.1 hf
  obtain ⟨next, hnext, heq⟩ := Option.map_eq_some_iff.1 hadvance
  obtain ⟨rfl, rfl⟩ := Prod.mk.inj heq
  have hcmds : { (f.stateCmds (V := V) i.stateCmds).1 with world }.Telling
      (events ++ (f.stateCmds i.stateCmds).2) := h.stateCmds i.stateCmds
  have hadvanced := hcmds.advance hnext
  rwa [List.append_assoc] at hadvanced

/-- **A whole run.** -/
theorem Telling.run {inputs : List (Input V)} {new : List (Event V)} (h : f.Telling events)
    (hf : inputs.foldlM
      (fun st i ↦ (st.1.tick order i).map fun next ↦ (next.1, st.2 ++ next.2)) (f, events) =
        some (f', new)) : f'.Telling new := by
  induction inputs generalizing f events with
  | nil =>
    obtain ⟨rfl, rfl⟩ := Prod.mk.inj (Option.some.inj hf)
    exact h
  | cons i inputs ih =>
    rw [List.foldlM_cons] at hf
    obtain ⟨st, hone, hrest⟩ := Option.bind_eq_some_iff.1 hf
    obtain ⟨next, htick, rfl⟩ := Option.map_eq_some_iff.1 hone
    exact ih (h.tick htick) hrest

end Fbt1

end Executor
