import R2DTU.Executor.Robot
import R2DTU.Library.Machine
import R2DTU.Reasoning.WorldModel

/-!
# Waiting for the calibration

The state `Calibration` waits until the three sources are calibrated, turns the robot, and leaves
for the next state some time after that. The world ticks before the state does, and the state asks
the sources for a calibration in its tick 50.

`move_stage` belongs to the object and `enter` does not set it. As long as no visit has found the
sources calibrated, it is 0: the counter then starts again when they are, and the state leaves a
hundred ticks later (`calibration_firstVisit`). In the visits after one that has found them so,
nothing sets the counter back: the state leaves in tick 200, when the sources are calibrated by
then, and never otherwise (`calibration_laterVisit`).

What both rest on is that a tick of the world keeps sources calibrated (`done_tick`), so that only
the state itself takes a calibration back.
-/

namespace WorldModel

namespace World

variable {order : SetOrder}

/-- Percepts are matched without a change of the sources. -/
theorem sources_matchPercepts (w : World) (percepts : List Percept) :
    (w.matchPercepts order percepts).sources = w.sources := by
  refine matchPercepts_rule (P := fun w' ↦ w'.sources = w.sources) (fun _ _ _ h _ ↦ h)
    (fun w' percept h ↦ ?_) rfl percepts
  rcases w'.createHypothesis_cases percept with hsame | ⟨obj, -, hadd⟩
  · rwa [hsame]
  · rw [hadd]
    exact h

/-- The source is there and calibrated. -/
def Calibrated (w : World) (id : ℕ) : Prop :=
  ∃ source, w.sources id = some source ∧ source.calibrated = true

theorem Calibrated.processPercepts {w w' : World} {id : ℕ} {msg : PerceptsMsg}
    (h : w.Calibrated id) (hw : w.processPercepts order msg = some w') : w'.Calibrated id := by
  rw [World.processPercepts] at hw
  split_ifs at hw
  · rwa [← Option.some.inj hw]
  · obtain ⟨source, hsource, rfl⟩ := Option.map_eq_some_iff.1 hw
    have hsources : ∀ w'' : World, w''.sources = w.sources →
        (if source.shouldCalibrate then w''.calibrateSource msg.sourceIndex source msg.markers
          else w'').Calibrated id := by
      intro w'' heq
      have hcalibrated : w''.Calibrated id := by rwa [Calibrated, heq]
      split_ifs with hshould
      · rw [calibrateSource]
        split
        · -- the source that is calibrated here is another one
          have hne : id ≠ msg.sourceIndex := by
            rintro rfl
            obtain ⟨source', hsource', htrue⟩ := h
            obtain rfl := Option.some.inj (hsource.symm.trans hsource')
            simp [SensorSources.shouldCalibrate, htrue] at hshould
          show ∃ source', (if id = msg.sourceIndex then _ else w''.sources id) = some source' ∧ _
          rw [if_neg hne]
          exact hcalibrated
        · exact hcalibrated
      · exact hcalibrated
    refine hsources _ ?_
    split_ifs
    · rw [sources_matchPercepts, sources_matchPercepts, sources_matchPercepts]
    · rfl

/-- **Sources stay calibrated** in a tick of the world. -/
theorem Calibrated.tick {w w' : World} {id : ℕ} {pending : List PerceptsMsg}
    (h : w.Calibrated id) (hw : w.tick order pending = some w') : w'.Calibrated id := by
  rw [World.tick] at hw
  split_ifs at hw
  · rwa [← Option.some.inj hw]
  · obtain ⟨w₁, hw₁, rfl⟩ := Option.map_eq_some_iff.1 hw
    have h₁ : w₁.Calibrated id :=
      foldlM_processPercepts_rule (P := fun w ↦ w.Calibrated id) (fun _ _ _ ↦ processPercepts)
        (w := { w with latestEvents := [] }) h hw₁
    split_ifs
    · exact h₁
    · exact h₁

end World

end WorldModel

namespace Executor

open WorldModel (World SetOrder PerceptsMsg)

universe u

variable {V : Type u} {order : SetOrder}

/-- `Calibration`: the ticks since `enter`, or since the sources were found calibrated, and whether
a visit has found them so. Both are `int` in the source, and natural numbers here. -/
structure Calibration where
  /-- The ticks of the visit, which start again at 100 when the sources are calibrated. -/
  counter : ℕ
  /-- Whether the robot has turned (1) or not (0), in this visit or before. -/
  moveStage : ℕ
  deriving DecidableEq

namespace Calibration

/-- The object before its first visit. -/
def new : Calibration := ⟨0, 0⟩

/-- `enter` starts to count again, but keeps `move_stage`. -/
def enter (c : Calibration) : Calibration × List (Command V) :=
  ({ c with counter := 0 }, [.setupTts false (9 / 10)])

/-- The local `done` of `tick`. The world has the sources 0, 1 and 2 from its constructor on. -/
def done (w : World) : Bool :=
  [0, 1, 2].all fun id ↦ (w.sources id).any fun source ↦ !source.shouldCalibrate

/-- The three calls of `request_calibration`. -/
def requestCalibrations (w : World) : World :=
  [0, 1, 2].foldl World.requestCalibration w

/-- The transform of the source the robot finds itself with. -/
def transform (w : World) : Fin 4 → Fin 4 → ℚ :=
  ((w.sources 2).map (·.cameraToWorld)).getD fun _ _ ↦ 0

/-- What a tick leaves behind: with the state and the world, what it told the robot, whether it
found the sources calibrated, and whether the state leaves. -/
structure Ticked (V : Type u) where
  state : Calibration
  world : World
  /-- What it told the robot. -/
  commands : List (Command V)
  /-- Whether it found the sources calibrated. -/
  done : Bool
  /-- Whether the state leaves. -/
  leaves : Bool

/-- `tick`: the head looks ahead at 0, calibrations are requested at 50, the robot turns once the
sources are calibrated, and a hundred ticks later the state is left. -/
def tick (c : Calibration) (w : World) : Ticked V :=
  let head := if c.counter = 0 then [.setHeadAngles 0 0] else []
  let w := if c.counter = 50 then requestCalibrations w else w
  let done := done w
  let (c, turned) :=
    if done && c.moveStage = 0 then
      (({ counter := 100, moveStage := c.moveStage + 1 } : Calibration),
        [.calibrationDone (transform w), .turnAhead (transform w)])
    else (c, [])
  if done && c.moveStage = 1 && c.counter = 200 then
    ⟨c, w, head ++ turned ++ [.moveTo 0 0 (-6 / 10), .logInfo "Calibration done"], done, true⟩
  else ⟨{ c with counter := c.counter + 1 }, w, head ++ turned, done, false⟩

/-- A tick of the world and then of the state, with the messages that are waiting for the world. The
answer is whether the sources were calibrated and whether the state leaves. -/
def step (order : SetOrder) (st : Calibration × World) (pending : List PerceptsMsg) :
    Option ((Bool × Bool) × (Calibration × World)) :=
  (st.2.tick order pending).map fun w ↦
    let ticked : Ticked Unit := st.1.tick w
    ((ticked.done, ticked.leaves), (ticked.state, ticked.world))

/-! ### Sources that stay calibrated -/

theorem done_iff (w : World) : done w = true ↔ ∀ id ∈ [0, 1, 2], w.Calibrated id := by
  simp [done, World.Calibrated, WorldModel.SensorSources.shouldCalibrate, Option.any_eq_true]

theorem done_tick {w w' : World} {pending : List PerceptsMsg} (h : done w = true)
    (hw : w.tick order pending = some w') : done w' = true := by
  rw [done_iff] at h ⊢
  exact fun id hid ↦ (h id hid).tick hw

/-! ### One tick -/

variable {c : Calibration} {w w' : World} {pending : List PerceptsMsg}

/-- The world after the requests of a tick. -/
def requested (c : Calibration) (w : World) : World :=
  if c.counter = 50 then requestCalibrations w else w

/-- **In the first visit** a tick counts, or it finds the sources calibrated and starts to count
again. -/
theorem step_firstVisit (hstage : c.moveStage = 0) (hw : w.tick order pending = some w') :
    step order (c, w) pending = some ((done (c.requested w'), false),
      (if done (c.requested w') then ⟨101, 1⟩ else { c with counter := c.counter + 1 },
        c.requested w')) := by
  rw [step, hw, Option.map_some]
  simp only [tick, requested, hstage]
  cases done (if c.counter = 50 then requestCalibrations w' else w')
  · simp [hstage]
  · simp

/-- **Afterwards** a tick counts, or it is the one that leaves. -/
theorem step_laterVisit (hstage : c.moveStage = 1) (hw : w.tick order pending = some w') :
    step order (c, w) pending = some
      ((done (c.requested w'), done (c.requested w') && c.counter = 200),
      (if done (c.requested w') && c.counter = 200 then c else { c with counter := c.counter + 1 },
        c.requested w')) := by
  rw [step, hw, Option.map_some]
  simp only [tick, requested, hstage]
  cases done (if c.counter = 50 then requestCalibrations w' else w')
  · simp [hstage]
  · by_cases hcounter : c.counter = 200
    · simp [hcounter, hstage]
    · simp [hcounter, hstage]

/-- The state asks for a calibration in tick 50 only. -/
theorem requested_of_lt (h : 50 < c.counter) (w : World) : c.requested w = w :=
  if_neg (Nat.ne_of_gt h)

/-! ### Visits -/

variable {pendings : List (List PerceptsMsg)} {answers : List (Bool × Bool)}

/-- A run that answers ticks the world. -/
theorem tick_of_outputs
    (h : Machine.outputs (step order) (c, w) (pending :: pendings) = some answers) :
    ∃ w', w.tick order pending = some w' := by
  cases hw : w.tick order pending with
  | none =>
    rw [Machine.outputs, step, hw] at h
    exact absurd h.symm (Option.some_ne_none answers)
  | some w' => exact ⟨w', rfl⟩

/-- Calibrated sources stay calibrated after tick 50, and the state leaves in tick 200. -/
theorem findIdx_of_done (hdone : done w = true) (hstage : c.moveStage = 1) (hlt : 50 < c.counter)
    (hle : c.counter ≤ 200)
    (h : Machine.outputs (step order) (c, w) pendings = some answers) :
    answers.findIdx Prod.snd = min (200 - c.counter) answers.length := by
  induction pendings generalizing c w answers with
  | nil =>
    obtain rfl := Option.some.inj h
    exact (Nat.min_zero _).symm
  | cons pending pendings ih =>
    obtain ⟨w', hw⟩ := tick_of_outputs h
    have hdone' := done_tick hdone hw
    rw [Machine.outputs_cons (step_laterVisit hstage hw), requested_of_lt hlt, hdone',
      Bool.true_and] at h
    obtain ⟨later, hlater, rfl⟩ := Option.map_eq_some_iff.1 h
    rw [List.findIdx_cons, List.length_cons]
    by_cases hcounter : c.counter = 200
    · simp [hcounter]
    · rw [if_neg (by simpa using hcounter)] at hlater
      have hrest := ih (c := { c with counter := c.counter + 1 }) hdone' hstage
        (Nat.lt_succ_of_lt hlt) (by show c.counter + 1 ≤ 200; omega) hlater
      simp only [hcounter, decide_false, cond_false, hrest]
      omega

/-- After tick 200 the state does not leave. -/
theorem findIdx_of_late (hstage : c.moveStage = 1) (hlt : 200 < c.counter)
    (h : Machine.outputs (step order) (c, w) pendings = some answers) :
    answers.findIdx Prod.snd = answers.length := by
  induction pendings generalizing c w answers with
  | nil =>
    obtain rfl := Option.some.inj h
    rfl
  | cons pending pendings ih =>
    obtain ⟨w', hw⟩ := tick_of_outputs h
    have hcounter : c.counter ≠ 200 := Nat.ne_of_gt hlt
    rw [Machine.outputs_cons (step_laterVisit hstage hw)] at h
    simp only [hcounter, decide_false, Bool.and_false, Bool.false_eq_true, if_false] at h
    obtain ⟨later, hlater, rfl⟩ := Option.map_eq_some_iff.1 h
    rw [List.findIdx_cons, List.length_cons, cond_false,
      ih (c := { c with counter := c.counter + 1 }) hstage (Nat.lt_succ_of_lt hlt) hlater]

/-- A later visit from any tick until tick 200 on. -/
theorem findIdx_laterVisit (hstage : c.moveStage = 1) (hle : c.counter ≤ 200)
    (h : Machine.outputs (step order) (c, w) pendings = some answers) :
    answers.findIdx Prod.snd =
      if (answers[200 - c.counter]?).any Prod.fst then 200 - c.counter else answers.length := by
  induction pendings generalizing c w answers with
  | nil =>
    obtain rfl := Option.some.inj h
    simp
  | cons pending pendings ih =>
    obtain ⟨w', hw⟩ := tick_of_outputs h
    rw [Machine.outputs_cons (step_laterVisit hstage hw)] at h
    obtain ⟨later, hlater, rfl⟩ := Option.map_eq_some_iff.1 h
    rw [List.findIdx_cons, List.length_cons]
    by_cases hcounter : c.counter = 200
    · cases hdone : done (c.requested w') with
      | true => simp [hcounter]
      | false =>
        rw [hdone, Bool.false_and, if_neg Bool.false_ne_true] at hlater
        have hrest := findIdx_of_late (c := { c with counter := c.counter + 1 }) hstage
          (by show 200 < c.counter + 1; omega) hlater
        simp [hcounter, hrest]
    · simp only [hcounter, decide_false, Bool.and_false, Bool.false_eq_true, if_false] at hlater ⊢
      have hrest := ih (c := { c with counter := c.counter + 1 }) hstage
        (by show c.counter + 1 ≤ 200; omega) hlater
      have hsub : 200 - c.counter = (200 - (c.counter + 1)) + 1 := by omega
      rw [cond_false, hrest, hsub, List.getElem?_cons_succ]
      split_ifs
      · rfl
      · rfl

/-- **The first visit** leaves a hundred ticks after the first one that finds the sources
calibrated, and not before, whatever messages arrive. -/
theorem calibration_firstVisit {w : World} {pendings : List (List PerceptsMsg)}
    {answers : List (Bool × Bool)} (hstage : c.moveStage = 0)
    (h : Machine.outputs (step order) ((c.enter (V := Unit)).1, w) pendings = some answers) :
    answers.findIdx Prod.snd = min (answers.findIdx Prod.fst + 100) answers.length := by
  generalize hentered : (c.enter (V := Unit)).1 = c' at h
  have hstage' : c'.moveStage = 0 := by rw [← hentered]; exact hstage
  clear hentered
  induction pendings generalizing c' w answers with
  | nil =>
    obtain rfl := Option.some.inj h
    exact (Nat.min_zero _).symm
  | cons pending pendings ih =>
    obtain ⟨w', hw⟩ := tick_of_outputs h
    rw [Machine.outputs_cons (step_firstVisit hstage' hw)] at h
    obtain ⟨later, hlater, rfl⟩ := Option.map_eq_some_iff.1 h
    rw [List.findIdx_cons, List.findIdx_cons, List.length_cons, cond_false]
    cases hdone : done (c'.requested w') with
    | true =>
      rw [hdone, if_pos rfl] at hlater
      rw [findIdx_of_done (c := ⟨101, 1⟩) hdone rfl (by decide) (by decide) hlater, cond_true]
      show min 99 later.length + 1 = _
      omega
    | false =>
      rw [hdone, if_neg Bool.false_ne_true] at hlater
      rw [ih _ hlater hstage', cond_false]
      omega

/-- Twenty-one views of the marker 0 calibrate each of the three sources. -/
def markers : List PerceptsMsg :=
  [0, 1, 2].flatMap fun id ↦ List.replicate 21 ⟨[⟨0, fun _ _ ↦ 1⟩], [], [], id⟩

/-- The markers come in the second tick. -/
theorem calibration_firstVisit_calibrated :
    let answers := (false, false) :: List.replicate 100 (true, false) ++ [(true, true)]
    Machine.outputs (step .insertion) ((new.enter (V := Unit)).1, World.new false)
        ([] :: markers :: List.replicate 100 []) = some answers ∧
      answers.findIdx Prod.snd = 101 := by
  intro answers
  have h : Machine.outputs (step .insertion) ((new.enter (V := Unit)).1, World.new false)
      ([] :: markers :: List.replicate 100 []) = some answers := by decide +kernel
  refine ⟨h, (calibration_firstVisit rfl h).trans ?_⟩
  decide +kernel

/-- **A later visit**, after one that has found the sources calibrated, leaves in tick 200 when they
are calibrated in that tick, and never otherwise. -/
theorem calibration_laterVisit {w : World} {pendings : List (List PerceptsMsg)}
    {answers : List (Bool × Bool)} (hstage : c.moveStage = 1)
    (h : Machine.outputs (step order) ((c.enter (V := Unit)).1, w) pendings = some answers) :
    answers.findIdx Prod.snd = if (answers[200]?).any Prod.fst then 200 else answers.length :=
  findIdx_laterVisit (c := (c.enter (V := Unit)).1) hstage (Nat.zero_le _) h

/-- The requests of tick 50 are not answered, and the state stays. -/
theorem calibration_laterVisit_unanswered :
    let w : World :=
      { World.new false with sources := fun _ ↦ some ⟨.active, true, 20, fun _ _ ↦ 0⟩ }
    let answers := List.replicate 50 (true, false) ++ List.replicate 200 (false, false)
    Machine.outputs (step .insertion) ((enter (V := Unit) ⟨0, 1⟩).1, w) (List.replicate 250 []) =
      some answers ∧ answers.findIdx Prod.snd = 250 := by
  intro w answers
  have h : Machine.outputs (step .insertion) ((enter (V := Unit) ⟨0, 1⟩).1, w)
      (List.replicate 250 []) = some answers := by decide +kernel
  refine ⟨h, (calibration_laterVisit (c := ⟨0, 1⟩) rfl h).trans ?_⟩
  decide +kernel

end Calibration

end Executor
