import R2DTU.Reasoning.WorldModel

/-!
# The samples of a calibration

A source that is not calibrated sums up the transforms it is given. After twenty of them the next
one divides the sum by twenty and makes the source calibrated; that last one is not part of the sum.
Samples that are too short are ignored.

`request_calibration` takes the flag back, and nothing else: the sum and the number of samples stay.
When samples have been collected before, the next calibration goes on with them, and when the source
has been calibrated before, the next sample divides what is already a mean (`recalibrated_once`).

A `Recording` is a source with the samples it has accepted since the last request and with what the
source was at that request. The invariant `Summing` holds in every run: the sum is that of these
samples and of what was there before. So a calibration gives the mean of the first twenty of its
samples when nothing was there before, or when the one sample that was there is as good as the one
that came too late for the sum. `averages_run_iff` says that it does so in no other case.
-/

namespace WorldModel

namespace SensorSources

/-- A sample: the transform of a marker. -/
abbrev Transform : Type := Fin 4 → Fin 4 → ℚ

/-- What is called on a source. -/
inductive Call
  | calibrate (transform : Transform)
  | requestCalibration

/-- A source, the samples it has accepted since it was constructed or a calibration was last
requested, and the source as it was then. -/
structure Recording where
  /-- The source. -/
  source : SensorSources
  /-- The samples since then. -/
  accepted : List Transform
  /-- The source as it was then. -/
  requested : SensorSources

namespace Recording

/-- A new source. -/
def new (type : SourceType) : Recording := ⟨.new type, [], .new type⟩

/-- One call. A sample is given only to a source that should be calibrated. -/
def call (r : Recording) : Call → Recording
  | .calibrate transform =>
    if r.source.shouldCalibrate then
      { r with
        source := r.source.calibrate transform
        accepted := if isShort transform then r.accepted else r.accepted ++ [transform] }
    else r
  | .requestCalibration => ⟨r.source.requestCalibration, [], r.source⟩

/-- The transform of the source is the mean of the first twenty samples. -/
def Averaged (r : Recording) : Prop :=
  20 ≤ r.accepted.length ∧ ∀ column row, r.source.cameraToWorld column row =
    ((r.accepted.take 20).map fun transform ↦ transform column row).sum / 20

/-- Whenever a call of the run makes the source calibrated, its transform is the mean. -/
def RunAverages : Recording → List Call → Prop
  | _, [] => True
  | r, c :: cs => (r.source.calibrated = false → (r.call c).source.calibrated = true →
      (r.call c).Averaged) ∧ RunAverages (r.call c) cs

/-- The call is a sample that finds twenty. -/
def Completes (r : Recording) (transform : Transform) : Prop :=
  r.source.calibrated = false ∧ isShort transform = false ∧ 20 ≤ r.source.samplesCollected

/-- When the calibration was requested there was no sample, or only one that is equal to the
sample. -/
def Fresh (r : Recording) (transform : Transform) : Prop :=
  r.requested.samplesCollected = 0 ∨
    (r.requested.samplesCollected = 1 ∧ r.requested.cameraToWorld = transform)

/-- Every calibration that the run completes is fresh. -/
def RunFresh : Recording → List Call → Prop
  | _, [] => True
  | r, c :: cs => (∀ transform, c = .calibrate transform → r.Completes transform →
      r.Fresh transform) ∧ RunFresh (r.call c) cs

/-! ### The invariant -/

/-- The sum of the samples. -/
def total (samples : List Transform) (column row : Fin 4) : ℚ :=
  (samples.map fun transform ↦ transform column row).sum

/-- **The invariant**: while the source is not calibrated, it has summed up the samples, on top of
what was there when the calibration was requested. -/
structure Summing (r : Recording) : Prop where
  /-- It counts the samples. -/
  count_eq (h : r.source.calibrated = false) :
    r.source.samplesCollected = r.requested.samplesCollected + r.accepted.length
  /-- It sums them up. -/
  sum_eq (h : r.source.calibrated = false) (column row : Fin 4) :
    r.source.cameraToWorld column row =
      r.requested.cameraToWorld column row + total r.accepted column row
  /-- It takes twenty of them. -/
  count_le : r.source.samplesCollected ≤ 20
  /-- It starts with nothing. -/
  empty (h : r.source.samplesCollected = 0) : r.source.cameraToWorld = fun _ _ ↦ 0
  /-- So it did when the calibration was requested. -/
  requested_empty (h : r.requested.samplesCollected = 0) :
    r.requested.cameraToWorld = fun _ _ ↦ 0

variable {r : Recording}

theorem total_concat (samples : List Transform) (transform : Transform) (column row : Fin 4) :
    total (samples ++ [transform]) column row =
      total samples column row + transform column row := by
  rw [total, List.map_append, List.sum_append, List.map_singleton, List.sum_singleton]
  rfl

theorem summing_new (type : SourceType) : (new type).Summing :=
  ⟨fun _ ↦ rfl, fun _ _ _ ↦ (add_zero _).symm, Nat.zero_le _, fun _ ↦ rfl, fun _ ↦ rfl⟩

theorem Summing.requestCalibration (h : r.Summing) : (r.call .requestCalibration).Summing :=
  ⟨fun _ ↦ rfl, fun _ _ _ ↦ (add_zero _).symm, h.count_le, h.empty, h.empty⟩

/-- **What a sample does**: nothing, or it is added, or it completes the calibration. -/
theorem call_calibrate_cases (r : Recording) (transform : Transform) :
    r.call (.calibrate transform) = r ∨
    (r.source.calibrated = false ∧ r.source.samplesCollected < 20 ∧
      r.call (.calibrate transform) = { r with
        source := { r.source with
          cameraToWorld := fun column row ↦
            r.source.cameraToWorld column row + transform column row
          samplesCollected := r.source.samplesCollected + 1 }
        accepted := r.accepted ++ [transform] }) ∨
    (r.Completes transform ∧ r.call (.calibrate transform) = { r with
      source := { r.source with
        cameraToWorld := fun column row ↦ r.source.cameraToWorld column row * (1 / 20)
        calibrated := true }
      accepted := r.accepted ++ [transform] }) := by
  rw [call]
  split_ifs with hshould hshort
  · refine Or.inl ?_
    rw [SensorSources.calibrate, if_pos hshort]
  · have hcal : r.source.calibrated = false := by simpa [shouldCalibrate] using hshould
    refine Or.inr ?_
    rw [SensorSources.calibrate, if_neg hshort]
    split_ifs with hroom
    · exact Or.inl ⟨hcal, hroom, rfl⟩
    · exact Or.inr ⟨⟨hcal, by simpa using hshort, Nat.not_lt.1 hroom⟩, rfl⟩
  · exact Or.inl rfl

theorem call_of_completes {transform : Transform} (h : r.Completes transform) :
    r.call (.calibrate transform) = { r with
      source := { r.source with
        cameraToWorld := fun column row ↦ r.source.cameraToWorld column row * (1 / 20)
        calibrated := true }
      accepted := r.accepted ++ [transform] } := by
  obtain ⟨hcal, hshort, hfull⟩ := h
  rw [call, if_pos (by simp [shouldCalibrate, hcal]), SensorSources.calibrate,
    if_neg (by simp [hshort]), if_neg (Nat.not_lt.2 hfull), if_neg (by simp [hshort])]

/-- A sample that completes the calibration is what makes a source calibrated. -/
theorem becomes_calibrated_iff {transform : Transform} (h : r.source.calibrated = false) :
    (r.call (.calibrate transform)).source.calibrated = true ↔ r.Completes transform := by
  constructor
  · intro htrue
    rcases r.call_calibrate_cases transform with hcall | ⟨-, -, hcall⟩ | ⟨hcompletes, -⟩
    · rw [hcall, h] at htrue
      exact Bool.noConfusion htrue
    · rw [hcall] at htrue
      exact Bool.noConfusion (h.symm.trans htrue)
    · exact hcompletes
  · intro hcompletes
    rw [call_of_completes hcompletes]

theorem Summing.calibrate (h : r.Summing) (transform : Transform) :
    (r.call (.calibrate transform)).Summing := by
  rcases r.call_calibrate_cases transform with hcall | ⟨hcal, hroom, hcall⟩ | ⟨-, hcall⟩
  · rwa [hcall]
  · rw [hcall]
    refine ⟨fun _ ↦ ?_, fun _ column row ↦ ?_, hroom, fun hzero ↦ absurd hzero (Nat.succ_ne_zero _),
      h.requested_empty⟩
    · show r.source.samplesCollected + 1 = _ + (r.accepted ++ [transform]).length
      rw [List.length_append, List.length_singleton, h.count_eq hcal, Nat.add_assoc]
    · show r.source.cameraToWorld column row + transform column row =
        _ + total (r.accepted ++ [transform]) column row
      rw [total_concat, h.sum_eq hcal, add_assoc]
  · rw [hcall]
    refine ⟨fun hfalse ↦ Bool.noConfusion hfalse, fun hfalse ↦ Bool.noConfusion hfalse, h.count_le,
      fun hzero ↦ ?_, h.requested_empty⟩
    funext column row
    show r.source.cameraToWorld column row * (1 / 20) = 0
    rw [h.empty hzero, zero_mul]

/-- **A calibration that completes** gives the mean exactly when it is fresh. -/
theorem Summing.averaged_iff (h : r.Summing) {transform : Transform}
    (hcompletes : r.Completes transform) :
    (r.call (.calibrate transform)).Averaged ↔ r.Fresh transform := by
  obtain ⟨hcal, hshort, hfull⟩ := hcompletes
  have htwenty : r.source.samplesCollected = 20 := Nat.le_antisymm h.count_le hfull
  have hcount := h.count_eq hcal
  have haveraged : (r.call (.calibrate transform)).Averaged ↔ 19 ≤ r.accepted.length ∧
      ∀ column row, r.requested.cameraToWorld column row + total r.accepted column row =
        total ((r.accepted ++ [transform]).take 20) column row := by
    rw [call_of_completes ⟨hcal, hshort, hfull⟩, Averaged]
    refine and_congr ?_ (forall_congr' fun column ↦ forall_congr' fun row ↦ ?_)
    · show 20 ≤ (r.accepted ++ [transform]).length ↔ _
      rw [List.length_append, List.length_singleton]
      omega
    · show r.source.cameraToWorld column row * (1 / 20) = _ / 20 ↔ _
      rw [h.sum_eq hcal, mul_one_div, div_left_inj' (OfNat.ofNat_ne_zero 20)]
      exact Iff.rfl
  rw [haveraged, Fresh]
  -- there is room for at most one sample that was there before
  rcases hold : r.requested.samplesCollected with _ | _ | n
  · have hlength : r.accepted.length = 20 := by omega
    refine iff_of_true ⟨by omega, fun column row ↦ ?_⟩ (Or.inl rfl)
    rw [List.take_left' hlength, h.requested_empty hold, zero_add]
  · have hlength : (r.accepted ++ [transform]).length = 20 := by
      rw [List.length_append, List.length_singleton]
      omega
    have hall : (r.accepted ++ [transform]).take 20 = r.accepted ++ [transform] :=
      List.take_of_length_le (Nat.le_of_eq hlength)
    rw [hall]
    constructor
    · intro ⟨_, hsum⟩
      refine Or.inr ⟨rfl, funext fun column ↦ funext fun row ↦ ?_⟩
      have heq := hsum column row
      rw [total_concat, add_comm] at heq
      exact add_left_cancel heq
    · intro hfresh
      rcases hfresh with hzero | ⟨-, rfl⟩
      · exact absurd hzero (Nat.succ_ne_zero _)
      · exact ⟨by omega, fun column row ↦ by rw [total_concat, add_comm]⟩
  · refine iff_of_false (fun hshorter ↦ ?_) fun hfresh ↦ ?_
    · omega
    · omega

/-- **A whole run.** -/
theorem Summing.run_iff (h : r.Summing) (calls : List Call) :
    r.RunAverages calls ↔ r.RunFresh calls := by
  induction calls generalizing r with
  | nil => exact Iff.rfl
  | cons c calls ih =>
    cases c with
    | requestCalibration =>
      refine and_congr ?_ (ih h.requestCalibration)
      exact iff_of_true (fun _ htrue ↦ Bool.noConfusion htrue)
        fun _ hc ↦ Call.noConfusion hc
    | calibrate transform =>
      refine and_congr ?_ (ih (h.calibrate transform))
      constructor
      · intro haverages t ht hcompletes
        obtain rfl := Call.calibrate.inj ht
        have hbecomes := (becomes_calibrated_iff hcompletes.1).2 hcompletes
        exact (h.averaged_iff hcompletes).1 (haverages hcompletes.1 hbecomes)
      · intro hfresh hcal htrue
        have hcompletes := (becomes_calibrated_iff hcal).1 htrue
        exact (h.averaged_iff hcompletes).2 (hfresh transform rfl hcompletes)

end Recording

/-- **The mean of a calibration.** In a run of a source, each calibration that completes gives the
mean of the first twenty samples since the source was constructed or the calibration was requested,
exactly when each is fresh. -/
theorem averages_run_iff (type : SourceType) (calls : List Call) :
    (Recording.new type).RunAverages calls ↔ (Recording.new type).RunFresh calls :=
  (Recording.summing_new type).run_iff calls

/-- The part of a run after some calls. -/
theorem Recording.RunAverages.drop {r : Recording} {calls later : List Call}
    (h : r.RunAverages (calls ++ later)) : (calls.foldl Recording.call r).RunAverages later := by
  induction calls generalizing r with
  | nil => exact h
  | cons c calls ih => exact ih h.2

/-- Twenty-one samples that are all ones, which make a source calibrated, and a request. -/
def recalibration : List Call :=
  List.replicate 21 (.calibrate fun _ _ ↦ 1) ++ [.requestCalibration]

/-- **A calibration from one sample.** The next sample makes the source calibrated again, with a
twentieth of it. -/
theorem recalibrated_once :
    ((recalibration ++ [Call.calibrate fun _ _ ↦ 1]).foldl Recording.call
        (Recording.new .active)).source.cameraToWorld 0 0 = 1 / 20 ∧
      ¬ (Recording.new .active).RunAverages (recalibration ++ [.calibrate fun _ _ ↦ 1]) := by
  refine ⟨by decide +kernel, fun h ↦ ?_⟩
  have hlast := h.drop.1 (by decide +kernel) (by decide +kernel)
  exact absurd hlast.1 (by decide +kernel)

end SensorSources

end WorldModel
