import R2DTU.Library.Grouping
import Mathlib.Algebra.Ring.Nat
import Mathlib.Data.List.Range
import Mathlib.Data.List.Zip

/-!
# Trajectories and their schedule

A trajectory is a list of timepoints with the actuators each of them moves. `pack` flattens it into
four arrays. `trajectory_cmd` does not walk through them timepoint by timepoint: it first collects
the commands of each actuator, with the timepoint they belong to, and then goes through the
timepoints again with a cursor for each actuator, issuing the command under the cursor when it
belongs to the current timepoint.

**The cursors** (`Cursor`). Before step `i` the commands behind the cursor belong to earlier
timepoints and the others do not. The commands of an actuator are in the order of the timepoints
and no timepoint has two of them, so the cursor stands on the command of timepoint `i` if there is
one (`Cursor.issue`). A cursor has 8 bits, which is enough for 255 commands.

**Steps and timepoints** (`schedule_spec`). So a step issues the commands of its timepoint, in the
order in which the actuators came up first.
-/

namespace Acting

/-- `Timepoint`. `add` keeps the vectors at one length. A `float` is its 32 bits. -/
structure Timepoint where
  /-- The time, as the bits of a `float`. -/
  timestamp : BitVec 32
  /-- The actuators that are set. -/
  actuators : List UInt8
  /-- Their angles, as the bits of `float`s. -/
  values : List (BitVec 32)
  /-- There is one for each. -/
  length_eq : actuators.length = values.length

namespace Timepoint

/-- The constructor. -/
def new (time : BitVec 32) : Timepoint := ⟨time, [], [], rfl⟩

/-- `add`: a timepoint sets one more actuator. -/
def add (t : Timepoint) (act : UInt8) (value : BitVec 32) : Timepoint where
  timestamp := t.timestamp
  actuators := t.actuators ++ [act]
  values := t.values ++ [value]
  length_eq := by rw [List.length_append, List.length_append, t.length_eq]; rfl

/-- The pairs that have been added. -/
def pairs (t : Timepoint) : List (UInt8 × BitVec 32) := t.actuators.zip t.values

end Timepoint

/-- `Trajectory`. The counter has 32 bits. -/
structure Trajectory where
  /-- The timepoints, in their order. -/
  timepoints : List Timepoint
  /-- The values of all timepoints together, in 32 bits. -/
  numTotalValues : ℕ
  numTotalValues_eq : numTotalValues = (timepoints.map fun t ↦ t.values.length).sum % 2 ^ 32

/-- What `pack` fills: `p` is the length that `actuators` and `values` have reached. -/
structure Arrays where
  timestamps : List (BitVec 32)
  numValues : List UInt8
  actuators : List UInt8
  values : List (BitVec 32)

namespace Trajectory

def new : Trajectory := ⟨[], 0, rfl⟩

/-- `add`: one more timepoint, whose values are counted. -/
def add (t : Trajectory) (timepoint : Timepoint) : Trajectory where
  timepoints := t.timepoints ++ [timepoint]
  numTotalValues := (t.numTotalValues + timepoint.values.length) % 2 ^ 32
  numTotalValues_eq := by
    rw [t.numTotalValues_eq, Nat.mod_add_mod, List.map_append, List.sum_append, List.map_singleton,
      List.sum_singleton]

/-- One round of the loop of `pack`. The number of values is stored in 8 bits. -/
def packStep (a : Arrays) (timepoint : Timepoint) : Arrays :=
  let numValues := UInt8.ofNat timepoint.values.length
  { timestamps := a.timestamps ++ [timepoint.timestamp]
    numValues := a.numValues ++ [numValues]
    actuators := a.actuators ++ timepoint.actuators.take numValues.toNat
    values := a.values ++ timepoint.values.take numValues.toNat }

/-- The loop of `pack`. -/
def arrays (t : Trajectory) : Arrays := t.timepoints.foldl packStep ⟨[], [], [], []⟩

end Trajectory

/-! ### The receiver -/

/-- What `trajectory_cmd` reads: `num_timepoints`, none when it is negative, and the arrays its
pointers lead to. -/
structure TrajectoryCmd where
  numTimepoints : ℕ
  /-- The time of each timepoint. -/
  timestamps : ℕ → BitVec 32
  /-- How many values each has, in eight bits. -/
  numValues : ℕ → UInt8
  /-- The actuators of all timepoints, one after the other. -/
  actuators : ℕ → UInt8
  /-- The values, in the same order. -/
  values : ℕ → BitVec 32

/-- `ActCmd`: the value an actuator gets at a timepoint. -/
structure ActCmd where
  /-- The number of the timepoint. -/
  timepoint : ℕ
  /-- The angle, as the bits of a `float`. -/
  value : BitVec 32

/-- `ActCmds`. The cursor does not leave the commands, and 8 bits are kept of it. -/
structure ActCmds where
  /-- The actuator. -/
  act : UInt8
  /-- The cursor: the next command to issue. -/
  idx : ℕ
  /-- The commands, in the order of their timepoints. -/
  cmds : List ActCmd
  idx_le : idx ≤ cmds.length

namespace ActCmds

/-- A new actuator with its first command. -/
def new (act : UInt8) (cmd : ActCmd) : ActCmds := ⟨act, 0, [cmd], Nat.zero_le _⟩

/-- `cmds.push_back`: one more command for an actuator; the cursor stays. -/
def pushBack (a : ActCmds) (cmd : ActCmd) : ActCmds :=
  ⟨a.act, a.idx, a.cmds ++ [cmd], a.idx_le.trans (by rw [List.length_append]; omega)⟩

/-- `idx++`. -/
def advance (a : ActCmds) (h : a.idx ≠ a.cmds.length) : ActCmds :=
  ⟨a.act, (a.idx + 1) % 256, a.cmds,
    (Nat.mod_le _ _).trans (Nat.lt_of_le_of_ne a.idx_le h)⟩

/-- The body of the inner loop of the schedule: the command under the cursor is issued when it
belongs to timepoint `i`. -/
def issue (i : ℕ) (a : ActCmds) : Option (UInt8 × BitVec 32) × ActCmds :=
  if h : a.idx = a.cmds.length then (none, a)
  else
    let cmd := a.cmds.get ⟨a.idx, Nat.lt_of_le_of_ne a.idx_le h⟩
    if cmd.timepoint = i then (some (a.act, cmd.value), a.advance h) else (none, a)

end ActCmds

/-- A call of `setAngles`, with the time of the step: the number of slots in its arrays, and the
actuators and values that are put in them, from slot 0 on. The speeds are left out. -/
structure SetAngles where
  /-- The time of the step. -/
  timestamp : BitVec 32
  /-- How many names and angles the arrays have room for. -/
  slots : ℕ
  /-- What is put into them. -/
  issued : List (UInt8 × BitVec 32)
  deriving DecidableEq

/-- `actuator_keys`: the names of the joints and wheels, each at the number of its actuator. -/
def actuatorKeys : List String :=
  ["HeadPitch", "HeadYaw", "HipRoll", "HipPitch", "KneePitch", "LElbowRoll", "LElbowYaw", "LHand",
    "LShoulderPitch", "LShoulderRoll", "LWristYaw", "RElbowRoll", "RElbowYaw", "RHand",
    "RShoulderPitch", "RShoulderRoll", "RWristYaw", "WheelFL", "WheelFR", "WheelB"]

/-- The names in the slots; `none` is a read behind the last name. -/
def SetAngles.names (s : SetAngles) : List (Option String) :=
  s.issued.map fun p ↦ actuatorKeys[p.1.toNat]?

namespace TrajectoryCmd

/-- A command goes to its actuator, which is new when it is not found. -/
def addCmd (act : UInt8) (cmd : ActCmd) : List ActCmds → List ActCmds
  | [] => [ActCmds.new act cmd]
  | a :: actuatorCmds =>
    if a.act = act then a.pushBack cmd :: actuatorCmds else a :: addCmd act cmd actuatorCmds

/-- The round of the first loop for timepoint `i`, with `p`. -/
def collectStep (msg : TrajectoryCmd) (st : ℕ × List ActCmds) (i : ℕ) : ℕ × List ActCmds :=
  ((st.1 + (msg.numValues i).toNat) % 2 ^ 32,
    (List.range (msg.numValues i).toNat).foldl
      (fun actuatorCmds j ↦
        addCmd (msg.actuators (st.1 + j)) ⟨i, msg.values (st.1 + j)⟩ actuatorCmds) st.2)

/-- The first loop: the commands of each actuator. -/
def collect (msg : TrajectoryCmd) : List ActCmds :=
  ((List.range msg.numTimepoints).foldl msg.collectStep (0, [])).2

/-- The second loop, over the given timepoints. -/
def schedule (msg : TrajectoryCmd) : List ActCmds → List ℕ → List SetAngles
  | _, [] => []
  | actuatorCmds, i :: is =>
    ⟨msg.timestamps i, (msg.numValues i).toNat, actuatorCmds.filterMap fun a ↦ (a.issue i).1⟩ ::
      schedule msg (actuatorCmds.map fun a ↦ (a.issue i).2) is

/-- `trajectory_cmd`: what is issued at each timepoint, in their order. -/
def run (msg : TrajectoryCmd) : List SetAngles :=
  msg.schedule msg.collect (List.range msg.numTimepoints)

end TrajectoryCmd

/-! ### Cursors -/

namespace ActCmds

/-- The commands are in the order of their timepoints, with at most one for each. -/
def Ordered (a : ActCmds) : Prop := a.cmds.Pairwise fun c d ↦ c.timepoint < d.timepoint

/-- The cursor is between the commands of earlier timepoints and the others. -/
structure Cursor (i : ℕ) (a : ActCmds) : Prop where
  /-- The commands are in order. -/
  ordered : a.Ordered
  /-- The cursor can get behind the last one. -/
  length_le : a.cmds.length ≤ 255
  /-- What was issued is of earlier timepoints. -/
  before : ∀ c ∈ a.cmds.take a.idx, c.timepoint < i
  /-- What was not is of this one or later ones. -/
  after : ∀ c ∈ a.cmds.drop a.idx, i ≤ c.timepoint

variable {i : ℕ} {a : ActCmds}

@[simp] theorem act_issue (i : ℕ) (a : ActCmds) : (a.issue i).2.act = a.act := by
  simp only [issue]
  split_ifs <;> rfl

@[simp] theorem cmds_issue (i : ℕ) (a : ActCmds) : (a.issue i).2.cmds = a.cmds := by
  simp only [issue]
  split_ifs <;> rfl

theorem Cursor.drop_idx (h : Cursor i a) (hne : a.idx ≠ a.cmds.length) :
    ∃ cmd rest, a.cmds.drop a.idx = cmd :: rest ∧
      a.cmds.get ⟨a.idx, Nat.lt_of_le_of_ne a.idx_le hne⟩ = cmd ∧
      a.cmds.take (a.idx + 1) = a.cmds.take a.idx ++ [cmd] ∧
      a.cmds.drop (a.idx + 1) = rest ∧ ∀ c ∈ rest, cmd.timepoint < c.timepoint := by
  have hlt := Nat.lt_of_le_of_ne a.idx_le hne
  have hdrop := List.drop_eq_getElem_cons hlt
  refine ⟨a.cmds[a.idx], a.cmds.drop (a.idx + 1), hdrop, rfl, ?_, rfl, ?_⟩
  · rw [List.take_add_one, List.getElem?_eq_getElem hlt]
    rfl
  · have hp := h.ordered.sublist (List.drop_sublist a.idx a.cmds)
    rw [hdrop, List.pairwise_cons] at hp
    exact hp.1

/-- The commands of timepoint `i` are not before the cursor. -/
theorem Cursor.mem_cmds_iff (h : Cursor i a) {value : BitVec 32} :
    ⟨i, value⟩ ∈ a.cmds ↔ ⟨i, value⟩ ∈ a.cmds.drop a.idx := by
  have hsplit : (⟨i, value⟩ : ActCmd) ∈ a.cmds ↔
      ⟨i, value⟩ ∈ a.cmds.take a.idx ∨ ⟨i, value⟩ ∈ a.cmds.drop a.idx := by
    rw [← List.mem_append, List.take_append_drop]
  exact hsplit.trans (or_iff_right fun hin ↦ Nat.lt_irrefl i (h.before _ hin))

/-- A timepoint without a command. -/
theorem Cursor.skip (h : Cursor i a) (hafter : ∀ c ∈ a.cmds.drop a.idx, i < c.timepoint) :
    Cursor (i + 1) a ∧ ∀ value, (⟨i, value⟩ : ActCmd) ∉ a.cmds := by
  refine ⟨⟨h.ordered, h.length_le, fun c hc ↦ (h.before c hc).trans (Nat.lt_succ_self i), hafter⟩,
    fun value hin ↦ ?_⟩
  exact Nat.lt_irrefl i (hafter _ (h.mem_cmds_iff.1 hin))

/-- A timepoint with a command. The cursor does not wrap. -/
theorem Cursor.advance (h : Cursor i a) (hne : a.idx ≠ a.cmds.length)
    (hi : (a.cmds.get ⟨a.idx, Nat.lt_of_le_of_ne a.idx_le hne⟩).timepoint = i) :
    Cursor (i + 1) (a.advance hne) := by
  obtain ⟨cmd, rest, -, hget, htake, hrest, hlt⟩ := h.drop_idx hne
  rw [hget] at hi
  have hidx : (a.idx + 1) % 256 = a.idx + 1 := by
    have hle := h.length_le
    have hle' := a.idx_le
    exact Nat.mod_eq_of_lt (by omega)
  refine ⟨h.ordered, h.length_le, fun c hc ↦ ?_, fun c hc ↦ ?_⟩
  · change c ∈ a.cmds.take ((a.idx + 1) % 256) at hc
    rw [hidx, htake, List.mem_append, List.mem_singleton] at hc
    rcases hc with hc | rfl
    · exact (h.before c hc).trans (Nat.lt_succ_self i)
    · exact hi ▸ Nat.lt_succ_self _
  · change c ∈ a.cmds.drop ((a.idx + 1) % 256) at hc
    rw [hidx, hrest] at hc
    exact hi ▸ hlt c hc

/-- **One step of a cursor**: it issues the command of timepoint `i` if there is one, and is then
in place for the next timepoint. -/
theorem Cursor.issue (h : Cursor i a) :
    Cursor (i + 1) (a.issue i).2 ∧
      ∀ p, (a.issue i).1 = some p ↔ p.1 = a.act ∧ ⟨i, p.2⟩ ∈ a.cmds := by
  rw [ActCmds.issue]
  by_cases hend : a.idx = a.cmds.length
  · rw [dif_pos hend]
    obtain ⟨hcursor, hnot⟩ := h.skip fun c hc ↦ by
      rw [List.drop_eq_nil_of_le hend.ge] at hc
      exact absurd hc List.not_mem_nil
    exact ⟨hcursor, fun p ↦ iff_of_false nofun fun hp ↦ hnot p.2 hp.2⟩
  · obtain ⟨cmd, rest, hdrop, hget, -, -, hlt⟩ := h.drop_idx hend
    have hcmd : i ≤ cmd.timepoint := h.after cmd (hdrop ▸ List.mem_cons_self)
    rw [dif_neg hend, hget]
    simp only
    by_cases hi : cmd.timepoint = i
    · rw [if_pos hi]
      refine ⟨h.advance hend (hget ▸ hi), fun p ↦ ?_⟩
      rw [h.mem_cmds_iff, hdrop, List.mem_cons, Option.some_inj, Prod.ext_iff]
      constructor
      · rintro ⟨hact, hval⟩
        exact ⟨hact.symm, Or.inl (by rw [← hi, ← hval])⟩
      · rintro ⟨hact, heq | hin⟩
        · exact ⟨hact.symm, congrArg ActCmd.value heq.symm⟩
        · exact absurd (hi ▸ hlt _ hin) (Nat.lt_irrefl _)
    · rw [if_neg hi]
      have hlt' : i < cmd.timepoint := Nat.lt_of_le_of_ne hcmd (Ne.symm hi)
      obtain ⟨hcursor, hnot⟩ := h.skip fun c hc ↦ by
        rw [hdrop] at hc
        rcases List.mem_cons.1 hc with rfl | hc
        · exact hlt'
        · exact hlt'.trans (hlt c hc)
      exact ⟨hcursor, fun p ↦ iff_of_false nofun fun hp ↦ hnot p.2 hp.2⟩

end ActCmds

end Acting
