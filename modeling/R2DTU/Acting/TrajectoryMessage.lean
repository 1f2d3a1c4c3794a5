import R2DTU.Acting.Schedule
import R2DTU.Middleware.MessageRoundTrip

/-!
# A trajectory as a message

`Trajectory::pack` copies the arrays of a trajectory into memory of their own, writes the number of
timepoints into a `TrajectoryCmdMsg`, registers the arrays as its blobs and packs it.
`trajectory_cmd` finds the arrays through the blobs of its copy of the message.

What the builder is told about the arrays are their sizes. `num_total_values` and the 8-bit counts
are right for trajectories that fit (`arrays_eq`), so the blobs hold the arrays, and the receiver
decodes the timepoints (`decodes_readMsg`).
-/

namespace Acting

open Middleware ByteMemory

/-- `sizeof(TrajectoryCmdMsg)`: an `int32_t` at 0 and four blobs at 4, 12, 20 and 28. -/
def trajectoryCmdMsgSize : ℕ := 36

namespace Trajectory

/-- The sizes of the arrays, as `pack` computes them, and of the message. -/
def regions (t : Trajectory) (timestamps numValues actuators values header : ℕ) : List Slice :=
  [⟨timestamps, t.timepoints.length * 4⟩, ⟨numValues, t.timepoints.length⟩,
    ⟨actuators, t.numTotalValues⟩, ⟨values, t.numTotalValues * 4⟩,
    ⟨header, headerSize + trajectoryCmdMsgSize + t.timepoints.length * 4 + t.timepoints.length +
      t.numTotalValues + t.numTotalValues * 4⟩]

/-- What `malloc` returns in `pack`: regions that share nothing. -/
structure Allocation (t : Trajectory) where
  timestamps : ℕ
  numValues : ℕ
  actuators : ℕ
  values : ℕ
  header : ℕ
  /-- No two regions share a byte. -/
  apart : (t.regions timestamps numValues actuators values header).Pairwise fun r s ↦
    Apart r.start r.size s.start s.size

/-- The memory with the arrays in it. -/
def fill (t : Trajectory) (al : t.Allocation) (mem : ByteMemory) : ByteMemory :=
  (((mem.write al.timestamps (wordBytes 4 (t.arrays.timestamps.map BitVec.toNat))).write
    al.numValues t.arrays.numValues).write al.actuators t.arrays.actuators).write al.values
      (wordBytes 4 (t.arrays.values.map BitVec.toNat))

/-- `pack`: the memory with the message in it. The struct starts with any bytes. -/
def pack (t : Trajectory) (al : t.Allocation) (struct mem : ByteMemory) : Option ByteMemory := do
  let msg := MessageBuilder.new (struct.writeWord 4 0 t.timepoints.length) trajectoryCmdMsgSize
  let msg ← msg.writeBlob 4 ⟨al.timestamps, t.timepoints.length * 4⟩
  let msg ← msg.writeBlob 12 ⟨al.numValues, t.timepoints.length⟩
  let msg ← msg.writeBlob 20 ⟨al.actuators, t.numTotalValues⟩
  let msg ← msg.writeBlob 28 ⟨al.values, t.numTotalValues * 4⟩
  return msg.pack (t.fill al mem) al.header

end Trajectory

/-- What `trajectory_cmd` finds at `msg`. -/
def TrajectoryCmd.readMsg (mem : ByteMemory) (msg : ℕ) : TrajectoryCmd where
  numTimepoints := if mem.readWord 4 msg < 2 ^ 31 then mem.readWord 4 msg else 0
  timestamps i :=
    BitVec.ofNat 32 (mem.readWord 4 ((Messages.accessBlob mem (msg + 4)).start + 4 * i))
  numValues i := mem ((Messages.accessBlob mem (msg + 12)).start + i)
  actuators i := mem ((Messages.accessBlob mem (msg + 20)).start + i)
  values i :=
    BitVec.ofNat 32 (mem.readWord 4 ((Messages.accessBlob mem (msg + 28)).start + 4 * i))

/-! ### The arrays -/

namespace Trajectory

/-- **The arrays** of timepoints whose counts fit into 8 bits. -/
theorem foldl_packStep {ts : List Timepoint} (hts : ∀ t ∈ ts, t.Proper) :
    ts.foldl packStep ⟨[], [], [], []⟩ =
      ⟨ts.map Timepoint.timestamp, ts.map fun t ↦ UInt8.ofNat t.pairs.length,
        ts.flatMap Timepoint.actuators, ts.flatMap Timepoint.values⟩ := by
  induction ts using List.reverseRecOn with
  | nil => rfl
  | append_singleton ts t ih =>
    have ht := (hts t (List.mem_append_right _ (List.mem_singleton_self t))).length_le
    have hcount : (UInt8.ofNat t.values.length).toNat = t.actuators.length := by
      rw [UInt8.toNat_ofNat', ← t.length_eq]
      exact Nat.mod_eq_of_lt (by omega)
    rw [List.foldl_append, ih fun t ht ↦ hts t (List.mem_append_left _ ht), List.foldl_cons,
      List.foldl_nil, packStep, hcount, List.take_length, t.length_eq, List.take_length]
    simp [t.length_eq]

theorem arrays_eq {t : Trajectory} (hts : ∀ tp ∈ t.timepoints, tp.Proper) :
    t.arrays =
      ⟨t.timepoints.map Timepoint.timestamp,
        t.timepoints.map fun tp ↦ UInt8.ofNat tp.pairs.length,
        t.timepoints.flatMap Timepoint.actuators, t.timepoints.flatMap Timepoint.values⟩ :=
  foldl_packStep hts

/-- At most 20 values for each timepoint. -/
theorem length_flatMap_le {ts : List Timepoint} (hts : ∀ t ∈ ts, t.Proper) :
    (ts.flatMap Timepoint.actuators).length ≤ ts.length * 20 := by
  induction ts with
  | nil => exact Nat.zero_le _
  | cons t ts ih =>
    obtain ⟨ht, hrest⟩ := List.forall_mem_cons.1 hts
    have hle := ht.length_le
    have hle' := ih hrest
    rw [List.flatMap_cons, List.length_append, List.length_cons]
    omega

theorem numTotalValues_eq_length {t : Trajectory} (hlen : t.timepoints.length ≤ 255)
    (hts : ∀ tp ∈ t.timepoints, tp.Proper) :
    t.numTotalValues = (t.timepoints.flatMap Timepoint.actuators).length := by
  have hle := length_flatMap_le hts
  rw [t.numTotalValues_eq, ← length_flatMap_values, List.length_flatMap]
  rw [← length_flatMap_values, List.length_flatMap] at hle
  exact Nat.mod_eq_of_lt (by omega)

end Trajectory

/-! ### The message -/

section Message

variable {t : Trajectory}

/-- The calls of `pack` to its builder, with what they write. -/
def Trajectory.writes (t : Trajectory) (al : t.Allocation) : List Write :=
  [⟨.blob, 4, al.timestamps, wordBytes 4 (t.arrays.timestamps.map BitVec.toNat)⟩,
    ⟨.blob, 12, al.numValues, t.arrays.numValues⟩,
    ⟨.blob, 20, al.actuators, t.arrays.actuators⟩,
    ⟨.blob, 28, al.values, wordBytes 4 (t.arrays.values.map BitVec.toNat)⟩]

/-- The sizes that are passed are those of the arrays. -/
structure Trajectory.Sized (t : Trajectory) : Prop where
  timestamps : t.arrays.timestamps.length = t.timepoints.length
  numValues : t.arrays.numValues.length = t.timepoints.length
  actuators : t.arrays.actuators.length = t.numTotalValues
  values : t.arrays.values.length = t.numTotalValues
  lt : headerSize + trajectoryCmdMsgSize + t.timepoints.length * 4 + t.timepoints.length +
    t.numTotalValues + t.numTotalValues * 4 < 2 ^ 32

namespace Trajectory

theorem sized (hlen : t.timepoints.length ≤ 255) (hts : ∀ tp ∈ t.timepoints, tp.Proper) :
    t.Sized := by
  have htotal := numTotalValues_eq_length hlen hts
  have hle := length_flatMap_le hts
  rw [← htotal] at hle
  refine ⟨?_, ?_, ?_, ?_, ?_⟩
  · rw [arrays_eq hts, List.length_map]
  · rw [arrays_eq hts, List.length_map]
  · rw [arrays_eq hts, htotal]
  · rw [arrays_eq hts, htotal]
    exact length_flatMap_values t.timepoints
  · rw [headerSize, trajectoryCmdMsgSize]
    omega

variable {al : t.Allocation} {struct mem : ByteMemory}

theorem Sized.length_wordBytes_timestamps (h : t.Sized) :
    (wordBytes 4 (t.arrays.timestamps.map BitVec.toNat)).length = t.timepoints.length * 4 := by
  rw [length_wordBytes, List.length_map, h.timestamps]

theorem Sized.length_wordBytes_values (h : t.Sized) :
    (wordBytes 4 (t.arrays.values.map BitVec.toNat)).length = t.numTotalValues * 4 := by
  rw [length_wordBytes, List.length_map, h.values]

/-- `pack` makes the calls. -/
theorem Sized.pack_eq (h : t.Sized) : t.pack al struct mem =
    ((t.writes al).foldlM (fun b (w : Write) ↦ w.call b)
      (MessageBuilder.new (struct.writeWord 4 0 t.timepoints.length) trajectoryCmdMsgSize)).map
        fun b ↦ b.pack (t.fill al mem) al.header := by
  rw [pack, writes]
  simp only [List.foldlM_cons, List.foldlM_nil, Write.call, h.length_wordBytes_timestamps,
    h.length_wordBytes_values, h.numValues, h.actuators, Option.map_eq_bind, Option.bind_eq_bind,
    Option.bind_assoc]
  rfl

theorem Sized.blockBytes_writes (h : t.Sized) : blockBytes (t.writes al) =
    t.timepoints.length * 4 + t.timepoints.length + t.numTotalValues + t.numTotalValues * 4 := by
  simp only [writes, blockBytes, List.map_cons, List.map_nil, Write.stored,
    h.length_wordBytes_timestamps, h.length_wordBytes_values, h.numValues, h.actuators,
    List.sum_cons, List.sum_nil, Nat.add_zero, Nat.add_assoc]

theorem Sized.message_lt (h : t.Sized) :
    headerSize + trajectoryCmdMsgSize + blockBytes (t.writes al) < 2 ^ 32 := by
  have hlt := h.lt
  rw [h.blockBytes_writes]
  omega

/-- The fields of the pointers are behind the number of timepoints. -/
theorem field_of_mem_writes {w : Write} (hw : w ∈ t.writes al) :
    4 ≤ w.field ∧ w.field + 8 ≤ trajectoryCmdMsgSize := by
  have hall : ∀ w ∈ t.writes al, 4 ≤ w.field ∧ w.field + 8 ≤ trajectoryCmdMsgSize := by
    simp [writes, trajectoryCmdMsgSize]
  exact hall w hw

/-- The regions are those of the arrays and of the message. -/
theorem Sized.regions_eq (h : t.Sized) :
    t.regions al.timestamps al.numValues al.actuators al.values al.header =
      (t.writes al).map Write.block ++
        [⟨al.header, headerSize + trajectoryCmdMsgSize + blockBytes (t.writes al)⟩] := by
  rw [h.blockBytes_writes]
  simp only [regions, writes, List.map_cons, List.map_nil, Write.block, Write.stored,
    h.length_wordBytes_timestamps, h.length_wordBytes_values, h.numValues, h.actuators,
    List.cons_append, List.nil_append, Nat.add_assoc]

/-- The arrays are in memory when the message is packed, and away from it. -/
theorem Sized.holds (h : t.Sized) : ∀ w ∈ t.writes al, w.Holds (t.fill al mem) ∧
    Apart w.start w.stored.length al.header
      (headerSize + trajectoryCmdMsgSize + blockBytes (t.writes al)) := by
  have hapart := al.apart
  rw [h.regions_eq, List.pairwise_append, List.pairwise_map] at hapart
  obtain ⟨harrays, -, hmessage⟩ := hapart
  have hfill : t.fill al mem = ((t.writes al).map fun w ↦ (w.start, w.bytes)).foldl
      (fun m r ↦ m.write r.1 r.2) mem := rfl
  intro w hw
  refine ⟨?_, hmessage _ (List.mem_map_of_mem hw) _ (List.mem_singleton_self _)⟩
  have hstored : ∀ w ∈ t.writes al, w.stored = w.bytes := by
    intro w hw
    simp only [writes, List.mem_cons, List.not_mem_nil, or_false] at hw
    rcases hw with rfl | rfl | rfl | rfl <;> rfl
  rw [Write.Holds, hfill]
  refine @read_foldl_write mem _ (w.start, w.bytes) ?_ (List.mem_map_of_mem hw)
  rw [List.pairwise_map]
  refine harrays.imp_of_mem fun {v v'} hv hv' hne ↦ ?_
  rwa [Write.block, Write.block, hstored v hv, hstored v' hv'] at hne

end Trajectory

/-! ### The receiver's copy -/

section Receiver

variable {mem : ByteMemory} {s : Slice}

theorem agrees_of_read {l : List UInt8} (h : mem.read s.start s.size = l) :
    Agrees (fun i ↦ mem (s.start + i)) l := by
  intro i b hb
  have hsize : s.size = l.length := by rw [← h, length_read]
  have hi : i < s.size := hsize ▸ (List.getElem?_eq_some_iff.1 hb).1
  rw [← h, getElem?_read hi] at hb
  exact Option.some.inj hb

theorem agrees_of_read_words {l : List (BitVec 32)}
    (h : mem.read s.start s.size = wordBytes 4 (l.map BitVec.toNat)) :
    Agrees (fun i ↦ BitVec.ofNat 32 (mem.readWord 4 (s.start + 4 * i))) l := by
  intro i b hb
  have hsize : s.size = (l.map BitVec.toNat).length * 4 := by
    rw [← length_wordBytes, ← h, length_read]
  rw [hsize] at h
  have hword := readWord_of_read_wordBytes h (by rw [List.getElem?_map, hb]; rfl) b.isLt
  show BitVec.ofNat 32 (mem.readWord 4 (s.start + 4 * i)) = b
  rw [hword, BitVec.ofNat_toNat, BitVec.setWidth_eq]

end Receiver

/-- **The arrays arrive**: a receiver finds those of the timepoints in every copy of the message. -/
theorem decodes_readMsg {al : t.Allocation} {struct mem mem' : ByteMemory} {header : ℕ}
    {b : MessageBuilder} (hlen : t.timepoints.length ≤ 255)
    (hts : ∀ tp ∈ t.timepoints, tp.Proper)
    (hb : b.Built (struct.writeWord 4 0 t.timepoints.length) trajectoryCmdMsgSize (t.writes al))
    (hcopy : mem'.read header (Messages.sizeOf (b.pack (t.fill al mem) al.header) al.header) =
      (b.pack (t.fill al mem) al.header).read al.header
        (Messages.sizeOf (b.pack (t.fill al mem) al.header) al.header)) :
    (TrajectoryCmd.readMsg mem' (Messages.contentOffset header 0)).Decodes t.timepoints := by
  have hsized := Trajectory.sized hlen hts
  have hholds := @Trajectory.Sized.holds t al mem hsized
  obtain ⟨hread, hother⟩ := hb.read_copy (fun w hw ↦ (Trajectory.field_of_mem_writes hw).2)
    hsized.message_lt (fun w hw ↦ (hholds w hw).2) hcopy
  have hblob : ∀ w ∈ t.writes al, w.kind = .blob → mem'.read
      (Messages.accessBlob mem' (Messages.contentOffset header 0 + w.field)).start
      (Messages.accessBlob mem' (Messages.contentOffset header 0 + w.field)).size = w.bytes := by
    intro w hw hkind
    have hback := (hread w hw).1.trans (hholds w hw).1
    rwa [Write.readBack, hkind, ← contentOffset_zero_add] at hback
  simp only [Trajectory.writes, List.forall_mem_cons, Trajectory.arrays_eq hts,
    forall_const] at hblob
  obtain ⟨htimestamps, hnumValues, hactuators, hvalues, -⟩ := hblob
  -- the number of timepoints is in front of the fields
  have hcount : mem'.readWord 4 (Messages.contentOffset header 0) = t.timepoints.length := by
    have hstruct : mem'.read (Messages.contentOffset header 0) 4 =
        (struct.writeWord 4 0 t.timepoints.length).read 0 4 := by
      refine read_congr fun i hi ↦ ?_
      rw [contentOffset_zero_add, Nat.zero_add]
      refine hother i (hi.trans (by decide)) fun w hw ↦ Or.inl ?_
      exact hi.trans_le (Trajectory.field_of_mem_writes hw).1
    rw [readWord, hstruct]
    exact readWord_writeWord _ _ (by omega)
  refine ⟨?_, agrees_of_read_words htimestamps, ?_, agrees_of_read hactuators,
    agrees_of_read_words hvalues⟩
  · rw [TrajectoryCmd.readMsg, hcount, if_pos (by omega)]
  · intro i n hn
    rw [List.getElem?_map, Option.map_eq_some_iff] at hn
    obtain ⟨tp, htp, rfl⟩ := hn
    have hle := (hts tp (List.mem_of_getElem? htp)).length_le
    have hbyte : mem' _ = UInt8.ofNat tp.pairs.length :=
      agrees_of_read hnumValues i _ (by rw [List.getElem?_map, htp]; rfl)
    show (mem' _).toNat = tp.pairs.length
    rw [hbyte, UInt8.toNat_ofNat', tp.length_pairs]
    exact Nat.mod_eq_of_lt (by omega)

/-- **Trajectories survive.** The message of at most 255 timepoints, each with known actuators and
none of them twice, is packed, and the schedule of every copy of it carries the timepoints out, one
in each step. -/
theorem trajectory_survives {t : Trajectory} (hlen : t.timepoints.length ≤ 255)
    (hts : ∀ tp ∈ t.timepoints, tp.Proper) (al : t.Allocation) (struct mem : ByteMemory) :
    ∃ packed, t.pack al struct mem = some packed ∧ ∀ mem' header,
      mem'.read header (Messages.sizeOf packed al.header) =
          packed.read al.header (Messages.sizeOf packed al.header) →
        List.Forall₂ Issues t.timepoints
          (TrajectoryCmd.readMsg mem' (Messages.contentOffset header 0)).run := by
  have hsized := Trajectory.sized hlen hts
  have hsize : trajectoryCmdMsgSize + blockBytes (t.writes al) < 2 ^ 32 := by
    have hlt := @Trajectory.Sized.message_lt _ al hsized
    omega
  have hapart : (t.writes al).Pairwise fun w v ↦ Apart w.field 8 v.field 8 := by
    simp [Trajectory.writes, Apart]
  obtain ⟨b, hcalls, hb⟩ := (MessageBuilder.built_new (struct.writeWord 4 0 t.timepoints.length)
    trajectoryCmdMsgSize).foldlM (fun w hw ↦ (Trajectory.field_of_mem_writes hw).2) hapart
      (show 4 ≤ 16 by decide) hsize
  rw [List.nil_append] at hb
  refine ⟨_, by rw [hsized.pack_eq, hcalls]; rfl, fun mem' header hcopy ↦ ?_⟩
  have hdecodes := decodes_readMsg hlen hts hb hcopy
  have hle := Trajectory.length_flatMap_le hts
  exact hdecodes.run hts hlen (by omega)

/-- The head is moved twice, the second time with a hand. -/
def nod : Trajectory :=
  (Trajectory.new.add ((Timepoint.new 500#32).add 0 0x3F000000#32)).add
    (((Timepoint.new 900#32).add 7 0x3F800000#32).add 0 0#32)

/-- Room for the arrays and the message of `nod`. -/
def nodAllocation : nod.Allocation where
  timestamps := 100
  numValues := 120
  actuators := 130
  values := 140
  header := 200
  apart := by decide

theorem trajectory_survives_nod :
    ∃ packed, nod.pack nodAllocation (fun _ ↦ 255) (fun _ ↦ 0) = some packed ∧
      List.Forall₂ Issues nod.timepoints
        (TrajectoryCmd.readMsg packed (Messages.contentOffset 200 0)).run := by
  have hproper : ∀ tp ∈ nod.timepoints, tp.Proper := by
    intro tp htp
    obtain rfl | rfl : tp = (Timepoint.new 500#32).add 0 0x3F000000#32 ∨
        tp = ((Timepoint.new 900#32).add 7 0x3F800000#32).add 0 0#32 := by
      simpa [nod, Trajectory.add, Trajectory.new] using htp
    · exact ⟨by simp [Timepoint.add, Timepoint.new], by decide⟩
    · exact ⟨by simp [Timepoint.add, Timepoint.new], by decide⟩
  obtain ⟨packed, hpack, hcopy⟩ := trajectory_survives (show nod.timepoints.length ≤ 255 by decide)
    hproper nodAllocation (fun _ ↦ 255) (fun _ ↦ 0)
  exact ⟨packed, hpack, hcopy packed 200 rfl⟩

end Message

end Acting
