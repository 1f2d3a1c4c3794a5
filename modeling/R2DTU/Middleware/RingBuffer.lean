import R2DTU.Library.BoundedLoop
import R2DTU.Library.Machine
import R2DTU.Library.RingQueue
import Mathlib.Data.Int.Basic
import Mathlib.Data.Nat.Log
import Mathlib.Tactic.NormNum

/-!
# The ring buffer between threads

`RingBuffer` hands camera frames, percepts and sentences from one thread to another. Every member
locks the mutex, so a run is a sequence of calls. Its positions and its mask are 8-bit, and they go
round the mask and not the size: a buffer of `m + 1` slots uses `m` of them.

**What a put does** (`Follows.put`). The test for a full buffer compares the difference of the
positions with the mask, bit by bit. It fires exactly when the put position stands right before the
take position (`isFull_iff`) — and not across the wrap, when the take position is 0 and the put
position is the last one. There the put goes ahead, the positions meet, and what was held is lost.

**What is left of the queue.** A ring that is written without looking (`RingQueue`) does the same as
the buffer except for the puts that the test rejects. So nothing is read outside the vector or
divided by zero (`isSome_outputs_new`), and a run in which no put overruns the buffer is one of a
queue of `m - 1` elements (`outputs_eq_fifo`). But `m` puts on a new buffer always overrun it, and a
mask of `0` or `-1`, which is what sizes of 1 and from 129 on lead to, leaves no room at all:
`not_isBoundedFifo` is about every size.
-/

namespace Middleware

universe u

/-- The conversion to `int8_t`. -/
def castInt8 (x : ℤ) : ℤ := x.bmod 256

/-- `&` of two `int`s. -/
def intAnd (x y : ℤ) : ℤ := (BitVec.ofInt 32 x &&& BitVec.ofInt 32 y).toInt

/-- `RingBuffer`. The mutex and the condition variable are left out. -/
structure RingBuffer (α : Type u) where
  /-- One less than the size of the vector, in eight bits. -/
  mask : ℤ
  /-- The vector. -/
  buffer : List α
  /-- Where the next put goes. -/
  putPtr : ℤ
  /-- Where the next take is from. -/
  takePtr : ℤ

/-- A call; `put_all` and `take_all` are given and give lists. -/
inductive RingBuffer.Call (α : Type u)
  | put (val : α)
  | putAll (values : List α)
  | clear
  | tryTake
  | takeAll

namespace RingBuffer

variable {α : Type u}

/-- One round of the loop that looks for the power of two. -/
def powerStep (size power : ℕ) : ℕ ⊕ ℕ :=
  if power < size then Sum.inl (power * 2 % 2 ^ 64) else Sum.inr power

/-- The constructor for a `size_t`, with at most `fuel` rounds of its loop. The vector is taken to
find the memory it asks for. -/
def new [Inhabited α] (size fuel : ℕ) : Option (RingBuffer α) :=
  (BoundedLoop.run (powerStep size) fuel 1).map fun power ↦
    { mask := castInt8 (power - 1 : ℕ)
      buffer := List.replicate power default
      putPtr := 0
      takePtr := 0 }

/-- `(ptr + 1) % mask`, which is undefined for a mask of zero. -/
def advance (b : RingBuffer α) (ptr : ℤ) : Option ℤ :=
  if b.mask = 0 then none else some (castInt8 ((ptr + 1).tmod b.mask))

/-- `((put_ptr - take_ptr) & mask) == mask`. -/
def isFull (b : RingBuffer α) : Bool := intAnd (b.putPtr - b.takePtr) b.mask = b.mask

/-- `buffer[ptr]`, which is undefined outside the vector. -/
def slot (b : RingBuffer α) (ptr : ℤ) : Option α := if ptr < 0 then none else b.buffer[ptr.toNat]?

/-- `put_unsafe`: a value goes to the slot of the next put, and is dropped when the buffer is
full. -/
def putUnsafe (b : RingBuffer α) (val : α) : Option (RingBuffer α) :=
  if b.isFull then some b
  else (b.slot b.putPtr).bind fun _ ↦ (b.advance b.putPtr).map fun ptr ↦
    { b with buffer := b.buffer.set b.putPtr.toNat val, putPtr := ptr }

/-- `put_all`: values are put one after the other. -/
def putAll (b : RingBuffer α) (values : List α) : Option (RingBuffer α) :=
  values.foldlM putUnsafe b

/-- `clear`: what has not been taken is forgotten. -/
def clear (b : RingBuffer α) : RingBuffer α := { b with takePtr := b.putPtr }

/-- `try_take`: the element, if there is one, and the buffer afterwards. -/
def tryTake (b : RingBuffer α) : Option (Option α × RingBuffer α) :=
  if b.takePtr = b.putPtr then some (none, b)
  else (b.slot b.takePtr).bind fun val ↦ (b.advance b.takePtr).map fun ptr ↦
    (some val, { b with takePtr := ptr })

/-- One round of the loop of `take_all`, with the values taken so far. -/
def takeAllStep (st : List α × RingBuffer α) :
    (List α × RingBuffer α) ⊕ Option (List α × RingBuffer α) :=
  match st.2.tryTake with
  | none => Sum.inr none
  | some (none, b) => Sum.inr (some (st.1, b))
  | some (some val, b) => Sum.inl (st.1 ++ [val], b)

/-- `take_all`. No more than 256 rounds lead a position round the ring. -/
def takeAll (b : RingBuffer α) : Option (List α × RingBuffer α) :=
  (BoundedLoop.run takeAllStep 256 ([], b)).join

/-- A call, with what it hands out. `none` is undefined behaviour. -/
def call (b : RingBuffer α) : Call α → Option (List α × RingBuffer α)
  | .put val => (b.putUnsafe val).map ([], ·)
  | .putAll values => (b.putAll values).map ([], ·)
  | .clear => some ([], b.clear)
  | .tryTake => b.tryTake.map fun r ↦ (r.1.toList, r.2)
  | .takeAll => b.takeAll

end RingBuffer

/-! ### Bounded queues -/

namespace Fifo

variable {α : Type u}

/-- A put on a queue of at most `capacity` elements. -/
def put (capacity : ℕ) (q : List α) (val : α) : List α :=
  if q.length < capacity then q ++ [val] else q

/-- A call on such a queue, with what it hands out. -/
def call (capacity : ℕ) (q : List α) : RingBuffer.Call α → Option (List α × List α)
  | .put val => some ([], put capacity q val)
  | .putAll values => some ([], values.foldl (put capacity) q)
  | .clear => some ([], [])
  | .tryTake => some (q.head?.toList, q.tail)
  | .takeAll => some (q, [])

end Fifo

/-- Buffers of the size behave as a queue of some capacity: the constructor returns, and every run
of calls hands out what it does on the queue. -/
def IsBoundedFifo (α : Type u) [Inhabited α] (size : ℕ) : Prop :=
  ∃ capacity ≥ 1, ∃ fuel b, RingBuffer.new (α := α) size fuel = some b ∧
    ∀ calls : List (RingBuffer.Call α),
      Machine.outputs RingBuffer.call b calls = Machine.outputs (Fifo.call capacity) [] calls

namespace RingBuffer

variable {α : Type u}

/-! ### The constructor -/

/-- The loop stays on powers of two until the size is out of reach. -/
theorem power_of_run {size fuel power : ℕ}
    (h : BoundedLoop.run (powerStep size) fuel 1 = some power) :
    ∃ k ≤ 63, power = 2 ^ k ∧ size ≤ 2 ^ k := by
  refine @BoundedLoop.run_induct _ _ (powerStep size)
    (fun power ↦ (∃ k ≤ 63, power = 2 ^ k) ∨ (power = 0 ∧ 0 < size))
    (fun power ↦ ∃ k ≤ 63, power = 2 ^ k ∧ size ≤ 2 ^ k) ?_ ?_ _ _ _
    (Or.inl ⟨0, by omega, rfl⟩) h
  · intro power power' hinv hb
    rw [powerStep] at hb
    split_ifs at hb with hlt
    obtain rfl := Sum.inl.inj hb
    rcases hinv with ⟨k, hk, rfl⟩ | ⟨rfl, hpos⟩
    · rcases hk.lt_or_eq with hk | rfl
      · refine Or.inl ⟨k + 1, hk, ?_⟩
        rw [← Nat.pow_succ, Nat.mod_eq_of_lt (Nat.pow_lt_pow_right (by omega) (by omega))]
      · exact Or.inr ⟨by norm_num, by omega⟩
    · exact Or.inr ⟨rfl, hpos⟩
  · intro power power' hinv hb
    rw [powerStep] at hb
    split_ifs at hb with hlt
    obtain rfl := Sum.inr.inj hb
    rcases hinv with ⟨k, hk, rfl⟩ | ⟨rfl, hpos⟩
    · exact ⟨k, hk, rfl, Nat.le_of_not_lt hlt⟩
    · exact absurd hpos hlt

/-- The constructor returns for the sizes of which there is a power of two in a `size_t`. -/
theorem exists_new [Inhabited α] {size : ℕ} (h : size ≤ 2 ^ 63) :
    ∃ fuel b, new (α := α) size fuel = some b := by
  obtain ⟨power, hrun, -⟩ := @BoundedLoop.run_total _ _ (powerStep size)
    (fun power ↦ 0 < power ∧ power < 2 ^ 64) (fun _ ↦ True) (fun power ↦ size - power)
    (by
      intro power power' hinv hb
      rw [powerStep] at hb
      split_ifs at hb with hlt
      obtain rfl := Sum.inl.inj hb
      rw [Nat.mod_eq_of_lt (by omega)]
      omega)
    (fun _ _ ↦ trivial) (size + 1) 1 ⟨by omega, by norm_num⟩ (by omega)
  exact ⟨size + 1, _, congrArg (Option.map _) hrun⟩

theorem castInt8_power : ∀ k < 64, castInt8 ((2 ^ k - 1 : ℕ) : ℤ) =
    if k < 8 then ((2 ^ k - 1 : ℕ) : ℤ) else -1 := by
  decide

/-- The masks for which there is a ring to go round. -/
def rings : List ℕ := [1, 3, 7, 15, 31, 63, 127]

/-- The positions go round `m` slots. A mask of `-1` divides everything, as `1` does. -/
def GoesRound (m : ℕ) (mask : ℤ) : Prop := m ∈ rings ∧ (mask = m ∨ (m = 1 ∧ mask = -1))

theorem power_mem_rings : ∀ k < 8, 0 < k → 2 ^ k - 1 ∈ rings := by decide

/-- **New buffers** have a mask of zero or a ring to go round, and are empty. -/
theorem new_cases [Inhabited α] {size fuel : ℕ} {b : RingBuffer α} (h : new size fuel = some b) :
    b.putPtr = 0 ∧ b.takePtr = 0 ∧
      (b.mask = 0 ∨ ∃ m, GoesRound m b.mask ∧ m ≤ b.buffer.length) := by
  obtain ⟨power, hrun, rfl⟩ := Option.map_eq_some_iff.1 h
  obtain ⟨k, hk, rfl, -⟩ := power_of_run hrun
  refine ⟨rfl, rfl, ?_⟩
  simp only [castInt8_power k (Nat.lt_succ_of_le hk), List.length_replicate]
  split_ifs with hlt
  · rcases Nat.eq_zero_or_pos k with rfl | hpos
    · exact Or.inl rfl
    · exact Or.inr ⟨2 ^ k - 1, ⟨power_mem_rings k hlt hpos, Or.inl rfl⟩, Nat.sub_le ..⟩
  · exact Or.inr ⟨1, ⟨by decide, Or.inr ⟨rfl, rfl⟩⟩, Nat.one_le_two_pow⟩

/-! ### The arithmetic of a ring -/

theorem rings_pos : ∀ m ∈ rings, 0 < m := by decide

theorem rings_le : ∀ m ∈ rings, m ≤ 127 := by decide

/-- The test, for a difference of `d - m`. -/
theorem intAnd_eq_iff : ∀ m ∈ rings, ∀ d < 2 * m,
    (intAnd ((d : ℤ) - m) m = m ↔ d + 1 = m) := by
  decide +kernel

section Ring

variable {m : ℕ} {b : RingBuffer α}

/-- **The test for a full buffer** fires when the put position is right before the take position. -/
theorem isFull_iff (hm : GoesRound m b.mask) {p t : ℕ} (hp : p < m) (ht : t < m)
    (hput : b.putPtr = p) (htake : b.takePtr = t) : b.isFull = true ↔ p + 1 = t := by
  rw [isFull, decide_eq_true_eq, hput, htake]
  obtain ⟨hring, hmask | ⟨rfl, hmask⟩⟩ := hm
  · have hd := intAnd_eq_iff m hring (p + m - t) (by omega)
    rw [show ((p + m - t : ℕ) : ℤ) - m = (p : ℤ) - t by omega] at hd
    rw [hmask, hd]
    omega
  · obtain rfl : p = 0 := by omega
    obtain rfl : t = 0 := by omega
    rw [hmask]
    decide

/-- Positions advance round the ring, and never by dividing by zero. -/
theorem advance_eq (hm : GoesRound m b.mask) {p : ℕ} (hp : p < m) :
    b.advance p = some (((p + 1) % m : ℕ) : ℤ) := by
  have hpos := rings_pos m hm.1
  have hle := rings_le m hm.1
  have hsmall : ∀ k : ℕ, k < m → castInt8 (k : ℤ) = k := by
    intro k hk
    rw [castInt8, Int.bmod_def]
    omega
  have htmod : ((p : ℤ) + 1).tmod b.mask = ((p + 1) % m : ℕ) := by
    rcases hm.2 with hmask | ⟨rfl, hmask⟩
    · rw [hmask]
      rfl
    · rw [hmask, Int.tmod_neg, Int.tmod_one, Nat.mod_one]
      rfl
  have hne : b.mask ≠ 0 := by
    rcases hm.2 with hmask | ⟨-, hmask⟩ <;> omega
  rw [advance, if_neg hne, htmod, hsmall _ (Nat.mod_lt _ hpos)]

/-! ### What the calls do -/

/-- The buffer stands where the ring `q` does and has its elements. -/
structure Follows (b : RingBuffer α) (q : RingQueue α m) : Prop where
  goesRound : GoesRound m b.mask
  length_le : m ≤ b.buffer.length
  put_eq : b.putPtr = q.head
  take_eq : b.takePtr = q.tail
  agrees {j : ℕ} {a : α} (h : q.slots j = some a) : b.buffer[j]? = some a

/-- What a put does to the ring: nothing right before the tail. -/
def ringPut (q : RingQueue α m) (val : α) : RingQueue α m :=
  if q.head + 1 = q.tail then q else q.put val

variable {q : RingQueue α m}

theorem slot_natCast (b : RingBuffer α) (p : ℕ) : b.slot p = b.buffer[p]? := by
  rw [slot, if_neg (Int.not_lt.2 (Int.natCast_nonneg p)), Int.toNat_natCast]

/-- **What a put does.** -/
theorem Follows.put (h : b.Follows q) (val : α) :
    ∃ b', b.putUnsafe val = some b' ∧ b'.Follows (ringPut q val) := by
  have hfull := isFull_iff h.goesRound q.head_lt q.tail_lt h.put_eq h.take_eq
  rw [ringPut, putUnsafe]
  by_cases hat : q.head + 1 = q.tail
  · rw [if_pos (hfull.2 hat), if_pos hat]
    exact ⟨b, rfl, h⟩
  · rw [if_neg fun hf ↦ hat (hfull.1 hf), if_neg hat]
    have hlt : q.head < b.buffer.length := q.head_lt.trans_le h.length_le
    refine ⟨{ b with
      buffer := b.buffer.set q.head val
      putPtr := ((q.head + 1) % m : ℕ) }, ?_, ?_⟩
    · rw [h.put_eq, slot_natCast, List.getElem?_eq_getElem hlt, Option.bind_some,
        advance_eq h.goesRound q.head_lt, Option.map_some, Int.toNat_natCast]
    · refine ⟨h.goesRound, (List.length_set).symm ▸ h.length_le, rfl, h.take_eq, fun {j a} hj ↦ ?_⟩
      change Function.update q.slots q.head (some val) j = some a at hj
      show (b.buffer.set q.head val)[j]? = some a
      rw [Function.update_apply] at hj
      split_ifs at hj with heq
      · rw [heq, List.getElem?_set_self hlt, hj]
      · rw [List.getElem?_set_ne (Ne.symm heq)]
        exact h.agrees hj

theorem Follows.putAll (h : b.Follows q) (values : List α) :
    ∃ b', b.putAll values = some b' ∧ b'.Follows (values.foldl ringPut q) := by
  induction values generalizing b q with
  | nil => exact ⟨b, rfl, h⟩
  | cons val values ih =>
    obtain ⟨b₁, hput, h₁⟩ := h.put val
    obtain ⟨b', hall, h'⟩ := ih h₁
    refine ⟨b', ?_, h'⟩
    rw [RingBuffer.putAll, List.foldlM_cons, hput]
    exact hall

theorem Follows.clear (h : b.Follows q) : b.clear.Follows q.clear :=
  { h with take_eq := h.put_eq }

/-- **What a take does**: it reads the ring. -/
theorem Follows.tryTake (h : b.Follows q) :
    (q.get = none ∧ q.pending = [] ∧ b.tryTake = some (none, b)) ∨
      ∃ a q' b', q.get = some (a, q') ∧ q.pending = a :: q'.pending ∧
        b.tryTake = some (some a, b') ∧ b'.Follows q' := by
  rcases q.get_cases with ⟨hget, hnil⟩ | ⟨a, q', hget, hcons⟩
  · have heq := RingQueue.get_eq_none_iff.1 hget
    refine Or.inl ⟨hget, hnil, ?_⟩
    rw [RingBuffer.tryTake, h.take_eq, h.put_eq, if_pos (congrArg _ heq)]
  · obtain ⟨hne, rfl, hslot⟩ := RingQueue.get_eq_some hget
    refine Or.inr ⟨a, _, { b with takePtr := ((q.tail + 1) % m : ℕ) }, hget, hcons, ?_, ?_⟩
    · rw [RingBuffer.tryTake, if_neg, h.take_eq, slot_natCast, h.agrees hslot, Option.bind_some,
        advance_eq h.goesRound q.tail_lt, Option.map_some]
      rw [h.take_eq, h.put_eq]
      exact fun heq ↦ hne (Int.natCast_inj.1 heq)
    · refine ⟨h.goesRound, h.length_le, h.put_eq, rfl, fun {j a'} hj ↦ ?_⟩
      change Function.update q.slots q.tail none j = some a' at hj
      rw [Function.update_apply] at hj
      split_ifs at hj
      exact h.agrees hj

/-- The loop of `take_all` drains the ring. -/
theorem Follows.run_takeAllStep {fuel : ℕ} (h : b.Follows q) (hle : q.pending.length ≤ fuel)
    (values : List α) :
    ∃ b', BoundedLoop.run takeAllStep (fuel + 1) (values, b) =
        some (some (values ++ (RingQueue.drain fuel q).1, b')) ∧
      b'.Follows (RingQueue.drain fuel q).2 := by
  induction fuel generalizing b q values with
  | zero =>
    rcases h.tryTake with ⟨-, -, htake⟩ | ⟨a, q', b', -, hcons, -, -⟩
    · refine ⟨b, BoundedLoop.run_succ_of_inr ?_ _, h⟩
      simp only [takeAllStep, htake, RingQueue.drain, List.append_nil]
    · rw [hcons] at hle
      exact absurd hle (Nat.not_succ_le_zero _)
  | succ fuel ih =>
    rcases h.tryTake with ⟨hget, -, htake⟩ | ⟨a, q', b', hget, hcons, htake, h'⟩
    · refine ⟨b, BoundedLoop.run_succ_of_inr ?_ _, ?_⟩
      · simp only [takeAllStep, htake, RingQueue.drain, hget, List.append_nil]
      · simpa only [RingQueue.drain, hget] using h
    · rw [hcons, List.length_cons] at hle
      obtain ⟨b'', hrun, h''⟩ := ih h' (Nat.le_of_succ_le_succ hle) (values ++ [a])
      have hround : takeAllStep (values, b) = Sum.inl (values ++ [a], b') := by
        simp only [takeAllStep, htake]
      refine ⟨b'', ?_, ?_⟩
      · rw [BoundedLoop.run_succ_of_inl hround, hrun]
        simp only [RingQueue.drain, hget, List.append_assoc, List.singleton_append]
      · simpa only [RingQueue.drain, hget] using h''

theorem Follows.takeAll (h : b.Follows q) :
    ∃ (b' : RingBuffer α) (q' : RingQueue α m),
      b.takeAll = some (q.pending, b') ∧ b'.Follows q' ∧ q'.pending = [] := by
  have hle : q.pending.length ≤ 255 := by
    have hm := rings_le m h.goesRound.1
    have hlt := q.count_lt
    rw [RingQueue.length_pending]
    omega
  obtain ⟨hfst, hsnd⟩ := RingQueue.drain_eq q hle
  obtain ⟨b', hrun, h'⟩ := h.run_takeAllStep hle []
  refine ⟨b', _, ?_, h', hsnd⟩
  rw [RingBuffer.takeAll, hrun, List.nil_append, hfst]
  rfl

/-- No call is undefined. -/
theorem Follows.call (h : b.Follows q) (c : Call α) :
    ∃ out b', b.call c = some (out, b') ∧ ∃ q' : RingQueue α m, b'.Follows q' := by
  rcases c with val | values | _ | _ | _
  · obtain ⟨b', hput, h'⟩ := h.put val
    exact ⟨[], b', congrArg (Option.map _) hput, _, h'⟩
  · obtain ⟨b', hput, h'⟩ := h.putAll values
    exact ⟨[], b', congrArg (Option.map _) hput, _, h'⟩
  · exact ⟨[], _, rfl, _, h.clear⟩
  · rcases h.tryTake with ⟨-, -, htake⟩ | ⟨a, q', b', -, -, htake, h'⟩
    · exact ⟨_, b, congrArg (Option.map _) htake, q, h⟩
    · exact ⟨_, b', congrArg (Option.map _) htake, q', h'⟩
  · obtain ⟨b', q', htake, h', -⟩ := h.takeAll
    exact ⟨_, b', htake, q', h'⟩

/-! ### Overrunning -/

/-- The put position is the last one and the take position the first. -/
def Overruns (m : ℕ) (b : RingBuffer α) : Prop := b.takePtr = 0 ∧ b.putPtr + 1 = m

theorem Follows.overruns_iff (h : b.Follows q) :
    b.Overruns m ↔ q.tail = 0 ∧ q.head + 1 = m := by
  rw [Overruns, h.put_eq, h.take_eq]
  omega

/-- There are `m - 1` elements exactly when the put position is before the take position, across the
wrap or not. -/
theorem length_pending_succ_eq_iff (q : RingQueue α m) :
    q.pending.length + 1 = m ↔ q.head + 1 = q.tail ∨ (q.tail = 0 ∧ q.head + 1 = m) := by
  have hh := q.head_lt
  have ht := q.tail_lt
  rw [RingQueue.length_pending, RingQueue.count, ringCount]
  rcases Nat.lt_or_ge q.head q.tail with hlt | hge
  · rw [Nat.mod_eq_of_lt (by omega)]
    omega
  · rw [show q.head + m - q.tail = q.head - q.tail + m by omega, Nat.add_mod_right,
      Nat.mod_eq_of_lt (by omega)]
    omega

/-- **Puts and the elements held**: a put appends its element, a put on `m - 1` elements is ignored
— or loses all of them. -/
theorem pending_ringPut (q : RingQueue α m) (val : α) :
    (ringPut q val).pending =
      if q.tail = 0 ∧ q.head + 1 = m then []
      else if q.pending.length + 1 = m then q.pending else q.pending ++ [val] := by
  have hiff := length_pending_succ_eq_iff q
  rw [ringPut]
  split_ifs with hat hover hfull hover hfull
  · omega
  · rfl
  · exact absurd (hiff.2 (Or.inl hat)) hfull
  · rw [RingQueue.pending_put, if_pos (hiff.2 (Or.inr hover))]
  · exact absurd (hiff.1 hfull) (by tauto)
  · rw [RingQueue.pending_put, if_neg hfull]

/-- A put that does not overrun the buffer is a put on a queue of `m - 1` elements. -/
theorem pending_ringPut_of_not_overrun {val : α} (hover : ¬ (q.tail = 0 ∧ q.head + 1 = m)) :
    (ringPut q val).pending = Fifo.put (m - 1) q.pending val := by
  have hlt := q.count_lt
  rw [← RingQueue.length_pending] at hlt
  rw [pending_ringPut, if_neg hover, Fifo.put]
  split_ifs with hfull hroom hroom
  · omega
  · rfl
  · rfl
  · omega

/-- No put of the call overruns the buffer. -/
def Spared (m : ℕ) (b : RingBuffer α) : Call α → Prop
  | .put _ => ¬ b.Overruns m
  | .putAll values => ∀ before val after b', values = before ++ val :: after →
      b.putAll before = some b' → ¬ b'.Overruns m
  | .clear | .tryTake | .takeAll => True

theorem Follows.putAll_of_spared (h : b.Follows q) {values : List α}
    (hs : b.Spared m (.putAll values)) :
    (values.foldl ringPut q).pending = values.foldl (Fifo.put (m - 1)) q.pending := by
  induction values generalizing b q with
  | nil => rfl
  | cons val values ih =>
    obtain ⟨b₁, hput, h₁⟩ := h.put val
    have hfirst : ¬ b.Overruns m := hs [] val values b rfl rfl
    rw [h.overruns_iff] at hfirst
    rw [List.foldl_cons, List.foldl_cons, ← pending_ringPut_of_not_overrun hfirst]
    refine ih h₁ fun before v after b' hsplit hb' ↦ hs (val :: before) v after b' ?_ ?_
    · rw [hsplit, List.cons_append]
    · rw [RingBuffer.putAll, List.foldlM_cons, hput]
      exact hb'

/-- **A call that overruns nothing** is a call on the queue. -/
theorem Follows.call_of_spared (h : b.Follows q) {c : Call α} (hs : b.Spared m c) :
    ∃ (out : List α) (b' : RingBuffer α) (q' : RingQueue α m), b.call c = some (out, b') ∧
      Fifo.call (m - 1) q.pending c = some (out, q'.pending) ∧ b'.Follows q' := by
  rcases c with val | values | _ | _ | _
  · obtain ⟨b', hput, h'⟩ := h.put val
    refine ⟨[], b', _, congrArg (Option.map _) hput, ?_, h'⟩
    rw [pending_ringPut_of_not_overrun fun hover ↦ hs (h.overruns_iff.2 hover)]
    rfl
  · obtain ⟨b', hput, h'⟩ := h.putAll values
    refine ⟨[], b', _, congrArg (Option.map _) hput, ?_, h'⟩
    rw [h.putAll_of_spared hs]
    rfl
  · exact ⟨[], _, _, rfl, by rw [RingQueue.pending_clear]; rfl, h.clear⟩
  · rcases h.tryTake with ⟨-, hnil, htake⟩ | ⟨a, q', b', -, hcons, htake, h'⟩
    · exact ⟨_, b, q, congrArg (Option.map _) htake, by rw [hnil]; rfl, h⟩
    · exact ⟨_, b', q', congrArg (Option.map _) htake, by rw [hcons]; rfl, h'⟩
  · obtain ⟨b', q', htake, h', hnil⟩ := h.takeAll
    exact ⟨_, b', q', htake, by rw [hnil]; rfl, h'⟩

/-- **Runs that overrun nothing** are runs of a queue with room for one element less than there are
slots in the ring. -/
theorem outputs_eq_fifo (h : b.Follows q) {calls : List (Call α)}
    (hs : Machine.Guarded RingBuffer.call (Spared m) b calls) :
    Machine.outputs RingBuffer.call b calls =
      Machine.outputs (Fifo.call (m - 1)) q.pending calls := by
  refine @Machine.outputs_eq _ _ _ _ RingBuffer.call (Fifo.call (m - 1))
    (fun b xs ↦ ∃ q : RingQueue α m, b.Follows q ∧ q.pending = xs) (Spared m) ?_ _ _ _
    ⟨q, h, rfl⟩ hs
  rintro b xs c ⟨q, hq, rfl⟩ hguard
  obtain ⟨out, b', q', hcall, hfifo, hq'⟩ := hq.call_of_spared hguard
  exact ⟨out, b', q'.pending, hcall, hfifo, q', hq', rfl⟩

/-- As many puts as there are slots come back to the first position. -/
theorem Follows.putAll_replicate (h : b.Follows q) (htail : q.tail = 0) (hhead : q.head = 0)
    (val : α) (n : ℕ) :
    ((List.replicate n val).foldl ringPut q).tail = 0 ∧
      ((List.replicate n val).foldl ringPut q).head = n % m := by
  have hpos := rings_pos m h.goesRound.1
  induction n with
  | zero => exact ⟨htail, by rw [Nat.zero_mod]; exact hhead⟩
  | succ n ih =>
    rw [List.replicate_succ', List.foldl_append]
    generalize (List.replicate n val).foldl ringPut q = r at ih
    obtain ⟨ht, hh⟩ := ih
    have hne : r.head + 1 ≠ r.tail := by omega
    have hput : [val].foldl ringPut r = r.put val := if_neg hne
    rw [hput]
    refine ⟨ht, ?_⟩
    show (r.head + 1) % m = (n + 1) % m
    rw [hh, Nat.mod_add_mod]

end Ring

/-! ### Runs of a new buffer -/

section New

variable {b : RingBuffer α}

/-- A buffer without a ring: the test always fires. -/
structure Idle (b : RingBuffer α) : Prop where
  mask_eq : b.mask = 0
  put_eq : b.putPtr = 0
  take_eq : b.takePtr = 0

theorem Idle.putUnsafe (h : b.Idle) (val : α) : b.putUnsafe val = some b := by
  refine if_pos ?_
  rw [isFull, h.mask_eq, h.put_eq, h.take_eq]
  rfl

theorem Idle.putAll (h : b.Idle) (values : List α) : b.putAll values = some b := by
  induction values with
  | nil => rfl
  | cons val values ih =>
    rw [RingBuffer.putAll, List.foldlM_cons, h.putUnsafe]
    exact ih

theorem Idle.tryTake (h : b.Idle) : b.tryTake = some (none, b) :=
  if_pos (h.take_eq.trans h.put_eq.symm)

theorem Idle.call (h : b.Idle) (c : Call α) :
    ∃ out b', b.call c = some (out, b') ∧ b'.Idle := by
  rcases c with val | values | _ | _ | _
  · exact ⟨[], b, congrArg (Option.map _) (h.putUnsafe val), h⟩
  · exact ⟨[], b, congrArg (Option.map _) (h.putAll values), h⟩
  · exact ⟨[], _, rfl, ⟨h.mask_eq, h.put_eq, h.put_eq⟩⟩
  · exact ⟨[], b, congrArg (Option.map _) h.tryTake, h⟩
  · have hround : takeAllStep ([], b) = Sum.inr (some ([], b)) := by
      simp only [takeAllStep, h.tryTake]
    exact ⟨[], b, congrArg Option.join (BoundedLoop.run_succ_of_inr hround _), h⟩

variable [Inhabited α] {size fuel : ℕ}

/-- A new buffer does nothing or follows an empty ring. -/
theorem follows_of_new (h : new size fuel = some b) :
    b.Idle ∨ ∃ (m : ℕ) (hm : 0 < m), b.Follows (RingQueue.empty hm) := by
  obtain ⟨hput, htake, hmask | ⟨m, hm, hle⟩⟩ := new_cases h
  · exact Or.inl ⟨hmask, hput, htake⟩
  · exact Or.inr ⟨m, rings_pos m hm.1, hm, hle, hput, htake, nofun⟩

/-- **Nothing undefined.** No run of calls divides by zero or leaves the vector. -/
theorem isSome_outputs_new (h : new size fuel = some b) (calls : List (Call α)) :
    (Machine.outputs RingBuffer.call b calls).isSome := by
  rcases follows_of_new h with hidle | ⟨m, hm, hf⟩
  · exact Machine.isSome_outputs (fun c hs ↦ hs.call c) hidle calls
  · refine @Machine.isSome_outputs _ _ _ RingBuffer.call
      (fun b ↦ ∃ q : RingQueue α m, b.Follows q) (fun c hs ↦ ?_) b ⟨_, hf⟩ calls
    obtain ⟨q, hq⟩ := hs
    exact hq.call c

/-- **Some number of puts** on a new buffer leaves it empty. -/
theorem exists_lost (h : new size fuel = some b) (val : α) :
    ∃ n ≥ 1, Machine.outputs RingBuffer.call b [.putAll (List.replicate n val), .tryTake] =
      some [[], []] := by
  have hlost : ∀ n b', b.putAll (List.replicate n val) = some b' →
      b'.tryTake = some (none, b') →
      Machine.outputs RingBuffer.call b [.putAll (List.replicate n val), .tryTake] =
        some [[], []] := by
    intro n b' hput htake
    have hfirst : b.call (.putAll (List.replicate n val)) = some ([], b') :=
      congrArg (Option.map _) hput
    have hsecond : b'.call .tryTake = some ([], b') := congrArg (Option.map _) htake
    rw [Machine.outputs_cons hfirst, Machine.outputs_cons hsecond]
    rfl
  rcases follows_of_new h with hidle | ⟨m, hm, hf⟩
  · exact ⟨1, le_rfl, hlost 1 b (hidle.putAll _) hidle.tryTake⟩
  · obtain ⟨b', hput, h'⟩ := hf.putAll (List.replicate m val)
    obtain ⟨htail, hhead⟩ := hf.putAll_replicate rfl rfl val m
    rw [Nat.mod_self] at hhead
    have hget := RingQueue.get_eq_none_iff.2 (htail.trans hhead.symm)
    rcases h'.tryTake with ⟨-, -, htake⟩ | ⟨a, q', -, hget', -⟩
    · exact ⟨m, hm, hlost m b' hput htake⟩
    · exact absurd (hget'.symm.trans hget) (Option.some_ne_none _)

end New

end RingBuffer

/-! ### No queue -/

namespace Fifo

variable {α : Type u} {capacity : ℕ}

/-- Puts leave the oldest element where it is. -/
theorem head?_foldl_put {q : List α} {a : α} (h : q.head? = some a) (values : List α) :
    (values.foldl (put capacity) q).head? = some a := by
  induction values generalizing q with
  | nil => exact h
  | cons val values ih =>
    refine ih ?_
    rw [put]
    split_ifs
    · rw [List.head?_append, h, Option.some_or]
    · exact h

/-- The first of some elements put on an empty queue is the first one taken. -/
theorem outputs_putAll_tryTake (hc : 1 ≤ capacity) (val : α) (values : List α) :
    Machine.outputs (call capacity) [] [.putAll (val :: values), .tryTake] = some [[], [val]] := by
  have hfirst : put capacity [] val = [val] := if_pos hc
  have hhead := @head?_foldl_put α capacity [val] val rfl values
  rw [← hfirst] at hhead
  have htake : Machine.outputs (call capacity) [] [.putAll (val :: values), .tryTake] =
      some [[], ((val :: values).foldl (put capacity) []).head?.toList] := rfl
  rw [htake, List.foldl_cons, hhead]
  rfl

end Fifo

/-- **No size gives a queue.** Whatever size is asked for and whatever capacity one has in mind,
some run of calls on the buffer does not hand out what it does on a queue. -/
theorem not_isBoundedFifo (α : Type u) [Inhabited α] (size : ℕ) : ¬ IsBoundedFifo α size := by
  rintro ⟨capacity, hc, fuel, b, hnew, houtputs⟩
  obtain ⟨n, hn, hlost⟩ := RingBuffer.exists_lost hnew default
  obtain ⟨k, rfl⟩ : ∃ k, n = k + 1 := ⟨n - 1, by omega⟩
  have htaken := Fifo.outputs_putAll_tryTake hc default (List.replicate k (default : α))
  rw [← List.replicate_succ, ← houtputs, hlost] at htaken
  exact absurd htaken (by simp)

/-- Three puts on a buffer of four slots: nothing is handed out. -/
theorem overrun_fourSlots :
    ((RingBuffer.new 4 3).bind fun b : RingBuffer ℕ ↦
        Machine.outputs RingBuffer.call b [.put 1, .put 2, .put 3, .tryTake]) =
        some [[], [], [], []] ∧
      ∀ capacity ≥ 1, Machine.outputs (Fifo.call capacity) []
        [.put 1, .put 2, .put 3, .tryTake] ≠ some [[], [], [], []] := by
  refine ⟨by decide +kernel, fun capacity hc heq ↦ ?_⟩
  have hfirst : Fifo.put capacity [] 1 = [1] := if_pos hc
  have hhead := @Fifo.head?_foldl_put ℕ capacity [1] 1 rfl [2, 3]
  rw [← hfirst] at hhead
  have htake : Machine.outputs (Fifo.call capacity) [] [.put 1, .put 2, .put 3, .tryTake] =
      some [[], [], [], ([2, 3].foldl (Fifo.put capacity) (Fifo.put capacity [] 1)).head?.toList] :=
    rfl
  rw [htake, hhead] at heq
  exact absurd heq (by simp)

end Middleware
