import Mathlib.Data.List.OfFn
import Mathlib.Data.Nat.ModEq
import Mathlib.Logic.Function.Basic

/-!
# A ring of slots that is written without looking

A queue of `size` slots with a position to write (`head`) and a position to read (`tail`). Reading
stops where the two meet. Writing does not look: a write that makes the positions meet leaves the
queue empty, and everything unread is lost.

The slots between `tail` and `head` are occupied, which is a field of the structure, so that reading
returns an element and not an empty slot. `pending` lists them in order, and `pending_put` and
`pending_get` say what the operations do to that list; nothing else about the slots is used outside
this module.
-/

universe u

/-- Where slot `k` of the ring that starts at `tail` is. -/
def ringSlot (size tail k : ℕ) : ℕ := (tail + k) % size

/-- How many slots there are from `tail` on before `head`. -/
def ringCount (size head tail : ℕ) : ℕ := (head + size - tail) % size

section Arithmetic

variable {size head tail : ℕ}

theorem ringSlot_inj {j k : ℕ} (hj : j < size) (hk : k < size)
    (h : ringSlot size tail j = ringSlot size tail k) : j = k :=
  (Nat.ModEq.add_left_cancel' tail h).eq_of_lt_of_lt hj hk

theorem ringSlot_ringCount (hh : head < size) (ht : tail < size) :
    ringSlot size tail (ringCount size head tail) = head := by
  rw [ringSlot, ringCount, Nat.add_mod_mod, show tail + (head + size - tail) = head + size by omega,
    Nat.add_mod_right, Nat.mod_eq_of_lt hh]

theorem ringCount_lt (hh : head < size) : ringCount size head tail < size :=
  Nat.mod_lt _ (by omega)

/-- The count is the one number of slots that leads from `tail` to `head`. -/
theorem ringCount_eq {k : ℕ} (hh : head < size) (ht : tail < size) (hk : k < size)
    (h : ringSlot size tail k = head) : ringCount size head tail = k :=
  ringSlot_inj (ringCount_lt hh) hk ((ringSlot_ringCount hh ht).trans h.symm)

/-- Advancing the write position. -/
theorem ringCount_succ_head (hh : head < size) (ht : tail < size) :
    ringCount size ((head + 1) % size) tail =
      if ringCount size head tail + 1 = size then 0 else ringCount size head tail + 1 := by
  have hlt : ringCount size head tail < size := ringCount_lt hh
  have hslot : ringSlot size tail (ringCount size head tail + 1) = (head + 1) % size := by
    conv_rhs => rw [← ringSlot_ringCount hh ht]
    rw [ringSlot, ringSlot, Nat.mod_add_mod, Nat.add_assoc]
  split_ifs with hfull
  · refine ringCount_eq (Nat.mod_lt _ (by omega)) ht (by omega) ?_
    rw [← hslot, hfull, ringSlot, ringSlot, Nat.add_zero, Nat.add_mod_right]
  · exact ringCount_eq (Nat.mod_lt _ (by omega)) ht (by omega) hslot

/-- Advancing the read position. -/
theorem ringCount_succ_tail (hh : head < size) (ht : tail < size)
    (hpos : 0 < ringCount size head tail) :
    ringCount size head ((tail + 1) % size) = ringCount size head tail - 1 := by
  have hlt : ringCount size head tail < size := ringCount_lt hh
  refine ringCount_eq hh (Nat.mod_lt _ (by omega)) (by omega) ?_
  conv_rhs => rw [← ringSlot_ringCount hh ht]
  rw [ringSlot, ringSlot, Nat.mod_add_mod]
  congr 1
  omega

theorem ringSlot_succ_tail (k : ℕ) :
    ringSlot size ((tail + 1) % size) k = ringSlot size tail (k + 1) := by
  rw [ringSlot, ringSlot, Nat.mod_add_mod]
  congr 1
  omega

theorem ringCount_pos (hh : head < size) (ht : tail < size) (hne : tail ≠ head) :
    0 < ringCount size head tail := by
  rw [Nat.pos_iff_ne_zero]
  intro hzero
  have hslot := ringSlot_ringCount hh ht
  rw [hzero, ringSlot, Nat.add_zero, Nat.mod_eq_of_lt ht] at hslot
  exact hne hslot

end Arithmetic

/-- A ring whose unread slots are occupied. -/
structure RingQueue (α : Type u) (size : ℕ) where
  /-- The slot that is written next. -/
  head : ℕ
  /-- The slot that is read next. -/
  tail : ℕ
  /-- What is in the slots. -/
  slots : ℕ → Option α
  /-- The head is in the ring. -/
  head_lt : head < size
  /-- So is the tail. -/
  tail_lt : tail < size
  /-- From the tail to the head the slots have elements. -/
  occupied : ∀ k < ringCount size head tail, (slots (ringSlot size tail k)).isSome

namespace RingQueue

variable {α : Type u} {size : ℕ}

/-- Both positions at the first slot, and nothing in the slots. -/
def empty (hsize : 0 < size) : RingQueue α size where
  head := 0
  tail := 0
  slots := fun _ ↦ none
  head_lt := hsize
  tail_lt := hsize
  occupied := fun k hk ↦ by
    rw [ringCount, Nat.zero_add, Nat.sub_zero, Nat.mod_self] at hk
    exact absurd hk (Nat.not_lt_zero k)

/-- The number of unread slots. -/
def count (q : RingQueue α size) : ℕ := ringCount size q.head q.tail

theorem count_lt (q : RingQueue α size) : q.count < size := ringCount_lt q.head_lt

/-- The unread elements in order. -/
def pending (q : RingQueue α size) : List α :=
  List.ofFn fun k : Fin q.count ↦ (q.slots (ringSlot size q.tail k)).get (q.occupied k k.2)

@[simp] theorem length_pending (q : RingQueue α size) : q.pending.length = q.count :=
  List.length_ofFn

/-- The `k`-th unread element is in slot `k` from the tail. -/
theorem getElem?_pending (q : RingQueue α size) {k : ℕ} (hk : k < q.count) :
    q.pending[k]? = q.slots (ringSlot size q.tail k) := by
  rw [pending, List.getElem?_ofFn, dif_pos hk, Option.some_get]

/-! ### Writing -/

/-- Write at the head and advance it. -/
def put (q : RingQueue α size) (a : α) : RingQueue α size where
  head := (q.head + 1) % size
  tail := q.tail
  slots := Function.update q.slots q.head (some a)
  head_lt := Nat.mod_lt _ (Nat.zero_lt_of_lt q.head_lt)
  tail_lt := q.tail_lt
  occupied := fun k hk ↦ by
    rw [Function.update_apply]
    split_ifs with hhead
    · rfl
    · refine q.occupied k ?_
      rw [ringCount_succ_head q.head_lt q.tail_lt] at hk
      have hslot := ringSlot_ringCount q.head_lt q.tail_lt
      split_ifs at hk with hfull
      · omega
      · rcases Nat.lt_succ_iff_lt_or_eq.1 hk with hlt | rfl
        · exact hlt
        · exact absurd hslot hhead

theorem count_put (q : RingQueue α size) (a : α) :
    (q.put a).count = if q.count + 1 = size then 0 else q.count + 1 :=
  ringCount_succ_head q.head_lt q.tail_lt

/-- **A write** appends, unless it makes the positions meet. -/
theorem pending_put (q : RingQueue α size) (a : α) :
    (q.put a).pending = if q.pending.length + 1 = size then [] else q.pending ++ [a] := by
  rw [length_pending]
  split_ifs with hfull
  · refine List.length_eq_zero_iff.1 ?_
    rw [length_pending, count_put, if_pos hfull]
  · have hcount : (q.put a).count = q.count + 1 := by rw [count_put, if_neg hfull]
    refine List.ext_getElem? fun k ↦ ?_
    rcases Nat.lt_or_ge k (q.count + 1) with hk | hk
    · rw [getElem?_pending _ (hcount ▸ hk)]
      show Function.update q.slots q.head (some a) (ringSlot size q.tail k) = _
      have hslot : ringSlot size q.tail q.count = q.head :=
        ringSlot_ringCount q.head_lt q.tail_lt
      rcases Nat.lt_succ_iff_lt_or_eq.1 hk with hlt | rfl
      · have hne : ringSlot size q.tail k ≠ q.head := fun he ↦
          Nat.ne_of_lt hlt (ringSlot_inj (hlt.trans q.count_lt) q.count_lt (he.trans hslot.symm))
        rw [Function.update_of_ne hne, List.getElem?_append_left (by rwa [length_pending]),
          getElem?_pending _ hlt]
      · rw [hslot, Function.update_self, List.getElem?_append_right (by rw [length_pending]),
          length_pending, Nat.sub_self, List.getElem?_cons_zero]
    · rw [List.getElem?_eq_none (by rwa [length_pending, hcount]),
        List.getElem?_eq_none (by rwa [List.length_append, length_pending, List.length_singleton])]

/-- Whatever is lost, a write never reorders or repeats. -/
theorem pending_put_sublist (q : RingQueue α size) (a : α) :
    (q.put a).pending.Sublist (q.pending ++ [a]) := by
  rw [pending_put]
  split_ifs
  · exact List.nil_sublist _
  · exact List.Sublist.refl _

/-! ### Reading -/

theorem ringSlot_succ_ne_tail (q : RingQueue α size) {k : ℕ} (hk : k + 1 < q.count) :
    ringSlot size q.tail (k + 1) ≠ q.tail := by
  intro he
  have hlt := q.count_lt
  refine Nat.succ_ne_zero k (@ringSlot_inj size q.tail _ _ (by omega) (by omega) (he.trans ?_))
  rw [ringSlot, Nat.add_zero, Nat.mod_eq_of_lt q.tail_lt]

/-- The queue after a read: the slot is cleared and the tail advanced. -/
def rest (q : RingQueue α size) (h : q.tail ≠ q.head) : RingQueue α size where
  head := q.head
  tail := (q.tail + 1) % size
  slots := Function.update q.slots q.tail none
  head_lt := q.head_lt
  tail_lt := Nat.mod_lt _ (Nat.zero_lt_of_lt q.head_lt)
  occupied := fun k hk ↦ by
    rw [ringCount_succ_tail q.head_lt q.tail_lt (ringCount_pos q.head_lt q.tail_lt h)] at hk
    have hk' : k + 1 < q.count := Nat.add_lt_of_lt_sub hk
    rw [ringSlot_succ_tail, Function.update_of_ne (q.ringSlot_succ_ne_tail hk')]
    exact q.occupied (k + 1) hk'

/-- Read at the tail, unless the positions meet. -/
def get (q : RingQueue α size) : Option (α × RingQueue α size) :=
  if h : q.tail = q.head then none
  else
    some ((q.slots (ringSlot size q.tail 0)).get
      (q.occupied 0 (ringCount_pos q.head_lt q.tail_lt h)), q.rest h)

theorem count_rest (q : RingQueue α size) (h : q.tail ≠ q.head) :
    (q.rest h).count = q.count - 1 :=
  ringCount_succ_tail q.head_lt q.tail_lt (ringCount_pos q.head_lt q.tail_lt h)

/-- **A read** takes the oldest unread one, and there is none exactly when the positions meet. -/
theorem get_cases (q : RingQueue α size) :
    (q.get = none ∧ q.pending = []) ∨
      ∃ a q', q.get = some (a, q') ∧ q.pending = a :: q'.pending := by
  by_cases h : q.tail = q.head
  · refine Or.inl ⟨dif_pos h, List.length_eq_zero_iff.1 ?_⟩
    rw [length_pending]
    refine ringCount_eq q.head_lt q.tail_lt (Nat.zero_lt_of_lt q.head_lt) ?_
    rw [ringSlot, Nat.add_zero, Nat.mod_eq_of_lt q.tail_lt, h]
  · have hpos : 0 < q.count := ringCount_pos q.head_lt q.tail_lt h
    refine Or.inr ⟨_, _, dif_neg h, List.ext_getElem? fun k ↦ ?_⟩
    cases k with
    | zero => rw [getElem?_pending _ hpos, List.getElem?_cons_zero, Option.some_get]
    | succ k =>
      have hcount := q.count_rest h
      rw [List.getElem?_cons_succ]
      rcases Nat.lt_or_ge (k + 1) q.count with hk | hk
      · rw [getElem?_pending _ hk, getElem?_pending _ (by omega)]
        show _ = Function.update q.slots q.tail none (ringSlot size ((q.tail + 1) % size) k)
        rw [ringSlot_succ_tail, Function.update_of_ne (q.ringSlot_succ_ne_tail hk)]
      · rw [List.getElem?_eq_none (by rwa [length_pending]),
          List.getElem?_eq_none (by rw [length_pending]; omega)]

theorem get_eq_some {q q' : RingQueue α size} {a : α} (h : q.get = some (a, q')) :
    ∃ hne : q.tail ≠ q.head, q' = q.rest hne ∧ q.slots q.tail = some a := by
  rw [get] at h
  split_ifs at h with heq
  obtain ⟨ha, hrest⟩ := Prod.mk.inj (Option.some.inj h)
  have hslot : ringSlot size q.tail 0 = q.tail := Nat.mod_eq_of_lt q.tail_lt
  refine ⟨heq, hrest.symm, ?_⟩
  rw [← ha, Option.some_get, hslot]

theorem get_eq_none_iff {q : RingQueue α size} : q.get = none ↔ q.tail = q.head := by
  rw [get]
  split_ifs with h
  · exact iff_of_true rfl h
  · exact iff_of_false nofun h

/-! ### Several reads -/

/-- Read until the positions meet, at most `fuel` times. -/
def drain : ℕ → RingQueue α size → List α × RingQueue α size
  | 0, q => ([], q)
  | fuel + 1, q =>
    match q.get with
    | none => ([], q)
    | some (a, q') => (a :: (drain fuel q').1, (drain fuel q').2)

/-- **Draining** reads everything when the fuel is at least the number of unread elements. -/
theorem drain_eq {fuel : ℕ} (q : RingQueue α size) (h : q.pending.length ≤ fuel) :
    (drain fuel q).1 = q.pending ∧ (drain fuel q).2.pending = [] := by
  induction fuel generalizing q with
  | zero =>
    have hnil : q.pending = [] := List.length_eq_zero_iff.1 (Nat.le_zero.1 h)
    exact ⟨hnil.symm, hnil⟩
  | succ fuel ih =>
    rcases q.get_cases with ⟨hget, hnil⟩ | ⟨a, q', hget, hcons⟩
    · simp only [drain, hget, hnil, and_self]
    · have hq' := ih q' (by
        rw [hcons, List.length_cons] at h
        exact Nat.le_of_succ_le_succ h)
      simp only [drain, hget, hq'.1, hq'.2, hcons, and_self]

/-- Give up what is unread: the tail moves to the head. -/
def clear (q : RingQueue α size) : RingQueue α size :=
  { q with
    tail := q.head
    tail_lt := q.head_lt
    occupied := fun k hk ↦ by
      rw [ringCount, Nat.add_sub_cancel_left, Nat.mod_self] at hk
      exact absurd hk (Nat.not_lt_zero k) }

@[simp] theorem pending_clear (q : RingQueue α size) : q.clear.pending = [] := by
  refine List.length_eq_zero_iff.1 ?_
  rw [length_pending]
  show ringCount size q.head q.head = 0
  rw [ringCount, Nat.add_sub_cancel_left, Nat.mod_self]

@[simp] theorem pending_empty (hsize : 0 < size) :
    (empty hsize : RingQueue α size).pending = [] := by
  refine List.length_eq_zero_iff.1 ?_
  rw [length_pending]
  show ringCount size 0 0 = 0
  rw [ringCount, Nat.zero_add, Nat.sub_zero, Nat.mod_self]

end RingQueue
