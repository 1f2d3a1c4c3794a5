import Mathlib.Data.List.Rotate
import Mathlib.Data.List.ReduceOption

/-!
# A ring of the most recent elements

A ring has a fixed number of slots, and each element that is pushed goes into the next slot, over
what is there. Read from the slot that is written next, it shows what was pushed last, the oldest
first, after as many empty slots as there were too few elements (`Shows`).

So the elements in the slots are the most recent ones, in the order of the slots
(`Shows.entries_perm`).
-/

universe u

/-- Slots that are written in turn. -/
structure RecentRing (α : Type u) (size : ℕ) where
  /-- The slots, which are empty at first. -/
  slots : List (Option α)
  /-- The slot that is written next. -/
  next : ℕ
  /-- The number of slots does not change. -/
  length_slots : slots.length = size
  /-- The next one is one of them. -/
  next_lt : next < size

/-- What is set at a position comes last when the list is read from behind it. -/
theorem List.rotate_succ_set {α : Type u} {l : List α} {n : ℕ} (h : n < l.length) (a : α) :
    (l.set n a).rotate (n + 1) = (l.rotate n).tail ++ [a] := by
  have hlength : (l.take n).length = n := List.length_take_of_le (Nat.le_of_lt h)
  have hset : l.set n a = l.take n ++ a :: l.drop (n + 1) := List.set_eq_take_append_cons_drop.trans
    (if_pos h)
  rw [List.rotate_eq_drop_append_take (by rwa [List.length_set]),
    List.rotate_eq_drop_append_take (Nat.le_of_lt h), hset, List.drop_eq_getElem_cons h,
    List.cons_append, List.tail_cons, List.append_assoc]
  have hdrop : (l.take n ++ a :: l.drop (n + 1)).drop (n + 1) = l.drop (n + 1) := by
    rw [← List.drop_drop, List.drop_left' hlength, List.drop_one, List.tail_cons]
  have htake : (l.take n ++ a :: l.drop (n + 1)).take (n + 1) = l.take n ++ [a] := by
    rw [List.take_append, hlength, List.take_of_length_le (by omega), Nat.add_sub_cancel_left]
    rfl
  rw [hdrop, htake]

namespace RecentRing

variable {α : Type u} {size : ℕ}

/-- All slots are empty. -/
def blank (h : 0 < size) : RecentRing α size :=
  ⟨List.replicate size none, 0, List.length_replicate, h⟩

/-- The next slot is written. -/
def push (r : RecentRing α size) (a : α) : RecentRing α size where
  slots := r.slots.set r.next (some a)
  next := (r.next + 1) % size
  length_slots := List.length_set.trans r.length_slots
  next_lt := Nat.mod_lt _ (Nat.zero_lt_of_lt r.next_lt)

/-- The elements in the slots. -/
def entries (r : RecentRing α size) : List α := r.slots.reduceOption

/-- The ring shows the last elements of a history. -/
def Shows (r : RecentRing α size) (history : List α) : Prop :=
  r.slots.rotate r.next = (List.replicate size none ++ history.map some).drop history.length

variable {r : RecentRing α size} {history : List α}

theorem shows_blank (h : 0 < size) : (blank h : RecentRing α size).Shows [] :=
  (List.rotate_zero _).trans (List.append_nil _).symm

theorem Shows.push (h : r.Shows history) (a : α) : (r.push a).Shows (history ++ [a]) := by
  have hnext : r.next < r.slots.length := r.next_lt.trans_eq r.length_slots.symm
  have hle : history.length + 1 ≤ (List.replicate size none ++ history.map some).length := by
    rw [List.length_append, List.length_replicate, List.length_map]
    have := r.next_lt
    omega
  have hrotate : (r.slots.set r.next (some a)).rotate ((r.next + 1) % size) =
      (r.slots.set r.next (some a)).rotate (r.next + 1) := by
    have hmod := List.rotate_mod (r.slots.set r.next (some a)) (r.next + 1)
    rwa [List.length_set, r.length_slots] at hmod
  rw [Shows, RecentRing.push, hrotate, List.rotate_succ_set hnext, h, List.tail_drop,
    List.map_append, ← List.append_assoc, List.length_append, List.length_singleton,
    List.drop_append_of_le_length hle]
  rfl

/-- **The most recent elements** are in the slots. -/
theorem Shows.entries_perm (h : r.Shows history) :
    r.entries.Perm (history.drop (history.length - size)) := by
  have hentries : r.entries.Perm (r.slots.rotate r.next).reduceOption :=
    (List.rotate_perm r.slots r.next).symm.filterMap id
  have hlast : ((List.replicate size (none : Option α) ++ history.map some).drop
      history.length).reduceOption = history.drop (history.length - size) := by
    rw [List.drop_append, List.length_replicate, List.reduceOption_append, List.drop_replicate,
      List.reduceOption_replicate_none, List.nil_append, ← List.map_drop, List.reduceOption,
      List.filterMap_map]
    exact List.filterMap_some
  rw [h, hlast] at hentries
  exact hentries

end RecentRing
