import Mathlib.Data.List.Basic

/-!
# A mailbox with room for one value

Two threads share a value and a flag. One posts: it writes the value and then raises the flag. The
other serves, again and again: it tests the flag, and when it is up it uses the value and then
lowers the flag. Nothing stops a post while the flag is up, and the steps of the two may come in
any order.

`Accounts` holds in every run. A use takes the value of the last post that was begun, so a value may
be used before its flag is raised, and then again. A post that is never used found the flag up when
it raised it, or the next one found it up when it wrote its value over. `InOrder` holds in the runs
in which no post starts while the flag is up: the values used are the values posted, in order and
each once, but for one that waits.
-/

universe u

namespace Mailbox

/-- Where the serving thread is: before the test, before the use, or before the flag is lowered. -/
inductive Phase
  | idle
  | serving
  | served
  deriving DecidableEq

/-- The mailbox and where the threads are, with a record of the values that were posted and used.
For each post it is recorded whether the flag was up when the value was written and when the flag
was raised, and for each use which post it took the value of. -/
structure State (α : Type u) where
  /-- The value that is to be used next. -/
  value : α
  /-- Whether the serving thread is to use it. -/
  flag : Bool
  /-- The value is written and the flag is not raised yet. -/
  posting : Bool
  /-- Where the serving thread is. -/
  phase : Phase
  /-- The values that were posted. -/
  posted : List α
  /-- The values that were used. -/
  used : List α
  /-- For each post that was begun, whether it found the flag up. -/
  upAtWrite : List Bool
  /-- For each post, whether the flag was up before it was raised. -/
  upAtRaise : List Bool
  /-- For each use, the number of the post whose value it took. -/
  usedPosts : List ℕ

variable {α : Type u}

namespace State

/-- Nothing was posted. -/
def empty (value : α) : State α := ⟨value, false, false, .idle, [], [], [], [], []⟩

/-- The value is written. A post is over before the next one starts. -/
def write (s : State α) (v : α) : Option (State α) :=
  if s.posting then none
  else some { s with value := v, posting := true, upAtWrite := s.upAtWrite ++ [s.flag] }

/-- The flag is raised. -/
def raise (s : State α) : Option (State α) :=
  if s.posting then
    some { s with
      flag := true
      posting := false
      posted := s.posted ++ [s.value]
      upAtRaise := s.upAtRaise ++ [s.flag] }
  else none

/-- The next step of the serving thread, with the value it uses and whether it is done with the
mailbox. -/
def work (s : State α) : State α × Option α × Bool :=
  match s.phase with
  | .idle => if s.flag then ({ s with phase := .serving }, none, false) else (s, none, true)
  | .serving =>
    ({ s with
        phase := .served
        used := s.used ++ [s.value]
        usedPosts := s.usedPosts ++ [s.upAtWrite.length - 1] }, some s.value, false)
  | .served => ({ s with flag := false, phase := .idle }, none, true)

/-- What was posted and will be used. -/
def pending (s : State α) : List α := if s.flag && s.phase ≠ .served then [s.value] else []

/-- What became of a post: one of the uses took its value, it waits, it found the flag up, or the
next one did. -/
inductive Fate (s : State α) (k : ℕ) (v : α) : Prop
  | used (i : ℕ) (hi : s.usedPosts[i]? = some k) (hv : s.used[i]? = some v)
  | waiting (hlast : k + 1 = s.upAtWrite.length) (hv : s.pending = [v])
  | up (h : s.upAtRaise[k]? = some true)
  | overwritten (h : s.upAtWrite[k + 1]? = some true)

/-- The posts that were begun, with the one in progress. -/
def begun (s : State α) : List α := s.posted ++ if s.posting then [s.value] else []

/-- **The accounts**: every post has a fate, and the uses take the values of posts, in their
order. -/
structure Accounts (s : State α) : Prop where
  /-- The flag is up while a value is being used. -/
  flag_of_phase (h : s.phase ≠ .idle) : s.flag = true
  length_upAtWrite : s.upAtWrite.length = s.begun.length
  length_upAtRaise : s.upAtRaise.length = s.posted.length
  /-- The flag is up because of a post. -/
  posted_of_flag (h : s.flag = true) : s.posted ≠ []
  /-- The value is that of the last post. -/
  last_eq (h : s.begun ≠ []) : s.begun.getLast? = some s.value
  length_usedPosts : s.usedPosts.length = s.used.length
  /-- A use took the value of its post. -/
  used_eq {i k : ℕ} (h : s.usedPosts[i]? = some k) : s.begun[k]? = s.used[i]? ∧ k < s.begun.length
  /-- Later uses took the values of no earlier posts. -/
  sorted : s.usedPosts.Pairwise (· ≤ ·)
  /-- Every post has a fate. -/
  fate {k : ℕ} {v : α} (h : s.posted[k]? = some v) : s.Fate k v

/-- **In order**: what is posted and is not used yet waits. -/
structure InOrder (s : State α) : Prop where
  /-- The flag is up while a value is being used. -/
  flag_of_phase (h : s.phase ≠ .idle) : s.flag = true
  /-- It is down during a post. -/
  flag_of_posting (h : s.posting = true) : s.flag = false
  /-- Posts are used in their order, and the last one may wait. -/
  posted_eq : s.posted = s.used ++ s.pending

variable {s t : State α}

/-- What is used is the value. -/
theorem work_used (s : State α) : s.work.1.used = s.used ++ s.work.2.1.toList := by
  rw [work]
  split
  · split_ifs
    · exact (List.append_nil _).symm
    · exact (List.append_nil _).symm
  · rfl
  · exact (List.append_nil _).symm

theorem used_write {v : α} (ht : s.write v = some t) : t.used = s.used := by
  rw [State.write] at ht
  split_ifs at ht
  rw [← Option.some.inj ht]

theorem used_raise (ht : s.raise = some t) : t.used = s.used := by
  rw [State.raise] at ht
  split_ifs at ht
  rw [← Option.some.inj ht]

/-- A post that was begun stays where it is. -/
theorem getElem?_begun_write {k : ℕ} {v : α} (hposting : s.posting = false)
    (hk : k < s.begun.length) :
    ({ s with value := v, posting := true, upAtWrite := s.upAtWrite ++ [s.flag] } :
      State α).begun[k]? = s.begun[k]? := by
  simp only [begun, hposting, Bool.false_eq_true, if_false, List.append_nil, if_true] at hk ⊢
  exact List.getElem?_append_left hk

theorem Accounts.write {v : α} (h : s.Accounts) (ht : s.write v = some t) : t.Accounts := by
  rw [State.write] at ht
  split_ifs at ht with hposting
  obtain rfl := Option.some.inj ht
  have hidle : s.posting = false := Bool.eq_false_iff.2 hposting
  have hbegun : s.begun = s.posted := by simp [begun, hidle]
  have hlength := h.length_upAtWrite
  rw [hbegun] at hlength
  refine ⟨h.flag_of_phase, ?_, h.length_upAtRaise, h.posted_of_flag, fun _ ↦ ?_,
    h.length_usedPosts, fun {i k} hi ↦ ?_, h.sorted, fun {k w} hk ↦ ?_⟩
  · simp [begun, hlength]
  · simp [begun]
  · obtain ⟨heq, hlt⟩ := h.used_eq hi
    refine ⟨(getElem?_begun_write hidle hlt).trans heq, Nat.lt_of_lt_of_le hlt ?_⟩
    simp [begun, hidle]
  · -- a value that waits is overwritten while the flag is up
    have hklt := (List.getElem?_eq_some_iff.1 hk).1
    cases h.fate hk with
    | used i hi hv => exact .used i hi hv
    | waiting hlast hv =>
      refine .overwritten ?_
      have hflag : s.flag = true := by
        by_contra hne
        simp [pending, Bool.eq_false_iff.2 hne] at hv
      show (s.upAtWrite ++ [s.flag])[k + 1]? = some true
      rw [hlast, List.getElem?_concat_length, hflag]
    | up hup => exact .up hup
    | overwritten hup =>
      refine .overwritten ?_
      show (s.upAtWrite ++ [s.flag])[k + 1]? = some true
      rwa [List.getElem?_append_left (List.getElem?_eq_some_iff.1 hup).1]

theorem Accounts.raise (h : s.Accounts) (ht : s.raise = some t) : t.Accounts := by
  rw [State.raise] at ht
  split_ifs at ht with hposting
  obtain rfl := Option.some.inj ht
  have hbegun : s.begun = s.posted ++ [s.value] := by simp [begun, hposting]
  have hsame : ({ s with
      flag := true
      posting := false
      posted := s.posted ++ [s.value]
      upAtRaise := s.upAtRaise ++ [s.flag] } : State α).begun = s.begun := by
    simp [begun, hposting]
  have hlength := h.length_upAtWrite
  rw [hbegun, List.length_append, List.length_singleton] at hlength
  refine ⟨fun _ ↦ rfl, by rw [hsame]; exact h.length_upAtWrite, ?_, fun _ ↦ by simp,
    by rw [hsame]; exact h.last_eq, h.length_usedPosts, fun hi ↦ by rw [hsame]; exact h.used_eq hi,
    h.sorted, fun {k w} hk ↦ ?_⟩
  · simp [h.length_upAtRaise]
  · rcases Nat.lt_or_ge k s.posted.length with hlt | hge
    · rw [List.getElem?_append_left hlt] at hk
      cases h.fate hk with
      | used i hi hv => exact .used i hi hv
      | waiting hlast => omega
      | up hup =>
        refine .up ?_
        show (s.upAtRaise ++ [s.flag])[k]? = some true
        rwa [List.getElem?_append_left (List.getElem?_eq_some_iff.1 hup).1]
      | overwritten hup => exact .overwritten hup
    · -- the post itself: it found the flag up, or it waits
      obtain ⟨rfl, rfl⟩ : k = s.posted.length ∧ s.value = w := by
        rw [List.getElem?_append_right hge] at hk
        obtain ⟨hlt, hget⟩ := List.getElem?_eq_some_iff.1 hk
        rw [List.length_singleton] at hlt
        refine ⟨by omega, ?_⟩
        rw [← hget, List.getElem_singleton]
      cases hflag : s.flag with
      | true =>
        refine .up ?_
        show (s.upAtRaise ++ [true])[s.posted.length]? = some true
        rw [← h.length_upAtRaise, List.getElem?_concat_length]
      | false =>
        -- the serving thread is not between its test and the end of its service
        have hphase : s.phase = .idle := by
          by_contra hne
          exact absurd (h.flag_of_phase hne) (by rw [hflag]; exact Bool.false_ne_true)
        exact .waiting hlength.symm (by simp [pending, hphase])

theorem Accounts.work (h : s.Accounts) : s.work.1.Accounts := by
  rw [State.work]
  cases hphase : s.phase with
  | idle =>
    simp only
    split_ifs with hflag
    · refine { h with flag_of_phase := fun _ ↦ hflag, fate := fun {k v} hk ↦ ?_ }
      cases h.fate hk with
      | used i hi hv => exact .used i hi hv
      | waiting hlast hv => exact .waiting hlast (by simpa [pending, hflag, hphase] using hv)
      | up hup => exact .up hup
      | overwritten hup => exact .overwritten hup
    · exact h
  | serving =>
    have hflag : s.flag = true := h.flag_of_phase (by rw [hphase]; exact nofun)
    have hne : s.begun ≠ [] := by
      rw [begun]
      exact List.append_ne_nil_of_left_ne_nil (h.posted_of_flag hflag) _
    have hpos := List.length_pos_iff.2 hne
    have hlast := h.last_eq hne
    rw [List.getLast?_eq_getElem?, ← h.length_upAtWrite] at hlast
    refine { h with
      flag_of_phase := fun _ ↦ hflag
      length_usedPosts := by simp [h.length_usedPosts]
      used_eq := fun {i k} hi ↦ ?_
      sorted := ?_
      fate := fun {k v} hk ↦ ?_ }
    · show s.begun[k]? = (s.used ++ [s.value])[i]? ∧ k < s.begun.length
      replace hi : (s.usedPosts ++ [s.upAtWrite.length - 1])[i]? = some k := hi
      rcases Nat.lt_or_ge i s.usedPosts.length with hlt | hge
      · rw [List.getElem?_append_left hlt] at hi
        rw [List.getElem?_append_left (h.length_usedPosts ▸ hlt)]
        exact h.used_eq hi
      · obtain ⟨rfl, rfl⟩ : i = s.usedPosts.length ∧ k = s.upAtWrite.length - 1 := by
          rw [List.getElem?_append_right hge] at hi
          obtain ⟨hzero, hget⟩ := List.getElem?_eq_some_iff.1 hi
          rw [List.length_singleton] at hzero
          refine ⟨by omega, ?_⟩
          rw [← hget, List.getElem_singleton]
        rw [h.length_usedPosts, List.getElem?_concat_length, hlast]
        exact ⟨rfl, by rw [h.length_upAtWrite]; omega⟩
    · show (s.usedPosts ++ [s.upAtWrite.length - 1]).Pairwise (· ≤ ·)
      refine List.pairwise_append.2 ⟨h.sorted, List.pairwise_singleton _ _, fun k hk l hl ↦ ?_⟩
      rw [List.mem_singleton.1 hl, h.length_upAtWrite]
      obtain ⟨i, hi⟩ := List.mem_iff_getElem?.1 hk
      have := (h.used_eq hi).2
      omega
    · cases h.fate hk with
      | used i hi hv =>
        refine .used i ?_ ?_
        · show (s.usedPosts ++ [s.upAtWrite.length - 1])[i]? = some k
          rwa [List.getElem?_append_left (List.getElem?_eq_some_iff.1 hi).1]
        · show (s.used ++ [s.value])[i]? = some v
          rwa [List.getElem?_append_left (List.getElem?_eq_some_iff.1 hv).1]
      | waiting hlast' hv =>
        have hvalue : s.value = v := by simpa [pending, hflag, hphase] using hv
        refine .used s.usedPosts.length ?_ ?_
        · show (s.usedPosts ++ [s.upAtWrite.length - 1])[s.usedPosts.length]? = some k
          rw [List.getElem?_concat_length, ← hlast']
          rfl
        · show (s.used ++ [s.value])[s.usedPosts.length]? = some v
          rw [h.length_usedPosts, List.getElem?_concat_length, hvalue]
      | up hup => exact .up hup
      | overwritten hup => exact .overwritten hup
  | served =>
    refine { h with
      flag_of_phase := fun hne ↦ absurd rfl hne
      posted_of_flag := fun hfalse ↦ absurd hfalse Bool.false_ne_true
      fate := fun {k v} hk ↦ ?_ }
    cases h.fate hk with
    | used i hi hv => exact .used i hi hv
    | waiting _ hv => simp [pending, hphase] at hv
    | up hup => exact .up hup
    | overwritten hup => exact .overwritten hup

theorem inOrder_empty (value : α) : (empty value).InOrder :=
  ⟨fun h ↦ absurd rfl h, fun _ ↦ rfl, rfl⟩

/-- A post starts while the flag is down. -/
theorem InOrder.write {v : α} (h : s.InOrder) (hflag : s.flag = false) (ht : s.write v = some t) :
    t.InOrder := by
  rw [State.write] at ht
  split_ifs at ht
  obtain rfl := Option.some.inj ht
  refine ⟨h.flag_of_phase, fun _ ↦ hflag, h.posted_eq.trans ?_⟩
  simp [pending, hflag]

theorem InOrder.raise (h : s.InOrder) (ht : s.raise = some t) : t.InOrder := by
  rw [State.raise] at ht
  split_ifs at ht with hposting
  obtain rfl := Option.some.inj ht
  have hflag := h.flag_of_posting hposting
  have hphase : s.phase = .idle := by
    by_contra hne
    exact absurd (h.flag_of_phase hne) (by rw [hflag]; exact Bool.false_ne_true)
  refine ⟨fun _ ↦ rfl, fun hfalse ↦ absurd hfalse Bool.false_ne_true, ?_⟩
  show s.posted ++ [s.value] = _
  rw [h.posted_eq]
  simp [pending, hflag, hphase]

theorem InOrder.work (h : s.InOrder) : s.work.1.InOrder := by
  have hposted := h.posted_eq
  rw [State.work]
  cases hphase : s.phase with
  | idle =>
    simp only
    split_ifs with hflag
    · refine ⟨fun _ ↦ hflag, h.flag_of_posting, ?_⟩
      simpa [pending, hflag, hphase] using hposted
    · exact h
  | serving =>
    have hflag : s.flag = true := h.flag_of_phase (by rw [hphase]; exact nofun)
    refine ⟨fun _ ↦ hflag, h.flag_of_posting, ?_⟩
    simpa [pending, hflag, hphase] using hposted
  | served =>
    refine ⟨fun hne ↦ absurd rfl hne, fun _ ↦ rfl, ?_⟩
    simpa [pending, hphase] using hposted

end State

end Mailbox
