import R2DTU.Library.Machine
import R2DTU.Middleware.PubSub
import Mathlib.Data.List.ReduceOption

/-!
# The queue of a subscriber

`MPSCQueue` is a vector of pointers, null where nothing is stored, with a position to write and a
position to read. `Subscriber::next` aborts when it reads a null pointer. It never does: the slots
from the read position to the write position are not null, which is what makes the queue a
`RingQueue` (`Refines`). The subscribers of `Node` have that ring as their queue.

A put does not look whether there is room. The sixteenth unread message makes the positions meet,
and then there is nothing to read. So the messages handed out are some of those pushed, in their
order, but a push on 15 unread messages does not lose the oldest one; it loses all of them and its
own (`graceful_iff`).
-/

namespace Middleware

universe u

/-- `MPSCQueue` of shared pointers; `none` is a null pointer. -/
structure MPSCQueue (α : Type u) where
  /-- Where the next put goes. -/
  head : ℕ
  /-- Where the next get is from. -/
  tail : ℕ
  /-- The slots. A get leaves a null pointer. -/
  internal : List (Option α)

namespace MPSCQueue

variable {α : Type u}

/-- The constructor: every slot is null. -/
def new (size : ℕ) : MPSCQueue α := ⟨0, 0, List.replicate size none⟩

/-- `get`: the pointer read, if the positions differ. -/
def get (q : MPSCQueue α) : Option (Option α) × MPSCQueue α :=
  if q.tail ≠ q.head then
    (some (q.internal.getD q.tail none),
      { q with
        internal := q.internal.set q.tail none
        tail := (q.tail + 1) % q.internal.length })
  else (none, q)

/-- `put`: a value goes to the slot at the head, whatever is there. -/
def put (q : MPSCQueue α) (val : Option α) : MPSCQueue α :=
  { q with
    internal := q.internal.set q.head val
    head := (q.head + 1) % q.internal.length }

end MPSCQueue

/-- A call on a subscriber. Only messages that are not null are pushed, which `push` asserts. -/
inductive SubscriberCall (α : Type u)
  | push (msg : α)
  | next

namespace SubscriberCall

variable {α : Type u}

/-- `Subscriber::push` and `Subscriber::next`, with the message returned. `none` is an abort on a
null message. -/
def call (q : MPSCQueue α) : SubscriberCall α → Option (Option α × MPSCQueue α)
  | push msg => some (none, q.put (some msg))
  | next =>
    match q.get with
    | (none, q') => some (none, q')
    | (some none, _) => none
    | (some (some msg), q') => some (some msg, q')

/-- The messages pushed in a run. -/
def pushed : List (SubscriberCall α) → List α
  | [] => []
  | push msg :: calls => msg :: pushed calls
  | next :: calls => pushed calls

/-- The queue of a new subscriber. -/
def newQueue : MPSCQueue α := MPSCQueue.new defaultQueueSize

/-- The unread messages: those that the following calls of `next` return. There are fewer of them
than slots. -/
def unread (q : MPSCQueue α) : List α :=
  ((Machine.outputs call q (List.replicate defaultQueueSize next)).getD []).reduceOption

/-- **A run degrades gracefully**: no `next` aborts on a null message, the messages returned are a
subsequence of those pushed, and a push on `m` unread messages keeps the `min (m + 1) 15` most
recently pushed of them. -/
structure Graceful (calls : List (SubscriberCall α)) : Prop where
  /-- No read aborts on a null pointer. -/
  not_null : (Machine.outputs call newQueue calls).isSome
  /-- What is read was pushed, in the same order and each at most once. -/
  sublist : ∀ returned, Machine.outputs call newQueue calls = some returned →
    returned.reduceOption.Sublist (pushed calls)
  /-- A push keeps the newest of what was not read. -/
  keeps : ∀ before msg after q, calls = before ++ push msg :: after →
    Machine.final call newQueue before = some q →
      (unread q ++ [msg]).drop ((unread q).length + 1 - min ((unread q).length + 1) 15) <:+
        unread (q.put (some msg))

end SubscriberCall

/-! ### The vector is a ring -/

section Ring

variable {α : Type u} {r : MPSCQueue α} {q : RingQueue α defaultQueueSize}

/-- The vector holds what the slots of the ring do. -/
structure MPSCQueue.Refines (r : MPSCQueue α) (q : RingQueue α defaultQueueSize) : Prop where
  head_eq : r.head = q.head
  tail_eq : r.tail = q.tail
  length_eq : r.internal.length = defaultQueueSize
  slot_eq {j : ℕ} (h : j < defaultQueueSize) : r.internal[j]? = some (q.slots j)

namespace MPSCQueue

theorem refines_newQueue :
    (SubscriberCall.newQueue : MPSCQueue α).Refines (RingQueue.empty (by decide)) where
  head_eq := rfl
  tail_eq := rfl
  length_eq := List.length_replicate
  slot_eq h := List.getElem?_replicate_of_lt h

/-- Writing a slot of the vector is updating the slot of the ring. -/
theorem Refines.set (h : r.Refines q) {i : ℕ} (hi : i < defaultQueueSize) (v : Option α) {j : ℕ}
    (hj : j < defaultQueueSize) :
    (r.internal.set i v)[j]? = some (Function.update q.slots i v j) := by
  rw [Function.update_apply]
  split_ifs with heq
  · rw [heq, List.getElem?_set_self (h.length_eq ▸ hi)]
  · rw [List.getElem?_set_ne (Ne.symm heq), h.slot_eq hj]

theorem Refines.put (h : r.Refines q) (msg : α) : (r.put (some msg)).Refines (q.put msg) where
  head_eq := by
    show (r.head + 1) % r.internal.length = (q.head + 1) % defaultQueueSize
    rw [h.head_eq, h.length_eq]
  tail_eq := h.tail_eq
  length_eq := (List.length_set).trans h.length_eq
  slot_eq hj := by
    show (r.internal.set r.head (some msg))[_]? = _
    rw [h.head_eq]
    exact h.set q.head_lt _ hj

/-- **Reading the vector** is reading the ring, which has no null pointers to read. -/
theorem Refines.get (h : r.Refines q) :
    (r.get = (none, r) ∧ q.pending = []) ∨
      ∃ msg r' q', r.get = (some (some msg), r') ∧ q.pending = msg :: q'.pending ∧
        r'.Refines q' := by
  rcases q.get_cases with ⟨hget, hnil⟩ | ⟨msg, q', hget, hcons⟩
  · refine Or.inl ⟨if_neg (not_not_intro ?_), hnil⟩
    rw [h.tail_eq, h.head_eq]
    exact RingQueue.get_eq_none_iff.1 hget
  · obtain ⟨hne, rfl, hslot⟩ := RingQueue.get_eq_some hget
    have hread : r.internal.getD q.tail none = some msg := by
      rw [List.getD_eq_getElem?_getD, h.slot_eq q.tail_lt, hslot, Option.getD_some]
    refine Or.inr ⟨msg, ⟨r.head, (q.tail + 1) % defaultQueueSize, r.internal.set q.tail none⟩, _,
      ?_, hcons, h.head_eq, rfl, (List.length_set).trans h.length_eq,
      fun hj ↦ h.set q.tail_lt none hj⟩
    rw [MPSCQueue.get, h.tail_eq, if_pos (h.head_eq ▸ hne), hread, h.length_eq]

end MPSCQueue

end Ring

/-! ### Runs -/

namespace SubscriberCall

variable {α : Type u}

/-- A call on the list of unread messages. -/
def listCall (xs : List α) : SubscriberCall α → Option (Option α × List α)
  | push msg => some (none, if xs.length + 1 = defaultQueueSize then [] else xs ++ [msg])
  | next => some (xs.head?, xs.tail)

/-- The vector stands for the list of unread messages. -/
def Lists (r : MPSCQueue α) (xs : List α) : Prop :=
  ∃ q : RingQueue α defaultQueueSize, r.Refines q ∧ q.pending = xs

theorem lists_newQueue : Lists (newQueue : MPSCQueue α) [] :=
  ⟨_, MPSCQueue.refines_newQueue, RingQueue.pending_empty _⟩

theorem Lists.length_lt {r : MPSCQueue α} {xs : List α} (h : Lists r xs) :
    xs.length < defaultQueueSize := by
  obtain ⟨q, -, rfl⟩ := h
  rw [RingQueue.length_pending]
  exact q.count_lt

theorem Lists.put {r : MPSCQueue α} {xs : List α} (h : Lists r xs) (msg : α) :
    Lists (r.put (some msg)) (if xs.length + 1 = defaultQueueSize then [] else xs ++ [msg]) := by
  obtain ⟨q, hq, rfl⟩ := h
  exact ⟨_, hq.put msg, q.pending_put msg⟩

/-- **A call** on the vector does what it does on the list. -/
theorem Lists.call {r : MPSCQueue α} {xs : List α} (c : SubscriberCall α) (h : Lists r xs) :
    ∃ o r' xs', SubscriberCall.call r c = some (o, r') ∧ listCall xs c = some (o, xs') ∧
      Lists r' xs' := by
  rcases c with msg | _
  · exact ⟨none, _, _, rfl, rfl, h.put msg⟩
  · obtain ⟨q, hq, rfl⟩ := h
    rcases hq.get with ⟨hget, hnil⟩ | ⟨msg, r', q', hget, hcons, hq'⟩
    · refine ⟨none, r, [], ?_, by rw [listCall, hnil]; rfl, q, hq, hnil⟩
      simp only [SubscriberCall.call, hget]
    · refine ⟨some msg, r', q'.pending, ?_, by rw [listCall, hcons]; rfl, q', hq', rfl⟩
      simp only [SubscriberCall.call, hget]

theorem Lists.outputs_eq {r : MPSCQueue α} {xs : List α} (h : Lists r xs)
    (calls : List (SubscriberCall α)) :
    Machine.outputs SubscriberCall.call r calls = Machine.outputs listCall xs calls :=
  Machine.outputs_eq (fun hr _ ↦ hr.call _) h
    (Machine.Guarded.of_forall (fun _ _ ↦ trivial) _ _)

/-- What is read from a list with no pushes in between. -/
theorem outputs_listCall_next (xs : List α) (n : ℕ) :
    Machine.outputs listCall xs (List.replicate n next) =
      some ((xs.take n).map some ++ List.replicate (n - xs.length) none) := by
  induction n generalizing xs with
  | zero => simp [Machine.outputs]
  | succ n ih =>
    have hfirst : listCall xs next = some (xs.head?, xs.tail) := rfl
    rw [List.replicate_succ, Machine.outputs_cons hfirst, ih]
    rcases xs with _ | ⟨x, xs⟩
    · simp [List.replicate_succ]
    · simp

/-- **The unread messages** are the list the vector stands for. -/
theorem Lists.unread_eq {r : MPSCQueue α} {xs : List α} (h : Lists r xs) : unread r = xs := by
  have hlt := h.length_lt
  rw [unread, h.outputs_eq, outputs_listCall_next, Option.getD_some,
    List.take_of_length_le hlt.le, List.reduceOption_append, List.reduceOption_replicate_none,
    List.append_nil, List.reduceOption, List.filterMap_map]
  exact List.filterMap_some

/-- What is returned was unread or is pushed in the run, in this order. -/
theorem returned_sublist (xs : List α) (calls : List (SubscriberCall α))
    {returned : List (Option α)} (h : Machine.outputs listCall xs calls = some returned) :
    returned.reduceOption.Sublist (xs ++ pushed calls) := by
  induction calls generalizing xs returned with
  | nil =>
    obtain rfl := Option.some.inj h
    exact List.nil_sublist _
  | cons c calls ih =>
    rcases c with msg | _
    · rw [Machine.outputs_cons rfl, Option.map_eq_some_iff] at h
      obtain ⟨returned, h, rfl⟩ := h
      rw [List.reduceOption_cons_of_none, pushed]
      refine (ih _ h).trans ?_
      split_ifs
      · exact (List.sublist_cons_self msg _).trans (List.sublist_append_right xs _)
      · rw [List.append_assoc, List.singleton_append]
    · rw [Machine.outputs_cons rfl, Option.map_eq_some_iff] at h
      obtain ⟨returned, h, rfl⟩ := h
      rw [pushed]
      have hrest := ih _ h
      rcases xs with _ | ⟨x, xs⟩
      · exact hrest
      · exact hrest.cons_cons x

theorem isSome_outputs (calls : List (SubscriberCall α)) :
    (Machine.outputs SubscriberCall.call newQueue calls).isSome :=
  @Machine.isSome_outputs _ _ _ SubscriberCall.call (fun r : MPSCQueue α ↦ ∃ xs, Lists r xs)
    (fun c ⟨_, h⟩ ↦ by
      obtain ⟨o, r', xs', hcall, -, h'⟩ := h.call c
      exact ⟨o, r', hcall, xs', h'⟩)
    newQueue ⟨[], lists_newQueue⟩ calls

/-- The queue after some calls. -/
theorem exists_lists_of_final {before : List (SubscriberCall α)} {r : MPSCQueue α}
    (h : Machine.final SubscriberCall.call newQueue before = some r) : ∃ xs, Lists r xs := by
  obtain ⟨r', xs, hr', -, hlists⟩ :=
    Machine.final_related (fun c h ↦ Lists.call c h) (lists_newQueue (α := α)) before
  obtain rfl := Option.some.inj (h.symm.trans hr')
  exact ⟨xs, hlists⟩

/-- **One push** keeps what it should unless there are 15 unread messages. -/
theorem Lists.keeps_iff {r : MPSCQueue α} {xs : List α} (h : Lists r xs) (msg : α) :
    (unread r ++ [msg]).drop ((unread r).length + 1 - min ((unread r).length + 1) 15) <:+
        unread (r.put (some msg)) ↔ (unread r).length ≠ 15 := by
  have hlt : xs.length < 16 := h.length_lt
  rw [h.unread_eq, (h.put msg).unread_eq]
  by_cases hfull : xs.length = 15
  · refine iff_of_false (fun hsuffix ↦ ?_) (not_not_intro hfull)
    have hle := hsuffix.length_le
    rw [if_pos (by rw [hfull]; rfl), List.length_drop, List.length_append, hfull,
      List.length_singleton, List.length_nil] at hle
    exact absurd hle (by decide)
  · refine iff_of_true ?_ hfull
    have hne : xs.length + 1 ≠ defaultQueueSize := fun heq ↦ hfull (Nat.succ.inj heq)
    rw [if_neg hne, Nat.min_eq_left (by omega), Nat.sub_self]
    exact List.suffix_rfl

/-- **Graceful degradation** of a subscriber's queue: it holds of exactly the runs in which no push
finds 15 unread messages. -/
theorem graceful_iff (calls : List (SubscriberCall α)) :
    Graceful calls ↔ ∀ before msg after q, calls = before ++ push msg :: after →
      Machine.final SubscriberCall.call newQueue before = some q → (unread q).length ≠ 15 := by
  constructor
  · intro h before msg after q hsplit hq
    obtain ⟨xs, hxs⟩ := exists_lists_of_final hq
    exact (hxs.keeps_iff msg).1 (h.keeps before msg after q hsplit hq)
  · intro h
    refine ⟨isSome_outputs calls, fun returned hret ↦ ?_, fun before msg after q hsplit hq ↦ ?_⟩
    · rw [lists_newQueue.outputs_eq] at hret
      exact returned_sublist [] calls hret
    · obtain ⟨xs, hxs⟩ := exists_lists_of_final hq
      exact (hxs.keeps_iff msg).2 (h before msg after q hsplit hq)

/-- The sixteenth push loses the fifteen messages before it. -/
theorem not_graceful_sixteenth : ¬ Graceful ((List.range 16).map push) := by
  intro h
  have hkeeps := h.keeps ((List.range 15).map push) 15 [] _ rfl rfl
  revert hkeeps
  decide

end SubscriberCall

end Middleware
