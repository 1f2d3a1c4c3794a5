import R2DTU.Library.BoundedLoop
import Mathlib.Data.Finset.Card
import Mathlib.Data.Finset.SDiff
import Mathlib.Data.List.Nodup
import Mathlib.Logic.Relation

/-!
# Closure by a stack of pending elements

The usual worklist: pop the top of a stack, push every successor not yet visited and record it as
visited, stop when the stack is empty. The stack is a list with its top first; the visited elements
are kept in the order in which they were recorded.

Every round pops one element, and an element is pushed only when it is recorded, so the stack plus
the unrecorded part of a finite domain shrinks by one per round. That measure is what turns the
loop into the total function `closure`; nothing else about the successor function is used.

`mem_closure_iff` is what the loop is for: it records exactly the elements that a path of successors
leads to from the start. Its invariant is `Explored`.
-/

namespace Worklist

universe u

variable {α : Type u} [DecidableEq α]

/-- Look at one successor: push and record it unless it has been visited. -/
def visit (st : List α × List α) (x : α) : List α × List α :=
  if x ∈ st.2 then st else (x :: st.1, st.2 ++ [x])

/-- One round: pop the top of the stack and look at its successors in order. -/
def round (succ : α → List α) (st : List α × List α) : (List α × List α) ⊕ List α :=
  match st.1 with
  | [] => Sum.inr st.2
  | current :: rest => Sum.inl ((succ current).foldl visit (rest, st.2))

/-- Stack length plus the part of `domain` that has not been recorded. -/
def pending (domain : List α) (st : List α × List α) : ℕ :=
  st.1.length + (domain.toFinset \ st.2.toFinset).card

theorem pending_visit {domain : List α} {st : List α × List α} {x : α} (hx : x ∈ domain) :
    pending domain (visit st x) = pending domain st := by
  by_cases hv : x ∈ st.2
  · simp [visit, hv]
  · have hmem : x ∈ domain.toFinset \ st.2.toFinset := by simp [hx, hv]
    have herase : domain.toFinset \ (st.2 ++ [x]).toFinset =
        (domain.toFinset \ st.2.toFinset).erase x := by
      ext y
      simp only [Finset.mem_sdiff, List.mem_toFinset, List.mem_append, List.mem_singleton,
        Finset.mem_erase]
      tauto
    have hpos := Finset.card_pos.2 ⟨x, hmem⟩
    simp only [pending, visit, hv, if_false, herase, List.length_cons,
      Finset.card_erase_of_mem hmem]
    omega

theorem pending_foldl_visit {domain xs : List α} (hxs : ∀ x ∈ xs, x ∈ domain)
    (st : List α × List α) : pending domain (xs.foldl visit st) = pending domain st := by
  induction xs generalizing st with
  | nil => rfl
  | cons x xs ih =>
    rw [List.foldl_cons, ih fun y hy ↦ hxs y (List.mem_cons_of_mem _ hy),
      pending_visit (hxs x (List.mem_cons_self ..))]

/-- Every round decreases the pending work. -/
theorem pending_lt_of_round {succ : α → List α} {domain : List α}
    (hsucc : ∀ a, ∀ x ∈ succ a, x ∈ domain) {st st' : List α × List α}
    (h : round succ st = Sum.inl st') : pending domain st' < pending domain st := by
  obtain ⟨frontier, visited⟩ := st
  cases frontier with
  | nil => simp [round] at h
  | cons current rest =>
    obtain rfl := Sum.inl.inj h
    rw [pending_foldl_visit (hsucc current)]
    simp [pending]

theorem run_round_isSome {succ : α → List α} {domain : List α}
    (hsucc : ∀ a, ∀ x ∈ succ a, x ∈ domain) (st : List α × List α) :
    (BoundedLoop.run (round succ) (st.1.length + domain.length + 1) st).isSome := by
  refine BoundedLoop.run_isSome (pending domain) (pending_lt_of_round hsucc) ?_
  have hcard : (domain.toFinset \ st.2.toFinset).card ≤ domain.length :=
    (Finset.card_le_card Finset.sdiff_subset).trans (List.toFinset_card_le domain)
  simp only [pending]
  omega

/-- Everything visited by the time the stack is empty, in the order of first visits. -/
def closure (succ : α → List α) (domain : List α) (hsucc : ∀ a, ∀ x ∈ succ a, x ∈ domain)
    (frontier visited : List α) : List α :=
  (BoundedLoop.run (round succ) (frontier.length + domain.length + 1) (frontier, visited)).get
    (run_round_isSome hsucc (frontier, visited))

/-- **The loop ends**, and any larger bound on its rounds leaves the same elements. -/
theorem run_round_eq_closure {succ : α → List α} {domain : List α}
    {hsucc : ∀ a, ∀ x ∈ succ a, x ∈ domain} {frontier visited : List α} {fuel : ℕ}
    (hfuel : frontier.length + domain.length < fuel) :
    BoundedLoop.run (round succ) fuel (frontier, visited) =
      some (closure succ domain hsucc frontier visited) :=
  BoundedLoop.run_mono hfuel (Option.some_get _).symm

/-- **Induction over the loop**: what every visit of a successor keeps holds of the result. -/
theorem closure_induct {succ : α → List α} {domain : List α}
    {hsucc : ∀ a, ∀ x ∈ succ a, x ∈ domain} {Inv : List α → Prop}
    (hvisit : ∀ {visited : List α} {a x : α}, Inv visited → x ∈ succ a → x ∉ visited →
      Inv (visited ++ [x]))
    {frontier visited : List α} (h : Inv visited) :
    Inv (closure succ domain hsucc frontier visited) := by
  -- one round visits the successors of the popped element one after the other
  have hround : ∀ (a : α) (xs : List α), (∀ x ∈ xs, x ∈ succ a) → ∀ st : List α × List α,
      Inv st.2 → Inv (xs.foldl visit st).2 := by
    intro a xs
    induction xs with
    | nil => exact fun _ st hst ↦ hst
    | cons x xs ih =>
      intro hxs st hst
      refine ih (fun y hy ↦ hxs y (List.mem_cons_of_mem _ hy)) _ ?_
      by_cases hv : x ∈ st.2
      · simpa [visit, hv] using hst
      · simpa [visit, hv] using hvisit hst (hxs x (List.mem_cons_self ..)) hv
  refine @BoundedLoop.run_induct _ _ (round succ) (fun st ↦ Inv st.2) Inv ?_ ?_ _
    (frontier, visited) _ h (Option.some_get _).symm
  · rintro ⟨frontier, visited⟩ st' hst hb
    cases frontier with
    | nil => simp [round] at hb
    | cons current rest =>
      obtain rfl := Sum.inl.inj hb
      exact hround current _ (fun _ hx ↦ hx) _ hst
  · rintro ⟨frontier, visited⟩ r hst hb
    cases frontier with
    | nil =>
      obtain rfl := Sum.inr.inj hb
      exact hst
    | cons current rest => simp [round] at hb

/-- Nothing is recorded twice. -/
theorem nodup_closure {succ : α → List α} {domain : List α}
    {hsucc : ∀ a, ∀ x ∈ succ a, x ∈ domain} {frontier visited : List α}
    (h : visited.Nodup) : (closure succ domain hsucc frontier visited).Nodup := by
  refine closure_induct (fun hv _ hx ↦ ?_) h
  rw [List.nodup_append]
  refine ⟨hv, List.nodup_singleton _, fun a ha b hb ↦ ?_⟩
  rw [List.mem_singleton.1 hb]
  exact fun hab ↦ hx (hab ▸ ha)

/-! ### Reachability -/

/-- After a round everything looked at has been recorded. -/
theorem mem_foldl_visit_snd {xs : List α} {st : List α × List α} {y : α} :
    y ∈ (xs.foldl visit st).2 ↔ y ∈ st.2 ∨ y ∈ xs := by
  induction xs generalizing st with
  | nil => simp
  | cons x xs ih =>
    have hvisit : y ∈ (visit st x).2 ↔ y ∈ st.2 ∨ y = x := by
      unfold visit
      split_ifs with hx
      · exact ⟨Or.inl, fun h ↦ h.elim id fun he ↦ he ▸ hx⟩
      · simp
    rw [List.foldl_cons, ih, hvisit, List.mem_cons, or_assoc]

/-- What a round records is on the stack after it, and nothing is taken off. -/
theorem mem_foldl_visit_fst {xs : List α} {st : List α × List α} {y : α}
    (h : y ∈ st.1 ∨ y ∈ xs ∧ y ∉ st.2) : y ∈ (xs.foldl visit st).1 := by
  induction xs generalizing st with
  | nil => simpa using h
  | cons x xs ih =>
    refine ih ?_
    unfold visit
    split_ifs with hx
    · refine h.imp_right fun ⟨hy, hn⟩ ↦ ⟨(List.mem_cons.1 hy).resolve_left ?_, hn⟩
      exact fun he ↦ hn (he ▸ hx)
    · rcases h with hy | ⟨hy, hn⟩
      · exact Or.inl (List.mem_cons_of_mem _ hy)
      · rcases List.mem_cons.1 hy with rfl | hy
        · exact Or.inl (List.mem_cons_self ..)
        · by_cases he : y = x
          · exact Or.inl (he ▸ List.mem_cons_self ..)
          · exact Or.inr ⟨hy, by simp [hn, he]⟩

/-- The invariant of the loop: what is recorded was reached from `start`, and its successors are
recorded too unless it is still on the stack. -/
structure Explored (succ : α → List α) (start : List α) (st : List α × List α) : Prop where
  /-- What waits has been recorded. -/
  stack_subset {x : α} (hx : x ∈ st.1) : x ∈ st.2
  /-- The start has been recorded. -/
  start_mem {x : α} (hx : x ∈ start) : x ∈ st.2
  /-- What has been recorded can be reached. -/
  reached {y : α} (hy : y ∈ st.2) :
    ∃ x ∈ start, Relation.ReflTransGen (fun a b ↦ b ∈ succ a) x y
  /-- The successors of what does not wait have been recorded. -/
  closed {y z : α} (hy : y ∈ st.2) (hz : z ∈ succ y) : y ∈ st.1 ∨ z ∈ st.2

/-- Visits put nothing on the stack without recording it. -/
theorem subset_foldl_visit {xs : List α} {st : List α × List α} (h : ∀ x ∈ st.1, x ∈ st.2) :
    ∀ x ∈ (xs.foldl visit st).1, x ∈ (xs.foldl visit st).2 := by
  induction xs generalizing st with
  | nil => exact h
  | cons a xs ih =>
    refine ih ?_
    unfold visit
    split_ifs
    · exact h
    · intro x hx
      rcases List.mem_cons.1 hx with rfl | hx
      · exact List.mem_append_right _ (List.mem_singleton.2 rfl)
      · exact List.mem_append_left _ (h x hx)

theorem Explored.round {succ : α → List α} {start rest visited : List α} {current : α}
    (h : Explored succ start (current :: rest, visited)) :
    Explored succ start ((succ current).foldl visit (rest, visited)) where
  stack_subset {x} hx := by
    refine subset_foldl_visit (fun y hy ↦ ?_) x hx
    exact h.stack_subset (List.mem_cons_of_mem current hy)
  start_mem hx := mem_foldl_visit_snd.2 (Or.inl (h.start_mem hx))
  reached {y} hy := by
    rcases mem_foldl_visit_snd.1 hy with hy | hy
    · exact h.reached hy
    · obtain ⟨x, hx, hpath⟩ := h.reached (h.stack_subset (List.mem_cons_self ..))
      exact ⟨x, hx, hpath.tail hy⟩
  closed {y z} hy hz := by
    rw [mem_foldl_visit_snd]
    by_cases hold : y ∈ visited
    · rcases h.closed hold hz with hmem | hmem
      · rcases List.mem_cons.1 hmem with rfl | hrest
        · exact Or.inr (Or.inr hz)
        · exact Or.inl (mem_foldl_visit_fst (Or.inl hrest))
      · exact Or.inr (Or.inl hmem)
    · have hnew := (mem_foldl_visit_snd.1 hy).resolve_left hold
      exact Or.inl (mem_foldl_visit_fst (Or.inr ⟨hnew, hold⟩))

omit [DecidableEq α] in
/-- With an empty stack, the recorded elements are closed under successors. -/
theorem Explored.mem_iff {succ : α → List α} {start visited : List α}
    (h : Explored succ start ([], visited)) {y : α} :
    y ∈ visited ↔ ∃ x ∈ start, Relation.ReflTransGen (fun a b ↦ b ∈ succ a) x y := by
  refine ⟨h.reached, ?_⟩
  rintro ⟨x, hx, hpath⟩
  induction hpath with
  | refl => exact h.start_mem hx
  | tail _ hstep ih => exact (h.closed ih hstep).resolve_left List.not_mem_nil

/-- **The closure is reachability**, when the stack holds what is recorded at the start. -/
theorem mem_closure_iff {succ : α → List α} {domain : List α}
    {hsucc : ∀ a, ∀ x ∈ succ a, x ∈ domain} {frontier visited : List α}
    (hstart : ∀ x, x ∈ frontier ↔ x ∈ visited) {y : α} :
    y ∈ closure succ domain hsucc frontier visited ↔
      ∃ x ∈ visited, Relation.ReflTransGen (fun a b ↦ b ∈ succ a) x y := by
  have hpost := @BoundedLoop.run_induct _ _ (round succ)
    (Explored succ visited) (fun vs ↦ Explored succ visited ([], vs)) ?_ ?_ _ (frontier, visited) _
    ⟨(hstart _).1, id, fun hy ↦ ⟨_, hy, .refl⟩, fun hy _ ↦ Or.inl ((hstart _).2 hy)⟩
    (Option.some_get (run_round_isSome hsucc (frontier, visited))).symm
  · exact hpost.mem_iff
  · rintro ⟨frontier, visited⟩ st' hst hb
    cases frontier with
    | nil => simp [round] at hb
    | cons current rest =>
      obtain rfl := Sum.inl.inj hb
      exact hst.round
  · rintro ⟨frontier, visited⟩ r hst hb
    cases frontier with
    | nil =>
      obtain rfl := Sum.inr.inj hb
      exact hst
    | cons current rest => simp [round] at hb

end Worklist
