import R2DTU.Library.SwapPop

/-!
# A pass that removes while it walks

An index walks over a vector. The element it stands at is replaced, and when the replacement is
**dead** it is removed by swapping with the last element; in any case the index goes on by one. The
element that was moved into the gap is behind the index then, and this pass does not look at it.

`sweep` returns what is left together with what was looked at. `sweep_of_alive` describes the pass
that removes at most the last element, and `length_snd_sweep` says that no other pass looks at
everything. `perm_sweep` is what holds of every pass: what is left and what was removed are what was
there.
-/

namespace SwapPop

universe u v

variable {α : Type u} {β : Type v}

/-- The pass from index `i` on, with at most `fuel` rounds. -/
def sweep (f : α → α) (dead : α → Bool) : ℕ → ℕ → List α → List α × List α
  | 0, _, l => (l, [])
  | fuel + 1, i, l =>
    match l[i]? with
    | none => (l, [])
    | some x =>
      let next := if dead (f x) then swapPop (l.set i (f x)) i else l.set i (f x)
      ((sweep f dead fuel (i + 1) next).1, x :: (sweep f dead fuel (i + 1) next).2)

variable {f : α → α} {dead : α → Bool}

/-! ### One round, by what is behind and ahead of the index -/

theorem sweep_nil (fuel : ℕ) (pre : List α) : sweep f dead fuel pre.length pre = (pre, []) := by
  cases fuel with
  | zero => rfl
  | succ fuel => rw [sweep, List.getElem?_eq_none (Nat.le_refl _)]

theorem getElem?_middle (pre post : List α) (x : α) : (pre ++ x :: post)[pre.length]? = some x := by
  rw [List.getElem?_append_right (Nat.le_refl _), Nat.sub_self, List.getElem?_cons_zero]

/-- An element that stays. -/
theorem sweep_keep {x : α} (hx : dead (f x) = false) (fuel : ℕ) (pre post : List α) :
    sweep f dead (fuel + 1) pre.length (pre ++ x :: post) =
      ((sweep f dead fuel (pre ++ [f x]).length (pre ++ [f x] ++ post)).1,
        x :: (sweep f dead fuel (pre ++ [f x]).length (pre ++ [f x] ++ post)).2) := by
  rw [sweep, getElem?_middle]
  simp only [hx, Bool.false_eq_true, if_false, set_middle, List.length_append,
    List.length_singleton, List.append_assoc, List.singleton_append]

/-- The last element, which is removed. -/
theorem sweep_drop_last {x : α} (hx : dead (f x) = true) (fuel : ℕ) (pre : List α) :
    sweep f dead (fuel + 1) pre.length (pre ++ [x]) = (pre, [x]) := by
  have hend : sweep f dead fuel (pre.length + 1) pre = (pre, []) := by
    cases fuel with
    | zero => rfl
    | succ fuel => rw [sweep, List.getElem?_eq_none (Nat.le_succ _)]
  rw [sweep, getElem?_middle]
  simp only [hx, if_true, set_middle, swapPop_concat, hend]

/-- An element that is removed with others behind it: the last one is passed over. -/
theorem sweep_drop {x : α} (hx : dead (f x) = true) (fuel : ℕ) (pre mid : List α) (last : α) :
    sweep f dead (fuel + 1) pre.length (pre ++ x :: (mid ++ [last])) =
      ((sweep f dead fuel (pre ++ [last]).length (pre ++ [last] ++ mid)).1,
        x :: (sweep f dead fuel (pre ++ [last]).length (pre ++ [last] ++ mid)).2) := by
  rw [sweep, getElem?_middle]
  simp only [hx, if_true, set_middle, swapPop_middle, List.length_append, List.length_singleton,
    List.append_assoc, List.singleton_append]

/-! ### The whole pass -/

/-- **A pass that removes at most the last element** looks at everything. -/
theorem sweep_of_alive {fuel : ℕ} {pre post : List α} (hfuel : post.length ≤ fuel)
    (h : ∀ x ∈ post.dropLast, dead (f x) = false) :
    sweep f dead fuel pre.length (pre ++ post) =
      (pre ++ (post.map f).filter fun x ↦ !dead x, post) := by
  induction post generalizing fuel pre with
  | nil => simpa using sweep_nil fuel pre
  | cons x post ih =>
    obtain ⟨fuel, rfl⟩ : ∃ k, fuel = k + 1 := ⟨fuel - 1, by rw [List.length_cons] at hfuel; omega⟩
    rw [List.length_cons] at hfuel
    by_cases hx : dead (f x) = false
    · have hpost : ∀ y ∈ post.dropLast, dead (f y) = false := by
        intro y hy
        refine h y ?_
        rw [List.dropLast_cons_of_ne_nil (List.ne_nil_of_mem (List.dropLast_subset post hy))]
        exact List.mem_cons_of_mem _ hy
      rw [sweep_keep hx, ih (by omega) hpost, List.map_cons, List.filter_cons_of_pos (by simp [hx])]
      simp
    · -- an element that is removed has to be the last one
      obtain rfl : post = [] := by
        by_contra hne
        refine hx (h x ?_)
        rw [List.dropLast_cons_of_ne_nil hne]
        exact List.mem_cons_self
      rw [sweep_drop_last (by simpa using hx), List.map_singleton,
        List.filter_cons_of_neg (by simpa using hx)]
      simp

/-- A pass looks at no more than what is ahead of it, and at less when it removes an element that is
not the last. -/
theorem length_snd_sweep (fuel : ℕ) (pre post : List α) :
    (sweep f dead fuel pre.length (pre ++ post)).2.length ≤ post.length ∧
      ((∃ x ∈ post.dropLast, dead (f x) = true) →
        (sweep f dead fuel pre.length (pre ++ post)).2.length < post.length) := by
  induction fuel generalizing pre post with
  | zero =>
    refine ⟨Nat.zero_le _, ?_⟩
    rintro ⟨x, hx, -⟩
    exact List.length_pos_of_mem (List.dropLast_subset post hx)
  | succ fuel ih =>
    cases post with
    | nil =>
      rw [List.append_nil, sweep_nil]
      exact ⟨Nat.le_refl _, fun ⟨x, hx, _⟩ ↦ absurd hx List.not_mem_nil⟩
    | cons x post =>
      by_cases hx : dead (f x) = true
      · rcases List.eq_nil_or_concat post with rfl | ⟨mid, last, rfl⟩
        · rw [sweep_drop_last hx]
          exact ⟨Nat.le_refl _, fun ⟨y, hy, _⟩ ↦ absurd hy List.not_mem_nil⟩
        · rw [List.concat_eq_append, sweep_drop hx]
          have hrest := (ih (pre ++ [last]) mid).1
          simp only [List.length_cons, List.length_append, List.length_nil] at hrest ⊢
          exact ⟨by omega, fun _ ↦ by omega⟩
      · rw [Bool.not_eq_true] at hx
        rw [sweep_keep hx]
        obtain ⟨hle, hlt⟩ := ih (pre ++ [f x]) post
        refine ⟨Nat.succ_le_succ hle, ?_⟩
        rintro ⟨y, hy, hdead⟩
        refine Nat.succ_lt_succ (hlt ⟨y, ?_, hdead⟩)
        cases post with
        | nil => exact absurd hy List.not_mem_nil
        | cons z post =>
          rw [List.dropLast_cons_of_ne_nil (List.cons_ne_nil _ _)] at hy
          rcases List.mem_cons.1 hy with rfl | hy
          · rw [hx] at hdead
            exact Bool.noConfusion hdead
          · exact hy

/-- **What every pass keeps**: what is left and what was removed are what was there, as far as `key`
can tell. -/
theorem perm_sweep {key : α → β} (hkey : ∀ x, key (f x) = key x) (fuel : ℕ) (pre post : List α) :
    (((sweep f dead fuel pre.length (pre ++ post)).1 ++
      (sweep f dead fuel pre.length (pre ++ post)).2.filter fun x ↦ dead (f x)).map key).Perm
        ((pre ++ post).map key) := by
  induction fuel generalizing pre post with
  | zero =>
    show ((pre ++ post ++ []).map key).Perm _
    rw [List.append_nil]
  | succ fuel ih =>
    cases post with
    | nil =>
      rw [List.append_nil, sweep_nil, List.filter_nil, List.append_nil]
    | cons x post =>
      by_cases hx : dead (f x) = true
      · rcases List.eq_nil_or_concat post with rfl | ⟨mid, last, rfl⟩
        · rw [sweep_drop_last hx, List.filter_cons_of_pos (p := fun x ↦ dead (f x)) hx,
            List.filter_nil]
        · rw [List.concat_eq_append, sweep_drop hx,
            List.filter_cons_of_pos (p := fun x ↦ dead (f x)) hx]
          -- the removed element goes to the front on both sides, and the last one to its place
          have hrest := ih (pre ++ [last]) mid
          refine (List.perm_middle.map key).trans ?_
          refine (hrest.cons (key x)).trans (List.Perm.map key ?_ : ((x :: _).map key).Perm _)
          rw [List.append_assoc]
          refine List.perm_middle.symm.trans (List.Perm.append_left pre (List.Perm.cons x ?_))
          exact (List.perm_append_singleton last mid).symm
      · rw [sweep_keep (by simpa using hx), List.filter_cons_of_neg (p := fun x ↦ dead (f x)) hx]
        refine (ih (pre ++ [f x]) post).trans (List.Perm.of_eq ?_)
        simp [hkey]

/-- The first element that is to be removed is looked at. -/
theorem exists_dead_sweep {fuel : ℕ} {pre post : List α} (hfuel : post.length ≤ fuel)
    (h : ∃ x ∈ post, dead (f x) = true) :
    ∃ x ∈ (sweep f dead fuel pre.length (pre ++ post)).2, dead (f x) = true := by
  induction post generalizing fuel pre with
  | nil =>
    obtain ⟨x, hx, -⟩ := h
    exact absurd hx List.not_mem_nil
  | cons x post ih =>
    obtain ⟨fuel, rfl⟩ : ∃ k, fuel = k + 1 := ⟨fuel - 1, by rw [List.length_cons] at hfuel; omega⟩
    by_cases hx : dead (f x) = true
    · rcases List.eq_nil_or_concat post with rfl | ⟨mid, last, rfl⟩
      · rw [sweep_drop_last hx]
        exact ⟨x, List.mem_cons_self, hx⟩
      · rw [List.concat_eq_append, sweep_drop hx]
        exact ⟨x, List.mem_cons_self, hx⟩
    · obtain ⟨y, hy, hdead⟩ := h
      have hmem : y ∈ post := by
        rcases List.mem_cons.1 hy with rfl | hy
        · exact absurd hdead hx
        · exact hy
      rw [List.length_cons] at hfuel
      obtain ⟨z, hz, hdead⟩ := @ih fuel (pre ++ [f x]) (by omega) ⟨y, hmem, hdead⟩
      rw [sweep_keep (by simpa using hx)]
      exact ⟨z, List.mem_cons_of_mem _ hz, hdead⟩

/-- What every element has is kept, if those that stay keep it. -/
theorem forall_mem_sweep {P : α → Prop} (hstep : ∀ x, P x → dead (f x) = false → P (f x))
    {fuel i : ℕ} {l : List α} (h : ∀ x ∈ l, P x) : ∀ x ∈ (sweep f dead fuel i l).1, P x := by
  induction fuel generalizing i l with
  | zero => exact h
  | succ fuel ih =>
    rw [sweep]
    cases hget : l[i]? with
    | none => exact h
    | some x =>
      refine ih fun y hy ↦ ?_
      split_ifs at hy with hx
      · rw [swapPop_set (List.getElem?_eq_some_iff.1 hget).1] at hy
        exact h y ((perm_swapPop hget).mem_iff.2 (List.mem_cons_of_mem _ hy))
      · rcases List.mem_or_eq_of_mem_set hy with hy | rfl
        · exact h y hy
        · exact hstep x (h x (List.mem_of_getElem? hget)) (by simpa using hx)

end SwapPop
