import Mathlib.Data.List.Basic

/-!
# Removal by swapping with the last element

An element of a vector is removed in constant time by putting the last element in its place and
dropping the end. The order of the others changes: the last element comes to stand before everything
that followed the removed one. `swapPop_cases` says what the list looked like before and what it
looks like after, and the other lemmas follow from it.
-/

namespace SwapPop

universe u

variable {α : Type u}

/-- Put the last element at index `i` and drop the end. -/
def swapPop (l : List α) (i : ℕ) : List α :=
  match l.getLast? with
  | none => []
  | some last => (l.set i last).dropLast

@[simp] theorem swapPop_concat (pre : List α) (x : α) : swapPop (pre ++ [x]) pre.length = pre := by
  simp [swapPop]

@[simp] theorem swapPop_middle (pre mid : List α) (x last : α) :
    swapPop (pre ++ x :: (mid ++ [last])) pre.length = pre ++ last :: mid := by
  have hlast : (pre ++ x :: (mid ++ [last])).getLast? = some last := by
    rw [← List.cons_append, ← List.append_assoc, List.getLast?_concat]
  simp only [swapPop, hlast]
  rw [List.set_append_right _ _ (Nat.le_refl _), Nat.sub_self, List.set_cons_zero,
    ← List.cons_append, ← List.append_assoc, List.dropLast_concat]

/-- The list around an index. -/
theorem exists_split {l : List α} {i : ℕ} {x : α} (h : l[i]? = some x) :
    ∃ pre post, l = pre ++ x :: post ∧ pre.length = i := by
  obtain ⟨hi, rfl⟩ := List.getElem?_eq_some_iff.1 h
  refine ⟨l.take i, l.drop (i + 1), ?_, ?_⟩
  · rw [List.getElem_cons_drop, List.take_append_drop]
  · rw [List.length_take]
    omega

@[simp] theorem set_middle (pre post : List α) (x y : α) :
    (pre ++ x :: post).set pre.length y = pre ++ y :: post := by
  rw [List.set_append_right _ _ (Nat.le_refl _), Nat.sub_self, List.set_cons_zero]

/-- A relation between earlier and later elements is kept when one element is replaced by another
that takes part in it in the same way. -/
theorem pairwise_set {R : α → α → Prop} {l : List α} {i : ℕ} {x y : α} (h : l.Pairwise R)
    (hi : l[i]? = some x) (hleft : ∀ a ∈ l.take i, R a x → R a y) (hright : ∀ b, R x b → R y b) :
    (l.set i y).Pairwise R := by
  obtain ⟨pre, post, rfl, rfl⟩ := exists_split hi
  rw [set_middle]
  obtain ⟨hpre, hpost, hcross⟩ := List.pairwise_append.1 h
  obtain ⟨hx, hpost⟩ := List.pairwise_cons.1 hpost
  refine List.pairwise_append.2 ⟨hpre, List.pairwise_cons.2 ⟨fun b hb ↦ hright b (hx b hb), hpost⟩,
    fun a ha b hb ↦ ?_⟩
  rcases List.mem_cons.1 hb with rfl | hb
  · exact hleft a (by simpa using ha) (hcross a ha x (List.mem_cons_self ..))
  · exact hcross a ha b (List.mem_cons_of_mem _ hb)

/-- **What a removal does**: the element was the last one, or the last one takes its place. -/
theorem swapPop_cases {l : List α} {i : ℕ} {x : α} (h : l[i]? = some x) :
    (∃ pre, pre.length = i ∧ l = pre ++ [x] ∧ swapPop l i = pre) ∨
      ∃ pre mid last, pre.length = i ∧ l = pre ++ x :: (mid ++ [last]) ∧
        swapPop l i = pre ++ last :: mid := by
  obtain ⟨pre, post, rfl, rfl⟩ := exists_split h
  rcases List.eq_nil_or_concat post with rfl | ⟨mid, last, rfl⟩
  · exact Or.inl ⟨pre, rfl, rfl, swapPop_concat pre x⟩
  · rw [List.concat_eq_append]
    exact Or.inr ⟨pre, mid, last, rfl, rfl, swapPop_middle pre mid x last⟩

/-- What is at the index does not matter. -/
theorem swapPop_set {l : List α} {i : ℕ} (hi : i < l.length) (y : α) :
    swapPop (l.set i y) i = swapPop l i := by
  have hget : l[i]? = some l[i] := List.getElem?_eq_getElem hi
  generalize l[i] = x at hget
  rcases swapPop_cases hget with ⟨pre, rfl, rfl, hpop⟩ | ⟨pre, mid, last, rfl, rfl, hpop⟩
  · rw [hpop, set_middle, swapPop_concat]
  · rw [hpop, set_middle, swapPop_middle]

/-- The others stay, in another order. -/
theorem perm_swapPop {l : List α} {i : ℕ} {x : α} (h : l[i]? = some x) :
    l.Perm (x :: swapPop l i) := by
  rcases swapPop_cases h with ⟨pre, rfl, rfl, hpop⟩ | ⟨pre, mid, last, rfl, rfl, hpop⟩
  · rw [hpop]
    exact List.perm_append_singleton x pre
  · rw [hpop]
    refine List.perm_middle.trans (List.Perm.cons x ?_)
    rw [← List.append_assoc]
    exact (List.perm_append_singleton last (pre ++ mid)).trans List.perm_middle.symm

/-- **A relation between earlier and later elements** is kept when it holds from the last element to
those it is moved in front of. -/
theorem pairwise_swapPop {R : α → α → Prop} {l : List α} {i : ℕ} (hi : i < l.length)
    (h : l.Pairwise R)
    (hmove : ∀ last, l.getLast? = some last → ∀ y ∈ (l.drop (i + 1)).dropLast, R last y) :
    (swapPop l i).Pairwise R := by
  have hget : l[i]? = some l[i] := List.getElem?_eq_getElem hi
  generalize l[i] = x at hget
  rcases swapPop_cases hget with ⟨pre, rfl, rfl, hpop⟩ | ⟨pre, mid, last, rfl, rfl, hpop⟩
  · rw [hpop]
    exact (List.pairwise_append.1 h).1
  · rw [hpop]
    have hdrop : ((pre ++ x :: (mid ++ [last])).drop (pre.length + 1)).dropLast = mid := by
      simp
    have hlast : (pre ++ x :: (mid ++ [last])).getLast? = some last := by
      rw [← List.cons_append, ← List.append_assoc, List.getLast?_concat]
    have hmid := hmove last hlast
    rw [hdrop] at hmid
    obtain ⟨hpre, hrest, hcross⟩ := List.pairwise_append.1 h
    obtain ⟨-, hrest⟩ := List.pairwise_cons.1 hrest
    have hback := List.pairwise_cons.2 ⟨hmid, (List.pairwise_append.1 hrest).1⟩
    refine List.pairwise_append.2 ⟨hpre, hback, fun a ha b hb ↦ hcross a ha b ?_⟩
    rcases List.mem_cons.1 hb with rfl | hb
    · simp
    · simp [hb]

end SwapPop
