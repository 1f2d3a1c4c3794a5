import Mathlib.Data.List.Basic

/-!
# Greedy selection

Elements are taken in a given order, and one that conflicts with an element taken before is passed
over. No two of the selected elements conflict (`pairwise_select`), and what is passed over
conflicts with a selected element that comes before it in every order the list is sorted by
(`mem_select_or_exists`). For pairs that conflict when they share an end, in the order of their
weights, this is a matching that no pair outside it can improve.
-/

namespace Greedy

universe u

variable {ε : Type u} (conflict : ε → ε → Prop) [DecidableRel conflict]

/-- Go through a list, with what has been selected so far. -/
def select (selected : List ε) : List ε → List ε
  | [] => selected
  | e :: es =>
    if ∃ m ∈ selected, conflict m e then select selected es else select (selected ++ [e]) es

variable {conflict} {selected es : List ε}

theorem mem_select_of_mem {m : ε} (h : m ∈ selected) : m ∈ select conflict selected es := by
  induction es generalizing selected with
  | nil => exact h
  | cons e es ih =>
    rw [select]
    split_ifs
    · exact ih h
    · exact ih (List.mem_append_left _ h)

theorem mem_of_mem_select {m : ε} (h : m ∈ select conflict selected es) :
    m ∈ selected ∨ m ∈ es := by
  induction es generalizing selected with
  | nil => exact Or.inl h
  | cons e es ih =>
    rw [select] at h
    split_ifs at h
    · exact (ih h).imp_right (List.mem_cons_of_mem e)
    · rcases ih h with hm | hm
      · rcases List.mem_append.1 hm with hm | hm
        · exact Or.inl hm
        · exact Or.inr (List.mem_singleton.1 hm ▸ List.mem_cons_self)
      · exact Or.inr (List.mem_cons_of_mem e hm)

/-- **No conflicts** among the selected elements. -/
theorem pairwise_select (h : selected.Pairwise fun m m' ↦ ¬ conflict m m') :
    (select conflict selected es).Pairwise fun m m' ↦ ¬ conflict m m' := by
  induction es generalizing selected with
  | nil => exact h
  | cons e es ih =>
    rw [select]
    split_ifs with he
    · exact ih h
    · refine ih (List.pairwise_append.2 ⟨h, List.pairwise_singleton _ _, fun m hm m' hm' ↦ ?_⟩)
      obtain rfl := List.mem_singleton.1 hm'
      exact fun hconflict ↦ he ⟨m, hm, hconflict⟩

/-- **What is passed over** conflicts with a selected element that is before it. -/
theorem mem_select_or_exists {before : ε → ε → Prop} (h : (selected ++ es).Pairwise before) {e : ε}
    (he : e ∈ es) : e ∈ select conflict selected es ∨
      ∃ m ∈ select conflict selected es, conflict m e ∧ before m e := by
  induction es generalizing selected with
  | nil => exact absurd he List.not_mem_nil
  | cons e' es ih =>
    rw [select]
    split_ifs with hconflict
    · rcases List.mem_cons.1 he with rfl | he
      · obtain ⟨m, hm, hm'⟩ := hconflict
        have hbefore := (List.pairwise_append.1 h).2.2 m hm e List.mem_cons_self
        exact Or.inr ⟨m, mem_select_of_mem hm, hm', hbefore⟩
      · exact ih (h.sublist ((List.sublist_cons_self e' es).append_left selected)) he
    · rcases List.mem_cons.1 he with rfl | he
      · exact Or.inl (mem_select_of_mem (List.mem_append_right _ (List.mem_singleton_self e)))
      · exact ih (by rwa [List.append_assoc, List.singleton_append]) he

end Greedy
