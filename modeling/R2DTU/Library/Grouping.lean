import Mathlib.Data.List.Induction
import Mathlib.Data.List.Nodup

/-!
# Grouping by a key

Entries with a key are collected one by one in a list of groups: an entry goes to the end of the
group of its key, and a key that comes for the first time opens a group at the end of the list.

No key has two groups (`nodup_keys_group`), and a group has the values of its key in the order of
the entries (`mem_group_iff`). Nothing else about the list of groups is needed to look something up
in it.
-/

namespace Grouping

universe u v

variable {κ : Type u} {β : Type v} [DecidableEq κ]

/-- Put a value into the group of its key. -/
def push (k : κ) (b : β) : List (κ × List β) → List (κ × List β)
  | [] => [(k, [b])]
  | (k', bs) :: gs => if k' = k then (k', bs ++ [b]) :: gs else (k', bs) :: push k b gs

/-- The groups of some entries. -/
def group (es : List (κ × β)) : List (κ × List β) := es.foldl (fun gs e ↦ push e.1 e.2 gs) []

/-- The values of the entries with a key. -/
def valuesAt (k : κ) (es : List (κ × β)) : List β :=
  es.filterMap fun e ↦ if e.1 = k then some e.2 else none

variable {k k' : κ} {b : β} {bs : List β} {gs : List (κ × List β)} {es : List (κ × β)}

theorem mem_valuesAt : b ∈ valuesAt k es ↔ (k, b) ∈ es := by
  rw [valuesAt, List.mem_filterMap]
  constructor
  · rintro ⟨⟨k', b'⟩, he, hb⟩
    split_ifs at hb with hk
    obtain rfl := Option.some.inj hb
    exact hk ▸ he
  · exact fun he ↦ ⟨(k, b), he, if_pos rfl⟩

theorem valuesAt_concat (k : κ) (es : List (κ × β)) (e : κ × β) :
    valuesAt k (es ++ [e]) = if e.1 = k then valuesAt k es ++ [e.2] else valuesAt k es := by
  have hlast : valuesAt k [e] = if e.1 = k then [e.2] else [] := by
    rw [valuesAt, List.filterMap_cons]
    split_ifs <;> rfl
  rw [valuesAt, List.filterMap_append]
  show valuesAt k es ++ valuesAt k [e] = _
  rw [hlast]
  split_ifs
  · rfl
  · exact List.append_nil _

theorem group_concat (es : List (κ × β)) (e : κ × β) :
    group (es ++ [e]) = push e.1 e.2 (group es) := by
  rw [group, List.foldl_append]
  rfl

/-! ### One entry -/

/-- A key keeps its place or comes last. -/
theorem map_fst_push (k : κ) (b : β) (gs : List (κ × List β)) :
    (push k b gs).map Prod.fst =
      if k ∈ gs.map Prod.fst then gs.map Prod.fst else gs.map Prod.fst ++ [k] := by
  induction gs with
  | nil => rfl
  | cons g gs ih =>
    obtain ⟨k', bs⟩ := g
    by_cases hk : k' = k
    · rw [push, if_pos hk, if_pos (by rw [hk]; exact List.mem_cons_self)]
      rfl
    · have hiff : k ∈ ((k', bs) :: gs).map Prod.fst ↔ k ∈ gs.map Prod.fst := by
        rw [List.map_cons, List.mem_cons]
        exact or_iff_right (Ne.symm hk)
      rw [push, if_neg hk, List.map_cons, ih]
      simp only [hiff]
      split_ifs <;> rfl

theorem mem_push_of_ne (hk : k' ≠ k) : (k', bs) ∈ push k b gs ↔ (k', bs) ∈ gs := by
  induction gs with
  | nil => simp [push, hk]
  | cons g gs ih =>
    obtain ⟨k'', bs'⟩ := g
    by_cases hk'' : k'' = k
    · rw [push, if_pos hk'', List.mem_cons, List.mem_cons, hk'']
      simp [hk]
    · rw [push, if_neg hk'', List.mem_cons, List.mem_cons, ih]

/-- The group of the key of the entry. -/
theorem mem_push_self (hnodup : (gs.map Prod.fst).Nodup) :
    (k, bs) ∈ push k b gs ↔
      (∃ bs', (k, bs') ∈ gs ∧ bs = bs' ++ [b]) ∨ (k ∉ gs.map Prod.fst ∧ bs = [b]) := by
  induction gs with
  | nil => simp [push]
  | cons g gs ih =>
    obtain ⟨k', bs'⟩ := g
    rw [List.map_cons, List.nodup_cons] at hnodup
    by_cases hk : k' = k
    · subst hk
      have hout : ∀ bs, (k', bs) ∉ gs := fun bs hmem ↦
        hnodup.1 (List.mem_map.2 ⟨_, hmem, rfl⟩)
      rw [push, if_pos rfl]
      simp [hout]
    · rw [push, if_neg hk]
      simp [Ne.symm hk, ih hnodup.2]

/-! ### All entries -/

theorem nodup_keys_group (es : List (κ × β)) : ((group es).map Prod.fst).Nodup := by
  induction es using List.reverseRecOn with
  | nil => exact List.nodup_nil
  | append_singleton es e ih =>
    rw [group_concat, map_fst_push]
    split_ifs with hk
    · exact ih
    · exact ih.append (List.nodup_singleton _) (List.disjoint_singleton.2 hk)

theorem mem_group_iff : (k, bs) ∈ group es ↔ bs = valuesAt k es ∧ bs ≠ [] := by
  induction es using List.reverseRecOn generalizing k bs with
  | nil => simp [group, valuesAt]
  | append_singleton es e ih =>
    obtain ⟨k', b⟩ := e
    rw [group_concat, valuesAt_concat]
    by_cases hk : k' = k
    · subst hk
      have hkey : k' ∈ (group es).map Prod.fst ↔ valuesAt k' es ≠ [] := by
        rw [List.mem_map]
        constructor
        · rintro ⟨⟨_, bs'⟩, hmem, rfl⟩
          obtain ⟨rfl, hne⟩ := ih.1 hmem
          exact hne
        · exact fun hne ↦ ⟨(k', valuesAt k' es), ih.2 ⟨rfl, hne⟩, rfl⟩
      rw [mem_push_self (nodup_keys_group es), if_pos rfl, hkey, not_not]
      constructor
      · rintro (⟨bs', hmem, rfl⟩ | ⟨hnil, rfl⟩)
        · rw [(ih.1 hmem).1]
          exact ⟨rfl, by simp⟩
        · rw [hnil]
          exact ⟨rfl, by simp⟩
      · rintro ⟨rfl, -⟩
        by_cases hnil : valuesAt k' es = []
        · exact Or.inr ⟨hnil, by rw [hnil]; rfl⟩
        · exact Or.inl ⟨_, ih.2 ⟨rfl, hnil⟩, rfl⟩
    · rw [mem_push_of_ne (Ne.symm hk), if_neg hk]
      exact ih

end Grouping
