import R2DTU.Library.FilterBefore
import Mathlib.Data.List.Induction
import Mathlib.Data.List.Nodup
import Mathlib.Logic.Function.Basic

/-!
# A store in the order of first arrival

Entries with a key arrive one by one. An entry with a new key goes to the end of a list, and an
index remembers where; a later entry with that key takes its place. So the list has an entry for
each key that has arrived, in the order of the first arrivals, and it is the latest one (`Holds`).
-/

universe u v

/-- The keys in the order in which they come for the first time. -/
def firstArrivals {κ : Type u} [DecidableEq κ] (keys : List κ) : List κ :=
  filterBefore (fun before k ↦ !before.contains k) [] keys

/-- The entries, and where the entry of a key is. -/
structure KeyedStore (κ : Type u) (β : Type v) where
  /-- The entries, in the order in which their keys came first. -/
  entries : List β
  /-- The place of the entry of a key. -/
  index : κ → Option ℕ

/-- What is changed for one key only is changed at its place. -/
theorem map_eq_set {κ : Type u} {β : Type v} {l : List κ} {k : κ} (hnodup : l.Nodup) {i : ℕ}
    (hi : l[i]? = some k) {f g : κ → β} (hfg : ∀ k' ≠ k, g k' = f k') :
    l.map g = (l.map f).set i (g k) := by
  refine List.ext_getElem? fun j ↦ ?_
  rw [List.getElem?_map, List.getElem?_set, List.length_map]
  have hlt : i < l.length := (List.getElem?_eq_some_iff.1 hi).1
  split_ifs with hij
  · rw [← hij, hi, Option.map_some]
  · rw [List.getElem?_map]
    cases hj : l[j]? with
    | none => rfl
    | some k' =>
      have hne : k' ≠ k := by
        rintro rfl
        exact hij ((List.getElem?_inj hlt hnodup).1 (hi.trans hj.symm))
      rw [Option.map_some, Option.map_some, hfg k' hne]

theorem getElem?_concat_iff {κ : Type u} {l : List κ} {k k' : κ} {i : ℕ} :
    (l ++ [k])[i]? = some k' ↔ l[i]? = some k' ∨ (i = l.length ∧ k = k') := by
  rcases Nat.lt_trichotomy i l.length with hlt | rfl | hgt
  · rw [List.getElem?_append_left hlt]
    exact (or_iff_left fun h ↦ absurd h.1 (Nat.ne_of_lt hlt)).symm
  · simp
  · have hnone : (l ++ [k])[i]? = none := List.getElem?_eq_none (by simp; omega)
    have hnone' : l[i]? = none := List.getElem?_eq_none (Nat.le_of_lt hgt)
    rw [hnone, hnone']
    refine iff_of_false (Option.some_ne_none k').symm ?_
    rintro (h | ⟨h, -⟩)
    · exact Option.some_ne_none k' h.symm
    · exact Nat.ne_of_gt hgt h

section FirstArrivals

variable {κ : Type u} [DecidableEq κ] {keys : List κ} {k : κ}

theorem firstArrivals_concat (keys : List κ) (k : κ) : firstArrivals (keys ++ [k]) =
    if k ∈ keys then firstArrivals keys else firstArrivals keys ++ [k] := by
  rw [firstArrivals, filterBefore_concat, List.nil_append]
  by_cases hk : k ∈ keys
  · simp [hk, firstArrivals]
  · simp [hk, firstArrivals]

theorem mem_firstArrivals : k ∈ firstArrivals keys ↔ k ∈ keys := by
  induction keys using List.reverseRecOn with
  | nil => exact Iff.rfl
  | append_singleton keys k' ih =>
    rw [firstArrivals_concat, List.mem_append, List.mem_singleton]
    split_ifs with hk'
    · rw [ih]
      exact (or_iff_left_of_imp fun h ↦ h ▸ hk').symm
    · rw [List.mem_append, List.mem_singleton, ih]

theorem nodup_firstArrivals (keys : List κ) : (firstArrivals keys).Nodup := by
  induction keys using List.reverseRecOn with
  | nil => exact List.nodup_nil
  | append_singleton keys k ih =>
    rw [firstArrivals_concat]
    split_ifs with hk
    · exact ih
    · refine ih.append (List.nodup_singleton k) (List.disjoint_singleton.2 ?_)
      rwa [mem_firstArrivals]

end FirstArrivals

namespace KeyedStore

variable {κ : Type u} {β : Type v} [DecidableEq κ]

/-- No entry has arrived. -/
def empty : KeyedStore κ β := ⟨[], fun _ ↦ none⟩

/-- An entry arrives. -/
def put (s : KeyedStore κ β) (k : κ) (b : β) : KeyedStore κ β :=
  match s.index k with
  | some i => { s with entries := s.entries.set i b }
  | none => ⟨s.entries ++ [b], Function.update s.index k (some s.entries.length)⟩

/-- **What the store holds** after some arrivals. -/
structure Holds (s : KeyedStore κ β) (arrivals : List (κ × β)) : Prop where
  /-- For each key, in the order of first arrivals, the latest value. -/
  entries_eq : s.entries.map some =
    (firstArrivals (arrivals.map Prod.fst)).map fun k ↦ arrivals.reverse.lookup k
  /-- A key is found at its place among the first arrivals. -/
  index_iff {k : κ} {i : ℕ} :
    s.index k = some i ↔ (firstArrivals (arrivals.map Prod.fst))[i]? = some k

variable {s : KeyedStore κ β} {arrivals : List (κ × β)} {k : κ} {b : β}

theorem lookup_concat (k' : κ) : (arrivals ++ [(k, b)]).reverse.lookup k' =
    if k' = k then some b else arrivals.reverse.lookup k' := by
  rw [List.reverse_append, List.reverse_singleton, List.singleton_append, List.lookup_cons]
  split_ifs with hk
  · rw [beq_iff_eq.2 hk]
  · rw [beq_eq_false_iff_ne.2 hk]

theorem Holds.length_entries (h : s.Holds arrivals) :
    s.entries.length = (firstArrivals (arrivals.map Prod.fst)).length := by
  have hlength := congrArg List.length h.entries_eq
  rwa [List.length_map, List.length_map] at hlength

/-- A key that is known: its entry is replaced. -/
theorem Holds.set (h : s.Holds arrivals) {i : ℕ} (hindex : s.index k = some i) (b : β) :
    Holds { s with entries := s.entries.set i b } (arrivals ++ [(k, b)]) := by
  have hi := h.index_iff.1 hindex
  have hmem : k ∈ arrivals.map Prod.fst := mem_firstArrivals.1 (List.mem_of_getElem? hi)
  have hkeys : firstArrivals ((arrivals ++ [(k, b)]).map Prod.fst) =
      firstArrivals (arrivals.map Prod.fst) := by
    rw [List.map_append, List.map_singleton, firstArrivals_concat, if_pos hmem]
  refine ⟨?_, fun {k' i'} ↦ ?_⟩
  · rw [hkeys, List.map_set, h.entries_eq,
      map_eq_set (nodup_firstArrivals _) hi (f := fun k ↦ arrivals.reverse.lookup k)
        fun k' hne ↦ (lookup_concat k').trans (if_neg hne), lookup_concat, if_pos rfl]
  · rw [hkeys]
    exact h.index_iff

/-- A new key: its entry goes to the end. -/
theorem Holds.concat (h : s.Holds arrivals) (hindex : s.index k = none) (b : β) :
    Holds ⟨s.entries ++ [b], Function.update s.index k (some s.entries.length)⟩
      (arrivals ++ [(k, b)]) := by
  have hnew : k ∉ arrivals.map Prod.fst := by
    rw [← mem_firstArrivals, List.mem_iff_getElem?]
    rintro ⟨i, hi⟩
    exact absurd (hindex.symm.trans (h.index_iff.2 hi)) nofun
  have hkeys : firstArrivals ((arrivals ++ [(k, b)]).map Prod.fst) =
      firstArrivals (arrivals.map Prod.fst) ++ [k] := by
    rw [List.map_append, List.map_singleton, firstArrivals_concat, if_neg hnew]
  refine ⟨?_, fun {k' i'} ↦ ?_⟩
  · rw [hkeys, List.map_append, List.map_append, h.entries_eq, List.map_singleton,
      List.map_singleton, lookup_concat, if_pos rfl]
    congr 1
    refine List.map_congr_left fun k' hk' ↦ ?_
    rw [lookup_concat, if_neg]
    rintro rfl
    exact hnew (mem_firstArrivals.1 hk')
  · rw [hkeys, getElem?_concat_iff, ← h.index_iff, ← h.length_entries]
    show Function.update s.index k (some s.entries.length) k' = some i' ↔ _
    by_cases hk' : k' = k
    · subst hk'
      rw [Function.update_self, hindex, Option.some.injEq]
      exact ⟨fun hi' ↦ Or.inr ⟨hi'.symm, rfl⟩,
        fun hi' ↦ (hi'.resolve_left nofun).1.symm⟩
    · rw [Function.update_of_ne hk']
      exact (or_iff_left fun hi' ↦ hk' hi'.2.symm).symm

/-- **One arrival.** -/
theorem Holds.put (h : s.Holds arrivals) (k : κ) (b : β) :
    (s.put k b).Holds (arrivals ++ [(k, b)]) := by
  rw [KeyedStore.put]
  cases hindex : s.index k with
  | some i => exact h.set hindex b
  | none => exact h.concat hindex b

end KeyedStore
