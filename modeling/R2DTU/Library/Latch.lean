import Mathlib.Data.List.Basic

/-!
# A latch that is written in some rounds and read after each

In each round a latch takes any number of writes, and it is read when the round is over. A round
without a write reads what the rounds before it have left. When the latch should have been reset at
the start of a round, such rounds are those that can tell (`reads_eq_iff`).
-/

namespace Latch

universe u

variable {β : Type u}

/-- What is read after each round, for a latch that starts with `b`. A round is a list of writes. -/
def reads (b : β) : List (List β) → List β
  | [] => []
  | ws :: rounds => ws.getLastD b :: reads (ws.getLastD b) rounds

theorem getLastD_append (ws vs : List β) (b : β) :
    (ws ++ vs).getLastD b = vs.getLastD (ws.getLastD b) := by
  induction ws generalizing b with
  | nil => rfl
  | cons w ws ih => rw [List.cons_append, List.getLastD_cons, List.getLastD_cons, ih]

theorem getLastD_eq_getLastD_iff {ws : List β} {a b : β} :
    ws.getLastD b = ws.getLastD a ↔ (ws = [] → b = a) := by
  cases ws with
  | nil => exact ⟨fun h _ ↦ h, fun h ↦ h rfl⟩
  | cons w ws =>
    rw [List.getLastD_cons, List.getLastD_cons]
    exact iff_of_true rfl nofun

theorem reads_append (b : β) (rounds rounds' : List (List β)) :
    reads b (rounds ++ rounds') = reads b rounds ++ reads (rounds.flatten.getLastD b) rounds' := by
  induction rounds generalizing b with
  | nil => rfl
  | cons ws rounds ih =>
    rw [List.cons_append, reads, reads, ih, List.flatten_cons, getLastD_append, List.cons_append]

/-- **Reading as after a reset** to `a` in each round. It means that a round without a write finds
`a` in the latch. -/
theorem reads_eq_iff {a b : β} {rounds : List (List β)} :
    reads b rounds = rounds.map (fun ws ↦ ws.getLastD a) ↔
      ∀ k, rounds[k]? = some [] → (rounds.take k).flatten.getLastD b = a := by
  induction rounds generalizing b with
  | nil => exact iff_of_true rfl fun k hk ↦ absurd hk (by simp)
  | cons ws rounds ih =>
    rw [reads, List.map_cons, List.cons_eq_cons, getLastD_eq_getLastD_iff, ih]
    constructor
    · rintro ⟨hfirst, hrest⟩ k hk
      rcases k with - | k
      · exact hfirst (Option.some.inj hk)
      · rw [List.take_succ_cons, List.flatten_cons, getLastD_append]
        exact hrest k hk
    · intro h
      refine ⟨fun hws ↦ h 0 (congrArg some hws), fun k hk ↦ ?_⟩
      have hrest := h (k + 1) hk
      rwa [List.take_succ_cons, List.flatten_cons, getLastD_append] at hrest

end Latch
