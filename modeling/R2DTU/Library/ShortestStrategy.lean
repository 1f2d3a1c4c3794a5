import R2DTU.Library.AndOr

/-!
# Breadth-first search finds the shortest strategies

`Problem.SolvableIn n` bounds the number of moves of a strategy in the worst case, and
`Problem.RefutableIn n` that of a refutation. `Levels` gives every node of a search tree the number
of moves above it.

## What each result rests on

* `Exact.solved_of_solvableIn` and `Exact.dead_of_refutableIn` use that a search which takes the
  nodes in the order of their depth has decided everything above its present level: what needs no
  more moves than there are levels decided has its mark.
* `Layered` is the order of a queue. Whatever is expanded is one level above what is appended, so
  two levels at most are in the queue at any time.
-/

namespace AndOr

universe u

variable {S : Type u}

/-- A goal is reached after `n` moves at most, whatever the outcomes. -/
def Problem.SolvableIn (P : Problem S) : ℕ → S → Prop
  | 0, s => P.goal s
  | n + 1, s => P.goal s ∨ ∃ ts, P.move s ts ∧ ∀ t ∈ ts, P.SolvableIn n t

/-- After `n` moves at most there is no move left, for some outcome of each. -/
def Problem.RefutableIn (P : Problem S) : ℕ → S → Prop
  | 0, s => ¬ P.goal s ∧ ∀ ts, ¬ P.move s ts
  | n + 1, s => ¬ P.goal s ∧ ∀ ts, P.move s ts → ∃ t ∈ ts, P.RefutableIn n t

section Bounds

variable {P : Problem S} {n m : ℕ} {s : S}

theorem Problem.solvableIn_of_goal (h : P.goal s) : P.SolvableIn n s := by
  cases n with
  | zero => exact h
  | succ n => exact Or.inl h

theorem Problem.SolvableIn.mono (hle : n ≤ m) (h : P.SolvableIn n s) : P.SolvableIn m s := by
  induction n generalizing m s with
  | zero => exact solvableIn_of_goal h
  | succ n ih =>
    obtain ⟨m, rfl⟩ : ∃ k, m = k + 1 := ⟨m - 1, by omega⟩
    rcases h with hgoal | ⟨ts, hmove, hts⟩
    · exact solvableIn_of_goal hgoal
    · exact Or.inr ⟨ts, hmove, fun t ht ↦ ih (Nat.le_of_succ_le_succ hle) (hts t ht)⟩

theorem Problem.SolvableIn.solvable (h : P.SolvableIn n s) : P.Solvable s := by
  induction n generalizing s with
  | zero => exact .goal h
  | succ n ih =>
    rcases h with hgoal | ⟨ts, hmove, hts⟩
    · exact .goal hgoal
    · exact .move hmove fun t ht ↦ ih (hts t ht)

theorem Problem.RefutableIn.not_goal (h : P.RefutableIn n s) : ¬ P.goal s := by
  cases n with
  | zero => exact h.1
  | succ n => exact h.1

/-- A move from a state that is refutable has a refutable outcome. -/
theorem Problem.RefutableIn.exists_outcome (h : P.RefutableIn n s) {ts : List S}
    (hmove : P.move s ts) : ∃ k, n = k + 1 ∧ ∃ t ∈ ts, P.RefutableIn k t := by
  cases n with
  | zero => exact absurd hmove (h.2 ts)
  | succ k => exact ⟨k, rfl, h.2 ts hmove⟩

theorem Problem.RefutableIn.refutable (h : P.RefutableIn n s) : P.Refutable s := by
  induction n generalizing s with
  | zero => exact Problem.refutable_iff.2 ⟨h.1, fun ts hts ↦ absurd hts (h.2 ts)⟩
  | succ n ih =>
    refine Problem.refutable_iff.2 ⟨h.1, fun ts hts ↦ ?_⟩
    obtain ⟨t, ht, hr⟩ := h.2 ts hts
    exact ⟨t, ht, ih hr⟩

end Bounds

/-! ### Levels of a tree -/

namespace MarkedTree

variable {T : MarkedTree S} {depth : ℕ → ℕ}

/-- `depth` counts the moves above a node: the outcomes of a move are one level below it. -/
structure Levels (T : MarkedTree S) (depth : ℕ → ℕ) : Prop where
  of_or {i c : ℕ} (hi : i < T.size) (hor : ¬ T.isAnd i) (hc : c ∈ T.children i) :
    depth c = depth i
  of_and {i c : ℕ} (hi : i < T.size) (hand : T.isAnd i) (hc : c ∈ T.children i) :
    depth c = depth i + 1

/-- The outcomes of a child of an Or node. -/
theorem Coherent.grandchild {excused : Mark → ℕ → Prop} (h : T.Coherent excused)
    (hl : T.Levels depth) {i c : ℕ} (hi : i < T.size) (hor : ¬ T.isAnd i)
    (hc : c ∈ T.children i) : c < T.size ∧ T.isAnd c ∧ T.children c ≠ [] ∧
      ∀ d ∈ T.children c, d < T.size ∧ i < d ∧ ¬ T.isAnd d ∧ depth d = depth i + 1 := by
  obtain ⟨hic, hcs⟩ := h.child_lt hi hc
  have hand : T.isAnd c := (h.child_isAnd hi hc).2 hor
  refine ⟨hcs, hand, h.and_ne_nil hcs hand, fun d hd ↦ ?_⟩
  obtain ⟨hcd, hds⟩ := h.child_lt hcs hd
  refine ⟨hds, Nat.lt_trans hic hcd, fun hda ↦ (h.child_isAnd hcs hd).1 hda hand, ?_⟩
  rw [hl.of_and hcs hand hd, hl.of_or hi hor hc]

section Decided

variable {P : Problem S} {level : ℕ}

/-- Above the level, every Or leaf has a mark. -/
def DecidedAbove (T : MarkedTree S) (depth : ℕ → ℕ) (level : ℕ) : Prop :=
  ∀ {i : ℕ}, i < T.size → ¬ T.isAnd i → T.children i = [] → T.Unmarked i → level ≤ depth i

/-- A mark that is due is there. -/
theorem Exact.marked_of_due (h : T.Exact) {m : Mark} {i : ℕ} (hi : i < T.size)
    (hne : T.children i ≠ []) (hd : T.Due m i) : T.marked m i :=
  h.complete hi hne id hd

/-- **A short strategy has been found**: a node whose strategy ends above the level is solved. -/
theorem Exact.solved_of_solvableIn (h : T.Exact) (hP : T.Represents P) (hl : T.Levels depth)
    (hdec : T.DecidedAbove depth level) {n i : ℕ} (hi : i < T.size) (hor : ¬ T.isAnd i)
    (hlevel : depth i + n < level) (hs : P.SolvableIn n (T.state i)) :
    T.marked Mark.solved i := by
  induction n generalizing i with
  | zero =>
    have hleaf : T.children i = [] := not_not.1 fun hne ↦ hP.not_goal hi hor hne hs
    obtain ⟨m, hm⟩ := not_forall_not.1 fun hu ↦ Nat.not_le_of_lt hlevel (hdec hi hor hleaf hu)
    cases m with
    | solved => exact hm
    | dead => exact absurd hs (hP.stuck_of_dead hi hor hleaf hm).1
  | succ n ih =>
    by_cases hleaf : T.children i = []
    · -- a leaf above the level is decided, and it is not dead: it is a goal or has a move
      have hdecided : ¬ T.Unmarked i := fun hu ↦ by
        have hle := hdec hi hor hleaf hu
        omega
      obtain ⟨m, hm⟩ := not_forall_not.1 hdecided
      cases m with
      | solved => exact hm
      | dead =>
        obtain ⟨hng, hnm⟩ := hP.stuck_of_dead hi hor hleaf hm
        rcases hs with hgoal | ⟨ts, hmove, -⟩
        · exact absurd hgoal hng
        · exact absurd hmove (hnm ts)
    · rcases hs with hgoal | ⟨ts, hmove, hts⟩
      · exact absurd hgoal (hP.not_goal hi hor hleaf)
      · obtain ⟨c, hc, rfl⟩ := (hP.move_iff hi hor hleaf ts).1 hmove
        obtain ⟨hcs, hand, hcne, hgrand⟩ := h.grandchild hl hi hor hc
        have hall : ∀ d ∈ T.children c, T.marked Mark.solved d := fun d hd ↦ by
          obtain ⟨hds, -, hdor, hdepth⟩ := hgrand d hd
          exact ih hds hdor (by omega) (hts _ (List.mem_map_of_mem hd))
        have hcm : T.marked Mark.solved c := h.marked_of_due hcs hcne
          ⟨fun _ ↦ hall, fun hna ↦ absurd (iff_of_true rfl hand) hna⟩
        exact h.marked_of_due hi hleaf
          ⟨fun hneeds ↦ absurd (hneeds.1 rfl) hor, fun _ ↦ ⟨c, hc, hcm⟩⟩

/-- **A short refutation has been found.** -/
theorem Exact.dead_of_refutableIn (h : T.Exact) (hP : T.Represents P) (hl : T.Levels depth)
    (hdec : T.DecidedAbove depth level) {n i : ℕ} (hi : i < T.size) (hor : ¬ T.isAnd i)
    (hlevel : depth i + n < level) (hr : P.RefutableIn n (T.state i)) :
    T.marked Mark.dead i := by
  induction n using Nat.strong_induction_on generalizing i with
  | _ n ih =>
    by_cases hleaf : T.children i = []
    · have hdecided : ¬ T.Unmarked i := fun hu ↦ by
        have hle := hdec hi hor hleaf hu
        omega
      obtain ⟨m, hm⟩ := not_forall_not.1 hdecided
      cases m with
      | solved => exact absurd (hP.goal_of_solved hi hor hleaf hm) hr.not_goal
      | dead => exact hm
    · have hchild : ∀ c ∈ T.children i, T.marked Mark.dead c := by
        intro c hc
        obtain ⟨hcs, hand, hcne, hgrand⟩ := h.grandchild hl hi hor hc
        have hmove := (hP.move_iff hi hor hleaf _).2 ⟨c, hc, rfl⟩
        obtain ⟨k, rfl, t, ht, hrt⟩ := hr.exists_outcome hmove
        obtain ⟨d, hd, rfl⟩ := List.mem_map.1 ht
        obtain ⟨hds, -, hdor, hdepth⟩ := hgrand d hd
        have hdm := ih k (Nat.lt_succ_self k) hds hdor (by omega) hrt
        exact h.marked_of_due hcs hcne
          ⟨fun hneeds ↦ absurd (hneeds.2 hand) Mark.noConfusion, fun _ ↦ ⟨d, hd, hdm⟩⟩
      exact h.marked_of_due hi hleaf
        ⟨fun _ ↦ hchild, fun hna ↦ absurd (iff_of_false Mark.noConfusion hor) hna⟩

end Decided

end MarkedTree

/-! ### The order of a queue -/

/-- The queue is sorted by depth, and holds nodes of two levels at most. -/
structure Layered (depth : ℕ → ℕ) (level : ℕ) (queue : List ℕ) : Prop where
  /-- Depths do not fall. -/
  sorted : queue.Pairwise (depth · ≤ depth ·)
  /-- There are two levels at most. -/
  mem {i : ℕ} (hi : i ∈ queue) : level ≤ depth i ∧ depth i ≤ level + 1

namespace Layered

variable {depth depth' : ℕ → ℕ} {level front : ℕ} {rest new : List ℕ}

/-- The front gives the level of the next round. -/
theorem pop (h : Layered depth level (front :: rest)) : Layered depth (depth front) rest where
  sorted := (List.pairwise_cons.1 h.sorted).2
  mem {i} hi := by
    have hfront := (h.mem List.mem_cons_self).1
    have hmem := (h.mem (List.mem_cons_of_mem front hi)).2
    exact ⟨(List.pairwise_cons.1 h.sorted).1 i hi, by omega⟩

/-- What is appended comes from the level and lies one below it. -/
theorem append (h : Layered depth level rest) (hnew : ∀ i ∈ new, depth i = level + 1) :
    Layered depth level (rest ++ new) where
  sorted := by
    refine List.pairwise_append.2 ⟨h.sorted, ?_, fun i hi j hj ↦ ?_⟩
    · refine List.pairwise_iff_forall_sublist.2 fun {i j} hij ↦ ?_
      have hi := hnew i (hij.subset List.mem_cons_self)
      have hj := hnew j (hij.subset (List.mem_cons_of_mem i List.mem_cons_self))
      exact Nat.le_of_eq (hi.trans hj.symm)
    · rw [hnew j hj]
      exact (h.mem hi).2
  mem {i} hi := by
    rcases List.mem_append.1 hi with hi | hi
    · exact h.mem hi
    · rw [hnew i hi]
      exact ⟨Nat.le_succ level, Nat.le_refl _⟩

theorem congr (h : Layered depth level rest) (heq : ∀ i ∈ rest, depth' i = depth i) :
    Layered depth' level rest where
  sorted := h.sorted.imp_of_mem fun {i j} hi hj hij ↦ by rwa [heq i hi, heq j hj]
  mem {i} hi := by
    rw [heq i hi]
    exact h.mem hi

/-- Nothing in the queue is above its front. -/
theorem front_le (h : Layered depth level (front :: rest)) {i : ℕ} (hi : i ∈ front :: rest) :
    depth front ≤ depth i := by
  rcases List.mem_cons.1 hi with rfl | hi
  · exact Nat.le_refl _
  · exact (List.pairwise_cons.1 h.sorted).1 i hi

end Layered

end AndOr
