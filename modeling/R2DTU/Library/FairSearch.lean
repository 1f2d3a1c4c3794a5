import R2DTU.Library.AndOr
import Mathlib.Order.Lattice

/-!
# Searches that leave no leaf behind

A search that never ends is a sequence of marked trees, each of which extends the one before. It is
**fair** when a leaf without a mark is expanded or marked at some later time. Which leaf comes first
does not matter, and neither does what happens below the other branches: the height of a finite
strategy, or of a finite refutation, is all the time the root needs.

## What each result rests on

* `Endless.solved_of_solvable` is an induction on the strategy. An expanded node has the child of
  the strategy's move; the outcomes below it are solved at finitely many times, so there is a time
  at which all of them are, and exactness of that tree puts the mark on the child and on the node.
* `Endless.dead_of_refutable` is the dual induction. Here finiteness is used twice, for the children
  of the node and for nothing else: one outcome per child is enough.
* `exists_front` is how a queue is fair: an element with `k` others before it is in front after `k`
  rounds.
-/

namespace AndOr

universe u

variable {S : Type u}

/-- `T'` has the nodes of `T`, and perhaps more of them, more marks, and children of former
leaves. -/
structure MarkedTree.Extends (T T' : MarkedTree S) : Prop where
  /-- No node is lost. -/
  size_le : T.size ≤ T'.size
  isAnd_iff {i : ℕ} (hi : i < T.size) : T'.isAnd i ↔ T.isAnd i
  state_eq {i : ℕ} (hi : i < T.size) : T'.state i = T.state i
  /-- Inner nodes keep their children. -/
  children_eq {i : ℕ} (hi : i < T.size) (hne : T.children i ≠ []) : T'.children i = T.children i
  /-- Marks stay. -/
  marked {i : ℕ} {m : Mark} (h : T.marked m i) : T'.marked m i

namespace MarkedTree.Extends

variable {T T' T'' : MarkedTree S}

theorem refl (T : MarkedTree S) : T.Extends T :=
  ⟨le_rfl, fun _ ↦ Iff.rfl, fun _ ↦ rfl, fun _ _ ↦ rfl, id⟩

theorem trans (h : T.Extends T') (h' : T'.Extends T'') : T.Extends T'' where
  size_le := h.size_le.trans h'.size_le
  isAnd_iff hi := (h'.isAnd_iff (hi.trans_le h.size_le)).trans (h.isAnd_iff hi)
  state_eq hi := (h'.state_eq (hi.trans_le h.size_le)).trans (h.state_eq hi)
  children_eq {i} hi hne := by
    have hold := h.children_eq hi hne
    exact (h'.children_eq (hi.trans_le h.size_le) (hold ▸ hne)).trans hold
  marked hm := h'.marked (h.marked hm)

end MarkedTree.Extends

/-- A search without end for the problem, which comes to every leaf. -/
structure Endless (P : Problem S) (T : ℕ → MarkedTree S) : Prop where
  /-- The marks are right in every tree. -/
  exact (n : ℕ) : (T n).Exact
  /-- Every tree is one of the problem. -/
  represents (n : ℕ) : (T n).Represents P
  /-- Every tree extends the one before. -/
  extend (n : ℕ) : (T n).Extends (T (n + 1))
  /-- Every undecided leaf is expanded or marked at some time. -/
  fair {n i : ℕ} (hi : i < (T n).size) (hor : ¬ (T n).isAnd i) (hleaf : (T n).children i = [])
    (hu : (T n).Unmarked i) : ∃ m ≥ n, (T m).children i ≠ [] ∨ ∃ v, (T m).marked v i

/-- Finitely many things that happen, and stay, are some day all there. -/
theorem exists_forall_mem {Q : ℕ → ℕ → Prop} {n : ℕ}
    (hmono : ∀ {m m' d}, m ≤ m' → Q m d → Q m' d) (l : List ℕ)
    (h : ∀ d ∈ l, ∃ m ≥ n, Q m d) : ∃ m ≥ n, ∀ d ∈ l, Q m d := by
  induction l with
  | nil => exact ⟨n, le_rfl, fun d hd ↦ absurd hd List.not_mem_nil⟩
  | cons d l ih =>
    obtain ⟨m₁, hm₁, hd⟩ := h d List.mem_cons_self
    obtain ⟨m₂, hm₂, hl⟩ := ih fun d' hd' ↦ h d' (List.mem_cons_of_mem _ hd')
    refine ⟨max m₁ m₂, hm₁.trans (le_max_left _ _), fun d' hd' ↦ ?_⟩
    rcases List.mem_cons.1 hd' with rfl | hd'
    · exact hmono (le_max_left _ _) hd
    · exact hmono (le_max_right _ _) (hl d' hd')

namespace Endless

variable {P : Problem S} {T : ℕ → MarkedTree S} (h : Endless P T)

include h in
theorem extends_of_le {n m : ℕ} (hnm : n ≤ m) : (T n).Extends (T m) := by
  induction m, hnm using Nat.le_induction with
  | base => exact .refl _
  | succ m _ ih => exact ih.trans (h.extend m)

include h in
/-- Every Or node is expanded or marked. -/
theorem exists_decided {n i : ℕ} (hi : i < (T n).size) (hor : ¬ (T n).isAnd i) :
    ∃ m ≥ n, (T m).children i ≠ [] ∨ ∃ v, (T m).marked v i := by
  by_cases hleaf : (T n).children i = []
  · by_cases hu : (T n).Unmarked i
    · exact h.fair hi hor hleaf hu
    · obtain ⟨v, hv⟩ := not_forall_not.1 hu
      exact ⟨n, le_rfl, Or.inr ⟨v, hv⟩⟩
  · exact ⟨n, le_rfl, Or.inl hleaf⟩

include h in
/-- The children of an expanded Or node are And nodes, whose own children are Or nodes. -/
theorem grandchild {n i c : ℕ} (hi : i < (T n).size) (hor : ¬ (T n).isAnd i)
    (hc : c ∈ (T n).children i) : c < (T n).size ∧ (T n).isAnd c ∧ (T n).children c ≠ [] ∧
      ∀ d ∈ (T n).children c, d < (T n).size ∧ ¬ (T n).isAnd d := by
  have hex := h.exact n
  have hcs := (hex.child_lt hi hc).2
  have hand : (T n).isAnd c := (hex.child_isAnd hi hc).2 hor
  refine ⟨hcs, hand, hex.and_ne_nil hcs hand, fun d hd ↦ ⟨(hex.child_lt hcs hd).2, ?_⟩⟩
  exact fun hda ↦ (hex.child_isAnd hcs hd).1 hda hand

include h in
/-- A node keeps its place: later it is the same Or node of the same state. -/
theorem or_later {n m i : ℕ} (hnm : n ≤ m) (hi : i < (T n).size) (hor : ¬ (T n).isAnd i) :
    i < (T m).size ∧ ¬ (T m).isAnd i ∧ (T m).state i = (T n).state i := by
  have hext := h.extends_of_le hnm
  exact ⟨hi.trans_le hext.size_le, fun hand ↦ hor ((hext.isAnd_iff hi).1 hand), hext.state_eq hi⟩

include h in
/-- The children of an inner node are the ones it had, so a mark that their marks make due at a
later time is there at that time. -/
theorem marked_later {n m i : ℕ} {v : Mark} (hnm : n ≤ m) (hi : i < (T n).size)
    (hne : (T n).children i ≠ [])
    (hall : (T n).NeedsAll v i → ∀ c ∈ (T n).children i, (T m).marked v c)
    (hone : ¬ (T n).NeedsAll v i → ∃ c ∈ (T n).children i, (T m).marked v c) :
    (T m).marked v i := by
  have hext := h.extends_of_le hnm
  have hchildren := hext.children_eq hi hne
  have hneeds : (T m).NeedsAll v i ↔ (T n).NeedsAll v i := iff_congr Iff.rfl (hext.isAnd_iff hi)
  refine (h.exact m).complete (hi.trans_le hext.size_le) (hchildren ▸ hne) id ?_
  rw [MarkedTree.Due, hneeds, hchildren]
  exact ⟨hall, hone⟩

include h in
/-- **A finite strategy is found**, whatever else the search does. -/
theorem solved_of_solvable {s : S} (hs : P.Solvable s) :
    ∀ {n i : ℕ}, i < (T n).size → ¬ (T n).isAnd i → (T n).state i = s →
      ∃ m ≥ n, (T m).marked Mark.solved i := by
  -- a decided node is solved, unless it is expanded: its state is solvable, so it is not dead
  have hdecided : ∀ {s n i}, P.Solvable s → i < (T n).size → ¬ (T n).isAnd i →
      (T n).state i = s → ∃ m ≥ n, (T m).children i ≠ [] ∨ (T m).marked Mark.solved i := by
    intro s n i hs hi hor hstate
    obtain ⟨m, hm, hne | ⟨v, hv⟩⟩ := h.exists_decided hi hor
    · exact ⟨m, hm, Or.inl hne⟩
    · cases v with
      | solved => exact ⟨m, hm, Or.inr hv⟩
      | dead =>
        obtain ⟨hi', hor', hstate'⟩ := h.or_later hm hi hor
        have hnot := (h.exact m).not_solvable_of_dead (h.represents m) hi' hor' hv
        rw [hstate', hstate] at hnot
        exact absurd hs hnot
  induction hs with
  | @goal s hgoal =>
    intro n i hi hor hstate
    obtain ⟨m, hm, hne | hv⟩ := hdecided (.goal hgoal) hi hor hstate
    · obtain ⟨hi', hor', hstate'⟩ := h.or_later hm hi hor
      have hng := (h.represents m).not_goal hi' hor' hne
      rw [hstate', hstate] at hng
      exact absurd hgoal hng
    · exact ⟨m, hm, hv⟩
  | @move s ts hmove hts ih =>
    intro n i hi hor hstate
    obtain ⟨m, hm, hne | hv⟩ := hdecided (.move hmove hts) hi hor hstate
    · obtain ⟨hi', hor', hstate'⟩ := h.or_later hm hi hor
      rw [← hstate, ← hstate'] at hmove
      obtain ⟨c, hc, rfl⟩ := ((h.represents m).move_iff hi' hor' hne ts).1 hmove
      obtain ⟨hcs, hand, hcne, hgrand⟩ := h.grandchild hi' hor' hc
      obtain ⟨k, hk, hall⟩ := @exists_forall_mem (fun k d ↦ (T k).marked Mark.solved d) m
        (fun hle hd ↦ (h.extends_of_le hle).marked hd) ((T m).children c) fun d hd ↦
          ih _ (List.mem_map_of_mem hd) (hgrand d hd).1 (hgrand d hd).2 rfl
      -- at that time the mark is due at the child and then at the node
      have hcmark : (T k).marked Mark.solved c :=
        h.marked_later hk hcs hcne (fun _ ↦ hall) fun hna ↦ absurd (iff_of_true rfl hand) hna
      refine ⟨k, hm.le.trans hk, h.marked_later hk hi' hne (fun hneeds ↦ ?_) fun _ ↦
        ⟨c, hc, hcmark⟩⟩
      exact absurd (hneeds.1 rfl) hor'
    · exact ⟨m, hm, hv⟩

include h in
/-- **A finite refutation is found**, whatever else the search does. -/
theorem dead_of_refutable {s : S} (hs : P.Refutable s) :
    ∀ {n i : ℕ}, i < (T n).size → ¬ (T n).isAnd i → (T n).state i = s →
      ∃ m ≥ n, (T m).marked Mark.dead i := by
  induction hs with
  | @intro s reply hgoal hmem hreply ih =>
    intro n i hi hor hstate
    have hnot : ¬ P.Solvable s := (Problem.Refutable.intro reply hgoal hmem hreply).not_solvable
    obtain ⟨m, hm, hdec⟩ := h.exists_decided hi hor
    obtain ⟨hi', hor', hstate'⟩ := h.or_later hm hi hor
    rw [hstate] at hstate'
    rcases hdec with hne | ⟨v, hv⟩
    · -- every child has an outcome that is dead some time, so every child is
      have hchild : ∀ c ∈ (T m).children i, ∃ k ≥ m, (T k).marked Mark.dead c := by
        intro c hc
        obtain ⟨hcs, hand, hcne, hgrand⟩ := h.grandchild hi' hor' hc
        have hmove := ((h.represents m).move_iff hi' hor' hne _).2 ⟨c, hc, rfl⟩
        rw [hstate'] at hmove
        obtain ⟨d, hd, hdstate⟩ := List.mem_map.1 (hmem _ hmove)
        obtain ⟨k, hk, hdead⟩ := ih _ hmove (hgrand d hd).1 (hgrand d hd).2 hdstate
        refine ⟨k, hk, h.marked_later hk hcs hcne (fun hneeds ↦ ?_) fun _ ↦ ⟨d, hd, hdead⟩⟩
        exact absurd (hneeds.2 hand) Mark.noConfusion
      obtain ⟨k, hk, hall⟩ := @exists_forall_mem (fun k c ↦ (T k).marked Mark.dead c) m
        (fun hle hd ↦ (h.extends_of_le hle).marked hd) ((T m).children i) hchild
      refine ⟨k, hm.le.trans hk, h.marked_later hk hi' hne (fun _ ↦ hall) fun hna ↦
        absurd ?_ hna⟩
      exact iff_of_false Mark.noConfusion hor'
    · cases v with
      | solved =>
        have hsolv := (h.exact m).solvable_of_solved (h.represents m) hi' hor' hv
        exact absurd (hstate' ▸ hsolv) hnot
      | dead => exact ⟨m, hm, hv⟩

end Endless

/-- **A queue is fair**: when every round takes the front and appends at the end, an element is in
front some time. -/
theorem exists_front {queue : ℕ → List ℕ}
    (hround : ∀ n a rest, queue n = a :: rest → ∃ new, queue (n + 1) = rest ++ new) {n x : ℕ}
    (hx : x ∈ queue n) : ∃ m ≥ n, ∃ rest, queue m = x :: rest := by
  obtain ⟨before, after, hq⟩ := List.mem_iff_append.1 hx
  -- the induction is on what waits before the element; what is appended stays behind it
  induction before generalizing n after with
  | nil => exact ⟨n, le_rfl, after, hq⟩
  | cons a before ih =>
    obtain ⟨new, hnew⟩ := hround n a (before ++ x :: after) hq
    have hq' : queue (n + 1) = before ++ x :: (after ++ new) := by
      rw [hnew, List.append_assoc, List.cons_append]
    obtain ⟨m, hm, hfront⟩ := ih (hq' ▸ List.mem_append_right _ List.mem_cons_self) _ hq'
    exact ⟨m, Nat.le_of_succ_le hm, hfront⟩

end AndOr
