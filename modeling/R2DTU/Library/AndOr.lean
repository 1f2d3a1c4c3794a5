import Mathlib.Data.List.Basic
import Mathlib.Data.Nat.Init
import Mathlib.Tactic.Tauto

/-!
# AND-OR problems and marked search trees

A problem says which states are goals and which lists of outcomes a move from a state can have. A
state is **solvable** when it is a goal or some move leads to solvable outcomes only, and
**refutable** when it is no goal and every move has a refutable outcome. Both are finite notions: a
state of an infinite game can be neither.

A search grows a tree whose Or nodes carry states and whose And nodes stand for moves, and puts two
marks on its nodes, `solved` and `dead`. The two marks are dual: `solved` asks for all children at
an And node and for one child at an Or node, `dead` the other way round. `Due` is that condition,
and `Coherent` says that an inner node carries a mark exactly when the mark is due — except at the
pairs listed as *excused*, which is what a propagation still has to look at.

## What each result rests on

* `Coherent.setMark` moves the excuse from a node to its parents, and `Coherent.settle` drops it:
  together they are one round of an upward propagation. Neither mentions a problem.
* `Exact.grow` is the other way a tree changes: new nodes below an unmarked Or node.
* `solvable_of_solved` and `refutable_of_dead` read the marks of a coherent tree that
  `Represents` the problem. They use soundness of the marks only.
* `exists_unmarked_leaf` uses completeness of the marks only: below an unmarked node there is an
  unmarked leaf, so a search that still has an undecided root still has something to expand.
-/

namespace AndOr

universe u

variable {S : Type u}

/-- Goal states, and the moves of a state as lists of possible outcomes. -/
structure Problem (S : Type u) where
  /-- The state needs no further move. -/
  goal : S → Prop
  /-- Some move from the state has exactly these outcomes. -/
  move : S → List S → Prop

/-- A state is solvable when it is a goal, or when all outcomes of some move are. -/
inductive Problem.Solvable (P : Problem S) : S → Prop
  | goal {s : S} (h : P.goal s) : P.Solvable s
  | move {s : S} {ts : List S} (h : P.move s ts) (hts : ∀ t ∈ ts, P.Solvable t) : P.Solvable s

/-- A state is refutable when it is no goal and every move has a refutable outcome, which `reply`
picks. The refutation is a finite one, as the strategy of a solvable state is. -/
inductive Problem.Refutable (P : Problem S) : S → Prop
  | intro {s : S} (reply : List S → S) (hgoal : ¬ P.goal s)
    (hmem : ∀ ts, P.move s ts → reply ts ∈ ts)
    (h : ∀ ts, P.move s ts → P.Refutable (reply ts)) : P.Refutable s

/-- The choice of replies is immaterial. -/
theorem Problem.refutable_iff {P : Problem S} {s : S} :
    P.Refutable s ↔ ¬ P.goal s ∧ ∀ ts, P.move s ts → ∃ t ∈ ts, P.Refutable t := by
  classical
  constructor
  · rintro ⟨reply, hgoal, hmem, h⟩
    exact ⟨hgoal, fun ts hts ↦ ⟨reply ts, hmem ts hts, h ts hts⟩⟩
  · rintro ⟨hgoal, h⟩
    refine .intro (fun ts ↦ if hts : P.move s ts then (h ts hts).choose else s) hgoal
      (fun ts hts ↦ ?_) fun ts hts ↦ ?_
    · rw [dif_pos hts]
      exact (h ts hts).choose_spec.1
    · rw [dif_pos hts]
      exact (h ts hts).choose_spec.2

/-- No state is both. -/
theorem Problem.Refutable.not_solvable {P : Problem S} {s : S} (h : P.Refutable s) :
    ¬ P.Solvable s := by
  induction h with
  | intro reply hgoal hmem h ih =>
    rintro (hg | ⟨hm, hts⟩)
    · exact hgoal hg
    · exact ih _ hm (hts _ (hmem _ hm))

/-- The two verdicts a search can put on a node. -/
inductive Mark
  | solved
  | dead
  deriving DecidableEq

/-- The opposite verdict. -/
def Mark.other : Mark → Mark
  | solved => dead
  | dead => solved

/-- A search tree whose nodes are numbered, with its marks. -/
structure MarkedTree (S : Type u) where
  /-- How many nodes there are. The root is node 0. -/
  size : ℕ
  /-- The And nodes; the other ones are Or nodes. -/
  isAnd : ℕ → Prop
  state : ℕ → S
  children : ℕ → List ℕ
  /-- Which nodes are known to be solved or dead. -/
  marked : Mark → ℕ → Prop

namespace MarkedTree

variable (T : MarkedTree S)

/-- A mark needs all children for `solved` at an And node and for `dead` at an Or node. -/
def NeedsAll (m : Mark) (i : ℕ) : Prop := m = Mark.solved ↔ T.isAnd i

/-- The children of `i` justify the mark `m` at `i`. -/
def Due (m : Mark) (i : ℕ) : Prop :=
  (T.NeedsAll m i → ∀ c ∈ T.children i, T.marked m c) ∧
    (¬ T.NeedsAll m i → ∃ c ∈ T.children i, T.marked m c)

/-- A node without either mark. -/
def Unmarked (i : ℕ) : Prop := ∀ m, ¬ T.marked m i

/-- Put the mark `m` on node `n` and change nothing else. -/
def setMark (m : Mark) (n : ℕ) : MarkedTree S :=
  { T with marked := fun m' i ↦ T.marked m' i ∨ (m' = m ∧ i = n) }

/-- Inner nodes carry exactly the marks that are due, except that an excused pair may still lack its
mark. -/
structure Coherent (excused : Mark → ℕ → Prop) : Prop where
  /-- Children are younger than their parent. -/
  child_lt {i c : ℕ} (hi : i < T.size) (hc : c ∈ T.children i) : i < c ∧ c < T.size
  /-- Or nodes and And nodes alternate. -/
  child_isAnd {i c : ℕ} (hi : i < T.size) (hc : c ∈ T.children i) : T.isAnd c ↔ ¬ T.isAnd i
  /-- And nodes are not leaves. -/
  and_ne_nil {i : ℕ} (hi : i < T.size) (h : T.isAnd i) : T.children i ≠ []
  /-- No node is solved and dead. -/
  not_both {i : ℕ} (hi : i < T.size) (m : Mark) : T.marked m i → ¬ T.marked m.other i
  /-- An inner node is marked for what is below it. -/
  sound {i : ℕ} {m : Mark} (hi : i < T.size) (hne : T.children i ≠ []) (h : T.marked m i) :
    T.Due m i
  /-- An inner node gets the mark that is due, unless it is excused. -/
  complete {i : ℕ} {m : Mark} (hi : i < T.size) (hne : T.children i ≠ []) (he : ¬ excused m i)
    (h : T.Due m i) : T.marked m i

/-- Nobody is excused: the marks are exact. -/
abbrev Exact : Prop := T.Coherent fun _ _ ↦ False

/-- The tree is a part of the problem's game tree: marked leaves are justified by the problem, and
an expanded Or node has one child per move. -/
structure Represents (P : Problem S) : Prop where
  /-- A solved leaf is a goal. -/
  goal_of_solved {i : ℕ} (hi : i < T.size) (hor : ¬ T.isAnd i) (hleaf : T.children i = [])
    (h : T.marked Mark.solved i) : P.goal (T.state i)
  /-- A dead leaf is no goal and has no moves. -/
  stuck_of_dead {i : ℕ} (hi : i < T.size) (hor : ¬ T.isAnd i) (hleaf : T.children i = [])
    (h : T.marked Mark.dead i) : ¬ P.goal (T.state i) ∧ ∀ ts, ¬ P.move (T.state i) ts
  /-- A goal is not expanded. -/
  not_goal {i : ℕ} (hi : i < T.size) (hor : ¬ T.isAnd i) (hne : T.children i ≠ []) :
    ¬ P.goal (T.state i)
  /-- An expanded node has its moves, and no others, below it. -/
  move_iff {i : ℕ} (hi : i < T.size) (hor : ¬ T.isAnd i) (hne : T.children i ≠ []) (ts : List S) :
    P.move (T.state i) ts ↔ ∃ c ∈ T.children i, (T.children c).map T.state = ts

/-! ### One round of an upward propagation -/

variable {T}

theorem due_setMark_of_due {m m' : Mark} {n i : ℕ} (h : T.Due m' i) :
    (T.setMark m n).Due m' i :=
  ⟨fun hall c hc ↦ Or.inl (h.1 hall c hc), fun hone ↦ by
    obtain ⟨c, hc, hm⟩ := h.2 hone
    exact ⟨c, hc, Or.inl hm⟩⟩

/-- A new mark on `n` can only make a mark due at the parents of `n`. -/
theorem due_of_due_setMark {m m' : Mark} {n i : ℕ} (hn : ¬ (m' = m ∧ n ∈ T.children i))
    (h : (T.setMark m n).Due m' i) : T.Due m' i := by
  have hold : ∀ c ∈ T.children i, (T.setMark m n).marked m' c → T.marked m' c := by
    rintro c hc (hm | ⟨rfl, rfl⟩)
    · exact hm
    · exact absurd ⟨rfl, hc⟩ hn
  refine ⟨fun hall c hc ↦ hold c hc (h.1 hall c hc), fun hone ↦ ?_⟩
  obtain ⟨c, hc, hm⟩ := h.2 hone
  exact ⟨c, hc, hold c hc hm⟩

/-- **The excuse moves up.** Marking a node whose mark is due excuses exactly its parents. -/
theorem Coherent.setMark {m : Mark} {n : ℕ} {excused : Mark → ℕ → Prop} (h : T.Coherent excused)
    (hexcused : ∀ m' i, excused m' i → m' = m ∧ i = n)
    (hother : ¬ T.marked m.other n) (hdue : T.children n ≠ [] → T.Due m n) :
    (T.setMark m n).Coherent fun m' i ↦ m' = m ∧ n ∈ T.children i where
  child_lt := h.child_lt
  child_isAnd := h.child_isAnd
  and_ne_nil := h.and_ne_nil
  not_both {i} hi m' := by
    rintro (hm | ⟨rfl, rfl⟩) (ho | ⟨hmo, hin⟩)
    · exact h.not_both hi m' hm ho
    · subst hmo hin
      cases m' <;> exact hother hm
    · exact hother ho
    · cases m' <;> simp [Mark.other] at hmo
  sound {i m'} hi hne := by
    rintro (hm | ⟨rfl, rfl⟩)
    · exact due_setMark_of_due (h.sound hi hne hm)
    · exact due_setMark_of_due (hdue hne)
  complete {i m'} hi hne he hd := by
    by_cases hex : excused m' i
    · exact Or.inr (hexcused m' i hex)
    · exact Or.inl (h.complete hi hne hex (due_of_due_setMark he hd))

/-- **The excuse is dropped** when the excused node has its mark, or the mark is not due. -/
theorem Coherent.settle {m : Mark} {p : ℕ} (h : T.Coherent fun m' i ↦ m' = m ∧ i = p)
    (hp : T.marked m p ∨ ¬ T.Due m p) : T.Exact where
  child_lt := h.child_lt
  child_isAnd := h.child_isAnd
  and_ne_nil := h.and_ne_nil
  not_both := h.not_both
  sound := h.sound
  complete {i m'} hi hne _ hd := by
    by_cases hex : m' = m ∧ i = p
    · obtain ⟨rfl, rfl⟩ := hex
      exact hp.resolve_right fun hnd ↦ hnd hd
    · exact h.complete hi hne hex hd

theorem Exact.excuse {excused : Mark → ℕ → Prop} (h : T.Exact) : T.Coherent excused :=
  { h with complete := fun hi hne _ hd ↦ h.complete hi hne id hd }

/-- The two marks are never due together, because their children cannot carry both. -/
theorem Coherent.not_due_of_marked_other {excused : Mark → ℕ → Prop} (h : T.Coherent excused)
    {m : Mark} {p : ℕ} (hp : p < T.size) (hne : T.children p ≠ []) (hm : T.marked m.other p) :
    ¬ T.Due m p := by
  intro hd
  have ho := h.sound hp hne hm
  have hdual : T.NeedsAll m.other p ↔ ¬ T.NeedsAll m p := by
    cases m <;> simp only [NeedsAll, Mark.other] <;> tauto
  by_cases hall : T.NeedsAll m p
  · obtain ⟨c, hc, hmc⟩ := ho.2 fun hna ↦ hdual.1 hna hall
    exact h.not_both (h.child_lt hp hc).2 m (hd.1 hall c hc) hmc
  · obtain ⟨c, hc, hmc⟩ := hd.2 hall
    exact h.not_both (h.child_lt hp hc).2 m hmc (ho.1 (hdual.2 hall) c hc)

/-! ### Growing a tree -/

/-- `T'` is `T` with new nodes, below the unmarked Or node `n` or below other new nodes, and none of
them is marked, nor is a child of `n`. -/
structure Grows (T T' : MarkedTree S) (n : ℕ) : Prop where
  size_le : T.size ≤ T'.size
  isAnd_iff {i : ℕ} (hi : i < T.size) : T'.isAnd i ↔ T.isAnd i
  marked_iff {i : ℕ} (hi : i < T.size) (m : Mark) : T'.marked m i ↔ T.marked m i
  children_eq {i : ℕ} (hi : i < T.size) (hn : i ≠ n) : T'.children i = T.children i
  not_isAnd : ¬ T.isAnd n
  unmarked {i : ℕ} (h : i = n ∨ T.size ≤ i) : T'.Unmarked i
  child {i c : ℕ} (h : i = n ∨ T.size ≤ i) (hi : i < T'.size) (hc : c ∈ T'.children i) :
    T'.Unmarked c ∧ i < c ∧ c < T'.size ∧ (T'.isAnd c ↔ ¬ T'.isAnd i)
  and_ne_nil {i : ℕ} (hi : T.size ≤ i) (hi' : i < T'.size) (h : T'.isAnd i) : T'.children i ≠ []

/-- **New nodes owe no marks**: nothing is due above unmarked children. -/
theorem Exact.grow {T' : MarkedTree S} {n : ℕ} (h : T.Exact) (hg : Grows T T' n) : T'.Exact := by
  have hcases : ∀ i, (i < T.size ∧ i ≠ n) ∨ (i = n ∨ T.size ≤ i) := fun i ↦ by omega
  -- away from `n` nothing that a verdict depends on has changed
  have hdue : ∀ {i}, i < T.size → i ≠ n → ∀ m, T'.Due m i ↔ T.Due m i := by
    intro i hi hn m
    have hchild : ∀ c ∈ T.children i, (T'.marked m c ↔ T.marked m c) := fun c hc ↦
      hg.marked_iff (h.child_lt hi hc).2 m
    have hneeds : T'.NeedsAll m i ↔ T.NeedsAll m i := by
      simp only [NeedsAll, hg.isAnd_iff hi]
    simp only [Due, hneeds, hg.children_eq hi hn]
    refine and_congr (imp_congr_right fun _ ↦ forall₂_congr hchild)
      (imp_congr_right fun _ ↦ exists_congr fun c ↦ and_congr_right fun hc ↦ hchild c hc)
  -- and no mark is due at `n` or below it, as the children there are unmarked
  have hnone : ∀ {i}, (i = n ∨ T.size ≤ i) → i < T'.size → T'.children i ≠ [] →
      ∀ m, ¬ T'.Due m i := by
    intro i hnew hi hne m hd
    obtain ⟨c, hc⟩ := List.exists_mem_of_ne_nil _ hne
    have hu : ∀ c ∈ T'.children i, ¬ T'.marked m c := fun c hc ↦
      (hg.child hnew hi hc).1 m
    by_cases hall : T'.NeedsAll m i
    · exact hu c hc (hd.1 hall c hc)
    · obtain ⟨d, hdc, hm⟩ := hd.2 hall
      exact hu d hdc hm
  refine ⟨fun {i c} hi hc ↦ ?_, fun {i c} hi hc ↦ ?_, fun {i} hi ha ↦ ?_, fun {i} hi m hm ↦ ?_,
    fun {i m} hi hne hm ↦ ?_, fun {i m} hi hne _ hd ↦ ?_⟩
  · rcases hcases i with ⟨hold, hn⟩ | hnew
    · rw [hg.children_eq hold hn] at hc
      obtain ⟨hlt, hsize⟩ := h.child_lt hold hc
      exact ⟨hlt, Nat.lt_of_lt_of_le hsize hg.size_le⟩
    · exact ⟨(hg.child hnew hi hc).2.1, (hg.child hnew hi hc).2.2.1⟩
  · rcases hcases i with ⟨hold, hn⟩ | hnew
    · rw [hg.children_eq hold hn] at hc
      rw [hg.isAnd_iff (h.child_lt hold hc).2, hg.isAnd_iff hold]
      exact h.child_isAnd hold hc
    · exact (hg.child hnew hi hc).2.2.2
  · rcases hcases i with ⟨hold, hn⟩ | rfl | hnew
    · rw [hg.children_eq hold hn]
      exact h.and_ne_nil hold ((hg.isAnd_iff hold).1 ha)
    · rcases Nat.lt_or_ge i T.size with hlt | hge
      · exact absurd ((hg.isAnd_iff hlt).1 ha) hg.not_isAnd
      · exact hg.and_ne_nil hge hi ha
    · exact hg.and_ne_nil hnew hi ha
  · rcases hcases i with ⟨hold, hn⟩ | hnew
    · rw [hg.marked_iff hold] at hm ⊢
      exact h.not_both hold m hm
    · exact absurd hm (hg.unmarked hnew m)
  · rcases hcases i with ⟨hold, hn⟩ | hnew
    · rw [hg.marked_iff hold] at hm
      rw [hg.children_eq hold hn] at hne
      exact (hdue hold hn m).2 (h.sound hold hne hm)
    · exact absurd hm (hg.unmarked hnew m)
  · rcases hcases i with ⟨hold, hn⟩ | hnew
    · rw [hg.children_eq hold hn] at hne
      exact (hg.marked_iff hold m).2 (h.complete hold hne id ((hdue hold hn m).1 hd))
    · exact absurd hd (hnone hnew hi hne m)

/-! ### What the marks of a coherent tree mean -/

section Meaning

variable {P : Problem S}

/-- **Verdicts are right**, by induction from the youngest node back. -/
theorem Coherent.verdict {excused : Mark → ℕ → Prop} (h : T.Coherent excused)
    (hP : T.Represents P) :
    ∀ k i : ℕ, T.size - i = k → i < T.size → ¬ T.isAnd i →
      (T.marked Mark.solved i → P.Solvable (T.state i)) ∧
        (T.marked Mark.dead i → P.Refutable (T.state i)) := by
  intro k
  induction k using Nat.strong_induction_on with
  | _ k ih =>
    intro i hk hi hor
    -- the outcomes of a child are its own children, which are younger Or nodes
    have hgrand : ∀ c ∈ T.children i, c < T.size ∧ T.isAnd c ∧ T.children c ≠ [] ∧
        ∀ d ∈ T.children c, (T.marked Mark.solved d → P.Solvable (T.state d)) ∧
          (T.marked Mark.dead d → P.Refutable (T.state d)) := by
      intro c hc
      obtain ⟨hic, hcs⟩ := h.child_lt hi hc
      have hand : T.isAnd c := (h.child_isAnd hi hc).2 hor
      refine ⟨hcs, hand, h.and_ne_nil hcs hand, fun d hd ↦ ?_⟩
      obtain ⟨hcd, hds⟩ := h.child_lt hcs hd
      exact ih (T.size - d) (by omega) d rfl hds fun hda ↦ (h.child_isAnd hcs hd).1 hda hand
    by_cases hleaf : T.children i = []
    · refine ⟨fun hs ↦ .goal (hP.goal_of_solved hi hor hleaf hs), fun hd ↦ ?_⟩
      obtain ⟨hng, hnm⟩ := hP.stuck_of_dead hi hor hleaf hd
      exact Problem.refutable_iff.2 ⟨hng, fun ts hts ↦ absurd hts (hnm ts)⟩
    · have hone : ¬ T.NeedsAll Mark.solved i := fun hna ↦ hor (hna.1 rfl)
      have hall : T.NeedsAll Mark.dead i := by simp [NeedsAll, hor]
      constructor
      · intro hs
        obtain ⟨c, hc, hcs⟩ := (h.sound hi hleaf hs).2 hone
        obtain ⟨hclt, hand, hcne, hgr⟩ := hgrand c hc
        refine .move ((hP.move_iff hi hor hleaf _).2 ⟨c, hc, rfl⟩) fun t ht ↦ ?_
        obtain ⟨d, hd, rfl⟩ := List.mem_map.1 ht
        exact (hgr d hd).1 ((h.sound hclt hcne hcs).1 (by simp [NeedsAll, hand]) d hd)
      · intro hd
        refine Problem.refutable_iff.2 ⟨hP.not_goal hi hor hleaf, fun ts hts ↦ ?_⟩
        obtain ⟨c, hc, rfl⟩ := (hP.move_iff hi hor hleaf _).1 hts
        obtain ⟨hclt, hand, hcne, hgr⟩ := hgrand c hc
        have hcd := (h.sound hi hleaf hd).1 hall c hc
        obtain ⟨d, hdc, hdd⟩ := (h.sound hclt hcne hcd).2 (by simp [NeedsAll, hand])
        exact ⟨_, List.mem_map.2 ⟨d, hdc, rfl⟩, (hgr d hdc).2 hdd⟩

theorem Coherent.solvable_of_solved {excused : Mark → ℕ → Prop} (h : T.Coherent excused)
    (hP : T.Represents P) {i : ℕ} (hi : i < T.size) (hor : ¬ T.isAnd i)
    (hs : T.marked Mark.solved i) : P.Solvable (T.state i) :=
  (h.verdict hP _ i rfl hi hor).1 hs

theorem Coherent.refutable_of_dead {excused : Mark → ℕ → Prop} (h : T.Coherent excused)
    (hP : T.Represents P) {i : ℕ} (hi : i < T.size) (hor : ¬ T.isAnd i)
    (hd : T.marked Mark.dead i) : P.Refutable (T.state i) :=
  (h.verdict hP _ i rfl hi hor).2 hd

theorem Coherent.not_solvable_of_dead {excused : Mark → ℕ → Prop} (h : T.Coherent excused)
    (hP : T.Represents P) {i : ℕ} (hi : i < T.size) (hor : ¬ T.isAnd i)
    (hd : T.marked Mark.dead i) : ¬ P.Solvable (T.state i) :=
  (h.refutable_of_dead hP hi hor hd).not_solvable

end Meaning

/-- An unmarked inner node of an exact tree has an unmarked child: of the two dual conditions, the
one that asks for all children fails at some child, and the other fails at every child. -/
theorem Exact.exists_unmarked_child (h : T.Exact) {i : ℕ} (hi : i < T.size)
    (hne : T.children i ≠ []) (hu : T.Unmarked i) : ∃ c ∈ T.children i, T.Unmarked c := by
  have hnd : ∀ m, ¬ T.Due m i := fun m hd ↦ hu m (h.complete hi hne id hd)
  obtain ⟨m, hall⟩ : ∃ m, T.NeedsAll m i := by
    by_cases ha : T.isAnd i
    · exact ⟨Mark.solved, by simp [NeedsAll, ha]⟩
    · exact ⟨Mark.dead, by simp [NeedsAll, ha]⟩
  have hone : ¬ T.NeedsAll m.other i := by
    cases m <;> simp only [NeedsAll, Mark.other] at hall ⊢ <;> tauto
  obtain ⟨c, hc, hcm⟩ : ∃ c ∈ T.children i, ¬ T.marked m c := by
    by_contra hcon
    push Not at hcon
    exact hnd m ⟨fun _ ↦ hcon, fun hna ↦ absurd hall hna⟩
  have hco : ¬ T.marked m.other c := fun hmo ↦
    hnd m.other ⟨fun hna ↦ absurd hna hone, fun _ ↦ ⟨c, hc, hmo⟩⟩
  exact ⟨c, hc, fun m' ↦ by cases m <;> cases m' <;> first | exact hcm | exact hco⟩

/-- **Something is left to expand.** Below an unmarked node of an exact tree there is an unmarked
leaf, and it is an Or node. -/
theorem Exact.exists_unmarked_leaf (h : T.Exact) :
    ∀ k i : ℕ, T.size - i = k → i < T.size → T.Unmarked i →
      ∃ j < T.size, T.children j = [] ∧ ¬ T.isAnd j ∧ T.Unmarked j := by
  intro k
  induction k using Nat.strong_induction_on with
  | _ k ih =>
    intro i hk hi hu
    by_cases hleaf : T.children i = []
    · exact ⟨i, hi, hleaf, fun ha ↦ h.and_ne_nil hi ha hleaf, hu⟩
    · obtain ⟨c, hc, huc⟩ := h.exists_unmarked_child hi hleaf hu
      obtain ⟨hic, hcs⟩ := h.child_lt hi hc
      exact ih (T.size - c) (by omega) c rfl hcs huc

end MarkedTree

end AndOr
