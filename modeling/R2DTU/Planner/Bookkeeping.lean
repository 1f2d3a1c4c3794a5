import R2DTU.Planner.Completeness

/-!
# Bookkeeping of the search

`Bookkept` lists what `find_policy` can rely on whenever it is at the head of its loop: what the two
flags of a node say about the flags of its children, why a leaf carries a flag at all, and which
leaves are queued.

The flags of inner nodes are those that are due (`AndOr.MarkedTree.Coherent.marked_iff_due`), and
the queue is the frontier part of `Searching`. Neither remembers the past, so the reason for a flag
on a leaf is a statement about the run: `PoppedAs` names the round in which the leaf was popped.
Rounds keep it because the only leaf they put a flag on is the one they pop
(`Ready.popped_of_marked`).
-/

namespace AndOr.MarkedTree

universe u

variable {S : Type u} {T : MarkedTree S}

/-- In an exact tree an inner node carries the marks that are due. -/
theorem Coherent.marked_iff_due (h : T.Exact) {i : ℕ} {m : Mark} (hi : i < T.size)
    (hne : T.children i ≠ []) : T.marked m i ↔ T.Due m i :=
  ⟨h.sound hi hne, h.complete hi hne id⟩

theorem due_iff_forall {i : ℕ} {m : Mark} (h : T.NeedsAll m i) :
    T.Due m i ↔ ∀ c ∈ T.children i, T.marked m c :=
  ⟨fun hd ↦ hd.1 h, fun hall ↦ ⟨fun _ ↦ hall, fun hn ↦ absurd h hn⟩⟩

theorem due_iff_exists {i : ℕ} {m : Mark} (h : ¬ T.NeedsAll m i) :
    T.Due m i ↔ ∃ c ∈ T.children i, T.marked m c :=
  ⟨fun hd ↦ hd.2 h, fun hone ↦ ⟨fun hn ↦ absurd hn h, fun _ ↦ hone⟩⟩

end AndOr.MarkedTree

namespace Del

open AndOr (Mark MarkedTree)

variable {order : HashOrder} {goal : BuiltFormula} {library : ActionLibrary} {init : State}
  {g g' : Graph}

/-- What `find_policy` finds out about a node before it sets a flag on it: the goal holds, or it
does not and no action of the library applies. -/
def JustifiesMark (order : HashOrder) (goal : BuiltFormula) (library : ActionLibrary)
    (node : Node) : Mark → Prop
  | .solved => isGoalNode node goal = true
  | .dead => isGoalNode node goal = false ∧
      ∀ a ∈ library.actions, applyAction order node.state a = none

/-- An earlier round of the search that has come to `g` popped node `i` and found a reason for the
mark `m`. -/
def PoppedAs (order : HashOrder) (goal : BuiltFormula) (library : ActionLibrary) (init : State)
    (m : Mark) (i : ℕ) (g : Graph) : Prop :=
  ∃ g₀ rest, SearchReaches order goal library init g₀ ∧ g₀.frontier = i :: rest ∧
    JustifiesMark order goal library (g₀.getNode i) m ∧
    Relation.TransGen (fun g g' ↦ findPolicyStep order goal library g = Sum.inl g') g₀ g

/-- **The bookkeeping of a search** at a loop head. A leaf is a node without children. -/
structure Bookkept (order : HashOrder) (goal : BuiltFormula) (library : ActionLibrary)
    (init : State) (g : Graph) : Prop where
  /-- No node is solved and dead. -/
  not_both : ∀ i < g.nodes.length, ¬ ((g.getNode i).solved = true ∧ (g.getNode i).dead = true)
  /-- An And node is solved when all its children are. -/
  and_solved_iff : ∀ i < g.nodes.length, (g.getNode i).type = .and →
    ((g.getNode i).solved = true ↔ ∀ c ∈ (g.getNode i).children, (g.getNode c).solved = true)
  /-- It is dead when one of them is. -/
  and_dead_iff : ∀ i < g.nodes.length, (g.getNode i).type = .and →
    ((g.getNode i).dead = true ↔ ∃ c ∈ (g.getNode i).children, (g.getNode c).dead = true)
  /-- An inner Or node is solved when one of its children is. -/
  or_solved_iff : ∀ i < g.nodes.length, (g.getNode i).type = .or → (g.getNode i).children ≠ [] →
    ((g.getNode i).solved = true ↔ ∃ c ∈ (g.getNode i).children, (g.getNode c).solved = true)
  /-- It is dead when all of them are. -/
  or_dead_iff : ∀ i < g.nodes.length, (g.getNode i).type = .or → (g.getNode i).children ≠ [] →
    ((g.getNode i).dead = true ↔ ∀ c ∈ (g.getNode i).children, (g.getNode c).dead = true)
  /-- A marked leaf was taken off the frontier for its mark. -/
  popped : ∀ i < g.nodes.length, (g.getNode i).children = [] → ∀ m,
    (g.getNode i).isMarked m = true → PoppedAs order goal library init m i g
  /-- An undecided leaf is on the frontier once. -/
  queued : ∀ i < g.nodes.length, (g.getNode i).children = [] →
    (g.getNode i).solved = false → (g.getNode i).dead = false → g.frontier.count i = 1
  /-- The root is undecided. -/
  root_undecided : g.getRootNode.solved = false ∧ g.getRootNode.dead = false
  /-- There is something left to do. -/
  frontier_ne_nil : g.frontier ≠ []

/-! ### Marks on leaves -/

/-- Expanding a node with a library puts no marks. -/
theorem Graph.marked_of_foldl {current : ℕ} {m : Mark} {i : ℕ} (actions : List Action)
    (st : Graph × Bool) (hc : current < st.1.nodes.length)
    (hm : (actions.foldl (expandAction order current) st).1.tree.marked m i) :
    st.1.tree.marked m i := by
  induction actions generalizing st with
  | nil => exact hm
  | cons a actions ih =>
    have hgrown := @Graph.grown_expandAction st.1 order current hc st.2 a
    have hstep := ih _ (hc.trans_le hgrown.length_le) hm
    rcases ha : applyAction order (st.1.getNode current).state a with _ | product
    · have hskip : expandAction order current st a = st := by
        simp only [expandAction, ha]
      rwa [hskip] at hstep
    · obtain ⟨g₁, heq, he⟩ := @Graph.expanded_expandAction st.1 order current a product st.2 hc ha
      rw [heq] at hstep
      exact (he.isMarked_old (he.lt_of_marked hstep) m).1 hstep

/-- No moves: every action of the library fails to apply. -/
theorem applyAction_eq_none_of_moves {actions : List Action} {s : State}
    (h : moves order actions s = []) : ∀ a ∈ actions, applyAction order s a = none := by
  intro a ha
  have hnone := (List.filterMap_eq_nil_iff.1 h) a ha
  exact Option.map_eq_none_iff.1 hnone

/-- **A round marks no leaf but the one it pops**, and that one for a reason. -/
theorem Ready.popped_of_marked (h : Ready order goal library init g)
    (hb : findPolicyStep order goal library g = Sum.inl g') {i : ℕ} {m : Mark}
    (hleaf : (g'.getNode i).children = []) (hm : g'.tree.marked m i) :
    ((g.getNode i).children = [] ∧ g.tree.marked m i) ∨
      ∃ rest, g.frontier = i :: rest ∧ JustifiesMark order goal library (g.getNode i) m := by
  obtain ⟨front, rest, hf⟩ := List.exists_cons_of_ne_nil h.frontier_ne_nil
  obtain ⟨hlt, hor, hnil, hu, -⟩ := h.searching.frontier_open (hf ▸ List.mem_cons_self ..)
  have hpop := h.searching.pop hf
  have hid : (g.getNode front).id = front := h.searching.linked.id_eq hlt
  have hleaf' : (g.getNode i).children = [] := by
    by_contra hne
    have hlt' := Graph.lt_length_of_mem_children (List.exists_mem_of_ne_nil _ hne).choose_spec
    exact hne (((h.advances hb).tree_extends.children_eq hlt' hne).symm.trans hleaf)
  simp only [findPolicyStep, hf, hid] at hb
  rcases hgoal : isGoalNode (Graph.getNode { g with frontier := rest } front) goal with _ | _
  · have hend := (h.expanding hf hgoal).foldl
    rw [hgoal, if_neg Bool.false_ne_true] at hb
    have hold := @Graph.marked_of_foldl order front m i library.actions
      ({ g with frontier := rest }, false) hlt
    have hgrown := @Graph.grown_foldl order front library.actions
      ({ g with frontier := rest }, false) hlt
    rcases hst : library.actions.foldl (expandAction order front)
      ({ g with frontier := rest }, false) with ⟨g₁, found⟩
    rw [hst] at hb hend hold hgrown
    rcases found with _ | _
    · -- no action applied, so the popped node is marked dead
      have hnil₁ : (g₁.getNode front).children = [] :=
        not_not.1 fun hne ↦ Bool.false_ne_true (hend.found_iff.2 hne)
      have hstuck := hend.childMoves_eq
      rw [Graph.childMoves, hnil₁, List.map_nil] at hstuck
      obtain ⟨g₂, heq, hmark, -⟩ := Graph.propogate_spec .dead hend.searching.linked
        hend.searching.exact hend.lt hnil₁ hend.unmarked
      simp only [if_neg Bool.false_ne_true,
        show g₁.propogateDeadEndNode front = some g₂ from heq] at hb
      split_ifs at hb
      obtain rfl := Sum.inl.inj hb
      rw [hmark.skeleton.children_eq] at hleaf
      rcases hmark.cases_of_leaf hleaf hm with hm₁ | ⟨rfl, rfl⟩
      · exact Or.inl ⟨hleaf', hold hm₁⟩
      · have hstate : (g₁.getNode i).state = (g.getNode i).state :=
          (hgrown.extends hnil).state_eq hlt
        rw [hstate] at hstuck
        exact Or.inr ⟨rest, hf, hgoal, applyAction_eq_none_of_moves hstuck.symm⟩
    · rw [if_pos rfl] at hb
      obtain rfl := Sum.inl.inj hb
      exact Or.inl ⟨hleaf', hold hm⟩
  · obtain ⟨g₂, heq, hmark, -⟩ :=
      Graph.propogate_spec .solved hpop.linked hpop.exact hlt hnil hu
    simp only [hgoal, ↓reduceIte,
      show Graph.propogateSolvedNode { g with frontier := rest } front = some g₂ from heq] at hb
    split_ifs at hb
    obtain rfl := Sum.inl.inj hb
    rw [hmark.skeleton.children_eq] at hleaf
    rcases hmark.cases_of_leaf hleaf hm with hm₁ | ⟨rfl, rfl⟩
    · exact Or.inl ⟨hleaf', hm₁⟩
    · exact Or.inr ⟨rest, hf, hgoal⟩

theorem not_marked_initialGraph (i : ℕ) (m : Mark) : ¬ (initialGraph init).tree.marked m i := by
  rcases i with _ | i
  · cases m <;> exact Bool.false_ne_true
  · cases m <;> exact Bool.false_ne_true

/-- **Marked leaves have been popped**, as a goal or without an applicable action. -/
theorem SearchReaches.popped (hg : SearchReaches order goal library init g) {i : ℕ} {m : Mark}
    (hleaf : (g.getNode i).children = []) (hm : g.tree.marked m i) :
    PoppedAs order goal library init m i g := by
  induction hg with
  | refl => exact absurd hm (not_marked_initialGraph i m)
  | @tail g g' hg hb ih =>
    rcases (SearchReaches.ready hg).popped_of_marked hb hleaf hm with ⟨hleaf', hm'⟩ | ⟨rest, hf, hj⟩
    · obtain ⟨g₀, rest, hg₀, hf, hj, hrun⟩ := ih hleaf' hm'
      exact ⟨g₀, rest, hg₀, hf, hj, hrun.tail hb⟩
    · exact ⟨g, rest, hg, hf, hj, .single hb⟩

/-! ### The flags and the queue -/

/-- The test on the children of an And node. -/
theorem Searching.and_iff (h : Searching order goal library init (fun _ ↦ False) g) {i : ℕ}
    (hi : i < g.nodes.length) (hand : (g.getNode i).type = .and) :
    (g.tree.marked .solved i ↔ ∀ c ∈ g.tree.children i, g.tree.marked .solved c) ∧
      (g.tree.marked .dead i ↔ ∃ c ∈ g.tree.children i, g.tree.marked .dead c) := by
  have hne := h.exact.and_ne_nil hi hand
  rw [h.exact.marked_iff_due hi hne, h.exact.marked_iff_due hi hne]
  exact ⟨MarkedTree.due_iff_forall ⟨fun _ ↦ hand, fun _ ↦ rfl⟩,
    MarkedTree.due_iff_exists fun hn ↦ Mark.noConfusion (hn.2 hand)⟩

/-- The test on the children of an Or node. -/
theorem Searching.or_iff (h : Searching order goal library init (fun _ ↦ False) g) {i : ℕ}
    (hi : i < g.nodes.length) (hor : (g.getNode i).type = .or)
    (hne : (g.getNode i).children ≠ []) :
    (g.tree.marked .solved i ↔ ∃ c ∈ g.tree.children i, g.tree.marked .solved c) ∧
      (g.tree.marked .dead i ↔ ∀ c ∈ g.tree.children i, g.tree.marked .dead c) := by
  have hnot : ¬ g.tree.isAnd i := fun hand ↦ NodeType.noConfusion (hor.symm.trans hand)
  rw [h.exact.marked_iff_due hi hne, h.exact.marked_iff_due hi hne]
  exact ⟨MarkedTree.due_iff_exists fun hn ↦ hnot (hn.1 rfl),
    MarkedTree.due_iff_forall ⟨fun hm ↦ Mark.noConfusion hm, fun hand ↦ absurd hand hnot⟩⟩

/-- **Bookkeeping.** At every loop head of `find_policy` the flags of a node are those its children
call for, a leaf has a flag only when it was popped for that reason, the other leaves are queued
once each, and something is queued. -/
theorem bookkept_of_searchReaches (order : HashOrder) (goal : BuiltFormula)
    (library : ActionLibrary) (init : State) (g : Graph)
    (hg : SearchReaches order goal library init g) :
    Bookkept order goal library init g where
  not_both i hi := fun ⟨hs, hd⟩ ↦ hg.ready.searching.exact.not_both hi .solved hs hd
  and_solved_iff i hi hand := (hg.ready.searching.and_iff hi hand).1
  and_dead_iff i hi hand := (hg.ready.searching.and_iff hi hand).2
  or_solved_iff i hi hor hne := (hg.ready.searching.or_iff hi hor hne).1
  or_dead_iff i hi hor hne := (hg.ready.searching.or_iff hi hor hne).2
  popped i _ hleaf m hm := hg.popped hleaf hm
  queued i hi hleaf hs hd := by
    have hsearch := hg.ready.searching
    have hu : g.tree.Unmarked i := by
      rintro (_ | _) hm
      · exact Bool.false_ne_true (hs.symm.trans hm)
      · exact Bool.false_ne_true (hd.symm.trans hm)
    have hor : (g.getNode i).type = .or :=
      type_eq_or_of_ne fun hand ↦ hsearch.exact.and_ne_nil hi hand hleaf
    have hmem := (hsearch.mem_frontier hi hor hleaf hu).resolve_right id
    exact List.count_eq_one_of_mem hsearch.nodup_frontier hmem
  root_undecided := by
    rw [hg.ready.searching.getRootNode_eq]
    exact ⟨Bool.eq_false_of_not_eq_true (hg.ready.root_unmarked .solved),
      Bool.eq_false_of_not_eq_true (hg.ready.root_unmarked .dead)⟩
  frontier_ne_nil := hg.ready.frontier_ne_nil

/-- An action with two outcomes, one of which makes `p` true. -/
def tossAction : Action :=
  Action.ofEvents [⟨0, BuiltFormula.top, {"p"}, ∅⟩, ⟨1, BuiltFormula.top, ∅, ∅⟩]

theorem bookkept_of_searchReaches_toss :
    ∃ g, SearchReaches HashOrder.insertion (BuiltFormula.prop "p") ⟨[tossAction]⟩
        (State.ofPropositions ∅) g ∧ (g.getNode 2).solved = true ∧
      Bookkept HashOrder.insertion (BuiltFormula.prop "p") ⟨[tossAction]⟩
        (State.ofPropositions ∅) g := by
  have hrounds : ((findPolicyStep HashOrder.insertion (BuiltFormula.prop "p") ⟨[tossAction]⟩
      (initialGraph (State.ofPropositions ∅))).getLeft?.bind fun g ↦
        (findPolicyStep HashOrder.insertion (BuiltFormula.prop "p") ⟨[tossAction]⟩ g).getLeft?).map
          (fun g ↦ (g.getNode 2).solved) = some true := by decide +kernel
  obtain ⟨g, hg, hsolved⟩ := Option.map_eq_some_iff.1 hrounds
  obtain ⟨g₁, hg₁, hg⟩ := Option.bind_eq_some_iff.1 hg
  have hfirst : SearchReaches HashOrder.insertion (BuiltFormula.prop "p") ⟨[tossAction]⟩
      (State.ofPropositions ∅) g₁ := .single (Sum.getLeft?_eq_some_iff.1 hg₁)
  have hreach := Relation.ReflTransGen.tail hfirst (Sum.getLeft?_eq_some_iff.1 hg)
  exact ⟨g, hreach, hsolved, bookkept_of_searchReaches _ _ _ _ g hreach⟩

end Del
