import R2DTU.Planner.Execution

/-!
# When the search ends

The frontier is a queue, so a search that goes on for ever comes to every leaf of its tree: it is an
`AndOr.Endless` search. A finite strategy or a finite refutation of the initial state would then put
a mark on the root (`AndOr.Endless.solved_of_solvable`, `dead_of_refutable`), but a search whose
root has a mark is over. So the search ends on these initial states.

It ends on no others. A refusal is made when the root is dead, and a dead root is refuted by the
finite tree below it (`AndOr.MarkedTree.Coherent.refutable_of_dead`). No state is remembered from
one branch to the next, and where an action that changes nothing stays applicable the tree below it
is infinite: `findPolicy_runs_on` has an initial state that is neither solvable nor refutable.
-/

namespace Del

open AndOr (Mark MarkedTree)

variable {order : HashOrder} {goal : BuiltFormula} {library : ActionLibrary} {init : State}
  {g g' : Graph}

/-- A state that is no goal, where every action that applies has an outcome that is refutable. -/
def Refutable (order : HashOrder) (goal : BuiltFormula) (library : ActionLibrary) :
    State → Prop :=
  (problem order goal library).Refutable

/-- What a round that continues does: the tree is extended, the frontier loses its front and gets
new nodes at its end, and the node that was in front is expanded or marked. -/
structure Advances (g g' : Graph) : Prop where
  tree_extends : g.tree.Extends g'.tree
  popped : ∃ front rest new, g.frontier = front :: rest ∧ g'.frontier = rest ++ new ∧
    ((g'.getNode front).children ≠ [] ∨ ∃ m, g'.tree.marked m front)

/-- A propagation extends the tree. -/
theorem Graph.Marking.extends {m : Mark} {n : ℕ} (h : Graph.Marking m n g g') :
    g.tree.Extends g'.tree where
  size_le := h.skeleton.length_eq.ge
  isAnd_iff {i} _ := by
    show (g'.getNode i).type = .and ↔ (g.getNode i).type = .and
    rw [h.skeleton.type_eq]
  state_eq _ := h.skeleton.state_eq _
  children_eq _ _ := h.skeleton.children_eq _
  marked := h.marked_of_marked

theorem Ready.advances (h : Ready order goal library init g)
    (hb : findPolicyStep order goal library g = Sum.inl g') : Advances g g' := by
  have hround := h.round
  generalize findPolicyStep order goal library g = r at hround hb
  cases hround with
  | solves hf hleaf hm hs =>
    split_ifs at hb
    obtain rfl := Sum.inl.inj hb
    refine ⟨hm.extends, _, _, [], hf, ?_, Or.inr ⟨_, hm.marked⟩⟩
    rw [hm.skeleton.frontier_eq, List.append_nil]
  | expands hf hleaf hg hend =>
    obtain rfl := Sum.inl.inj hb
    obtain ⟨new, hnew⟩ := hg.frontier_eq
    exact ⟨hg.extends hleaf, _, _, new, hf, hnew, Or.inl (hend.found_iff.1 rfl)⟩
  | fails hf hleaf hg hend hm hs =>
    split_ifs at hb
    obtain rfl := Sum.inl.inj hb
    obtain ⟨new, hnew⟩ := hg.frontier_eq
    refine ⟨(hg.extends hleaf).trans hm.extends, _, _, new, hf, ?_, Or.inr ⟨_, hm.marked⟩⟩
    rw [hm.skeleton.frontier_eq, hnew]

/-! ### A search without end -/

/-- **A search that goes on for ever is fair**, and its root is never decided. -/
theorem endless_of_rounds {f : ℕ → Graph} (hready : ∀ n, Ready order goal library init (f n))
    (hround : ∀ n, findPolicyStep order goal library (f n) = Sum.inl (f (n + 1))) :
    AndOr.Endless (problem order goal library) fun n ↦ (f n).tree where
  exact n := (hready n).searching.exact
  represents n := (hready n).searching.represents
  extend n := ((hready n).advances (hround n)).tree_extends
  fair {n i} hi hor hleaf hu := by
    have hmem := ((hready n).searching.mem_frontier hi (type_eq_or_of_ne hor) hleaf
      hu).resolve_right id
    obtain ⟨m, hm, rest, hfront⟩ := @AndOr.exists_front (fun n ↦ (f n).frontier) (by
      intro n a rest ha
      obtain ⟨front, rest', new, hf, hnew, -⟩ := ((hready n).advances (hround n)).popped
      obtain ⟨-, rfl⟩ := List.cons.inj (ha.symm.trans hf)
      exact ⟨new, hnew⟩) n i hmem
    obtain ⟨front, rest', new, hf, -, hdecided⟩ := ((hready m).advances (hround m)).popped
    obtain ⟨rfl, -⟩ := List.cons.inj (hfront.symm.trans hf)
    exact ⟨m + 1, hm.le.trans (Nat.le_succ m), hdecided⟩

/-- The rounds of the search keep its invariant. -/
theorem Ready.next (h : Ready order goal library init g)
    (hb : findPolicyStep order goal library g = Sum.inl g') : Ready order goal library init g' := by
  have houtcome := h.step
  rw [hb] at houtcome
  cases houtcome with
  | continues h' => exact h'

/-- The graphs a search goes through. -/
def SearchReaches (order : HashOrder) (goal : BuiltFormula) (library : ActionLibrary)
    (init : State) : Graph → Prop :=
  Relation.ReflTransGen (fun g g' ↦ findPolicyStep order goal library g = Sum.inl g')
    (initialGraph init)

theorem SearchReaches.ready (h : SearchReaches order goal library init g) :
    Ready order goal library init g := by
  induction h with
  | refl => exact ready_initialGraph
  | tail _ hb ih => exact ih.next hb

/-- A round that does not continue returns a policy. -/
theorem Ready.returns (h : Ready order goal library init g) {r : Option Policy}
    (hb : findPolicyStep order goal library g = Sum.inr r) : ∃ policy, r = some policy := by
  have houtcome := h.step
  rw [hb] at houtcome
  cases houtcome with
  | extracts hg =>
    obtain ⟨policy, hext, -⟩ := extractPolicy_spec hg.searching.linked hg.searching.exact
      (hg.searching.root_eq ▸ hg.searching.root_lt)
    exact ⟨policy, hext⟩
  | refuses => exact ⟨_, rfl⟩

/-- **The search ends, or goes through an infinite sequence of rounds.** -/
theorem findPolicy_ends_or_rounds :
    (∃ fuel policy, findPolicy order goal library init fuel = some policy) ∨
      ∃ f : ℕ → Graph, f 0 = initialGraph init ∧ (∀ n, Ready order goal library init (f n)) ∧
        ∀ n, findPolicyStep order goal library (f n) = Sum.inl (f (n + 1)) := by
  by_cases hnone : ∀ fuel,
      BoundedLoop.run (findPolicyStep order goal library) fuel (initialGraph init) = none
  · obtain ⟨f, hzero, hround⟩ := BoundedLoop.exists_rounds hnone
    refine Or.inr ⟨f, hzero, fun n ↦ ?_, hround⟩
    induction n with
    | zero => exact hzero ▸ ready_initialGraph
    | succ n ih => exact ih.next (hround n)
  · obtain ⟨fuel, hfuel⟩ := not_forall.1 hnone
    obtain ⟨r, hr⟩ := Option.ne_none_iff_exists'.1 hfuel
    obtain ⟨policy, rfl⟩ := @BoundedLoop.run_induct _ _ (findPolicyStep order goal library)
      (Ready order goal library init) (fun r ↦ ∃ policy, r = some policy)
      (fun hg hb ↦ hg.next hb) (fun hg hb ↦ hg.returns hb) fuel _ r ready_initialGraph hr
    exact Or.inl ⟨fuel, policy, Option.join_eq_some_iff.2 hr⟩

/-- **The root is decided.** When the initial state has a finite strategy or a finite refutation,
the search ends. -/
theorem findPolicy_ends (h : Solvable order goal library init ∨ Refutable order goal library init) :
    ∃ fuel policy, findPolicy order goal library init fuel = some policy := by
  refine findPolicy_ends_or_rounds.resolve_right ?_
  rintro ⟨f, hzero, hready, hround⟩
  have hendless := endless_of_rounds hready hround
  have hroot := (hready 0).searching
  have hor := hroot.not_isAnd_root
  rcases h with hsolv | href
  · obtain ⟨m, -, hm⟩ := hendless.solved_of_solvable hsolv hroot.root_lt hor hroot.root_state
    exact (hready m).root_unmarked _ hm
  · obtain ⟨m, -, hm⟩ := hendless.dead_of_refutable href hroot.root_lt hor hroot.root_state
    exact (hready m).root_unmarked _ hm

/-- More rounds than needed do not change what is returned. -/
theorem findPolicy_mono {fuel fuel' : ℕ} (hle : fuel ≤ fuel') {policy : Policy}
    (h : findPolicy order goal library init fuel = some policy) :
    findPolicy order goal library init fuel' = some policy :=
  Option.join_eq_some_iff.2 (BoundedLoop.run_mono hle (Option.join_eq_some_iff.1 h))

/-! ### What is returned -/

/-- A round that refuses has refuted the initial state. -/
theorem Ready.refutable (h : Ready order goal library init g)
    (hnot : ¬ Solvable order goal library init) {r : Option Policy}
    (hb : findPolicyStep order goal library g = Sum.inr r) :
    Refutable order goal library init := by
  have hround := h.round
  generalize findPolicyStep order goal library g = r' at hround hb
  cases hround with
  | solves hf hleaf hm hs =>
    split_ifs at hb with hsolved
    rw [hs.getRootNode_eq] at hsolved
    exact absurd (hs.solvable_iff.1 hsolved) hnot
  | expands hf hleaf hg hend => exact absurd hb (by simp)
  | @fails front rest g₁ g' hf hleaf hg hend hm hs =>
    split_ifs at hb with hdead
    rw [hs.getRootNode_eq] at hdead
    have href := hs.exact.refutable_of_dead hs.represents hs.root_lt hs.not_isAnd_root hdead
    rwa [show g'.tree.state 0 = init from hs.root_state] at href

/-- **Where the search ends.** -/
theorem exists_findPolicy_iff :
    (∃ fuel policy, findPolicy order goal library init fuel = some policy) ↔
      Solvable order goal library init ∨ Refutable order goal library init := by
  refine ⟨fun ⟨fuel, policy, h⟩ ↦ or_iff_not_imp_left.2 fun hnot ↦ ?_, findPolicy_ends⟩
  exact @BoundedLoop.run_induct _ _ (findPolicyStep order goal library)
    (Ready order goal library init) (fun _ ↦ Refutable order goal library init)
    (fun hg hb ↦ hg.next hb) (fun hg hb ↦ hg.refutable hnot hb) fuel _ _ ready_initialGraph
    (Option.join_eq_some_iff.1 h)

/-- The outcome of the only action is a goal. -/
theorem OneStep.solvable : Solvable HashOrder.insertion (BuiltFormula.prop "p") ⟨[OneStep.action]⟩
    (State.ofPropositions ∅) := by
  refine .move ⟨OneStep.action, List.mem_singleton.2 rfl, by decide +kernel, by decide +kernel, rfl⟩
    fun t ht ↦ .goal ?_
  have hall : ∀ t ∈ splitIntoGlobalStates (performProductUpdate (performPerspectiveShift
      HashOrder.insertion (State.ofPropositions ∅) OneStep.action.owner) OneStep.action)
        OneStep.action.owner, t.valuate (BuiltFormula.prop "p") = true := by decide +kernel
  exact hall t ht

/-- **Every solvable task is solved.** From some number of rounds on, the search returns a solved
policy, whatever is applicable elsewhere in the tree. -/
theorem findPolicy_of_solvable (order : HashOrder) (goal : BuiltFormula) (library : ActionLibrary)
    (init : State) (h : Solvable order goal library init) :
    ∃ n policy, policy.isSolved = true ∧
      ∀ fuel, n ≤ fuel → findPolicy order goal library init fuel = some policy := by
  obtain ⟨n, policy, hn⟩ := findPolicy_ends (Or.inl h)
  refine ⟨n, policy, ?_, fun fuel hle ↦ findPolicy_mono hle hn⟩
  rcases findPolicy_cases hn with ⟨g, hg, hext⟩ | ⟨-, hnot⟩
  · exact hg.isSolved hext
  · exact absurd h hnot

theorem findPolicy_of_solvable_oneStep :
    Solvable HashOrder.insertion (BuiltFormula.prop "p") ⟨[OneStep.action]⟩
        (State.ofPropositions ∅) ∧
      ∃ n policy, policy.isSolved = true ∧ ∀ fuel, n ≤ fuel →
        findPolicy HashOrder.insertion (BuiltFormula.prop "p") ⟨[OneStep.action]⟩
          (State.ofPropositions ∅) fuel = some policy :=
  ⟨OneStep.solvable, findPolicy_of_solvable _ _ _ _ OneStep.solvable⟩

/-- **Exactly the refutable tasks are refused**, and the search goes on for ever on a task that is
neither solvable nor refutable. -/
theorem findPolicy_refuses_iff (order : HashOrder) (goal : BuiltFormula)
    (library : ActionLibrary) (init : State) :
    ((∃ n policy, policy.isSolved = false ∧
        ∀ fuel, n ≤ fuel → findPolicy order goal library init fuel = some policy) ↔
      Refutable order goal library init) ∧
    ((∀ fuel, findPolicy order goal library init fuel = none) ↔
      ¬ Solvable order goal library init ∧ ¬ Refutable order goal library init) := by
  refine ⟨⟨fun ⟨n, policy, hfalse, hn⟩ ↦ ?_, fun h ↦ ?_⟩, ?_⟩
  · refine (exists_findPolicy_iff.1 ⟨n, policy, hn n le_rfl⟩).resolve_left fun hsolv ↦ ?_
    rcases findPolicy_cases (hn n le_rfl) with ⟨g, hg, hext⟩ | ⟨-, hnot⟩
    · exact Bool.false_ne_true (hfalse.symm.trans (hg.isSolved hext))
    · exact hnot hsolv
  · obtain ⟨n, policy, hn⟩ := findPolicy_ends (Or.inr h)
    refine ⟨n, policy, ?_, fun fuel hle ↦ findPolicy_mono hle hn⟩
    rcases findPolicy_cases hn with ⟨g, hg, -⟩ | ⟨rfl, -⟩
    · exact absurd (hg.searching.solvable_iff.1 hg.root_solved) h.not_solvable
    · rfl
  · rw [← not_or, ← exists_findPolicy_iff]
    simp only [not_exists, ← Option.eq_none_iff_forall_ne_some]

/-! ### A task without a verdict -/

namespace Skip

/-- The only action applies everywhere and changes nothing. -/
def action : Action := Action.ofEvents [⟨0, BuiltFormula.top, ∅, ∅⟩]

/-- The only move from the initial state leads back to it. -/
theorem move_iff {ts : List State} :
    (problem HashOrder.insertion (BuiltFormula.prop "p") ⟨[action]⟩).move
      (State.ofPropositions ∅) ts ↔ ts = [State.ofPropositions ∅] := by
  have hout : splitIntoGlobalStates (performProductUpdate (performPerspectiveShift
      HashOrder.insertion (State.ofPropositions ∅) action.owner) action) action.owner =
        [State.ofPropositions ∅] := by decide +kernel
  constructor
  · rintro ⟨a, ha, -, -, rfl⟩
    rwa [List.mem_singleton.1 ha]
  · rintro rfl
    exact ⟨action, List.mem_singleton.2 rfl, by decide +kernel, by decide +kernel, hout.symm⟩

theorem not_solvable :
    ¬ Solvable HashOrder.insertion (BuiltFormula.prop "p") ⟨[action]⟩ (State.ofPropositions ∅) := by
  intro h
  generalize hs : State.ofPropositions ∅ = s at h
  induction h with
  | goal hgoal =>
    subst hs
    have hfalse : (State.ofPropositions ∅).valuate (BuiltFormula.prop "p") = false := by decide
    exact Bool.false_ne_true (hfalse.symm.trans hgoal)
  | move hmove _ ih =>
    subst hs
    rw [move_iff] at hmove
    subst hmove
    exact ih _ (List.mem_singleton.2 rfl) rfl

theorem not_refutable :
    ¬ Refutable HashOrder.insertion (BuiltFormula.prop "p") ⟨[action]⟩
      (State.ofPropositions ∅) := by
  intro h
  generalize hs : State.ofPropositions ∅ = s at h
  induction h with
  | intro reply _ hmem _ ih =>
    subst hs
    have hmove := move_iff.2 rfl
    exact ih _ hmove (List.mem_singleton.1 (hmem _ hmove)).symm

end Skip

/-- **A search without end** on a well-formed task that is not solvable. -/
theorem findPolicy_runs_on :
    (State.ofPropositions ∅).WellFormed ∧
      ¬ Solvable HashOrder.insertion (BuiltFormula.prop "p") ⟨[Skip.action]⟩
        (State.ofPropositions ∅) ∧
      ∀ fuel, findPolicy HashOrder.insertion (BuiltFormula.prop "p") ⟨[Skip.action]⟩
        (State.ofPropositions ∅) fuel = none := by
  refine ⟨by decide, Skip.not_solvable, fun fuel ↦ Option.eq_none_iff_forall_ne_some.2 ?_⟩
  intro policy h
  exact (exists_findPolicy_iff.1 ⟨fuel, policy, h⟩).elim Skip.not_solvable Skip.not_refutable

end Del
