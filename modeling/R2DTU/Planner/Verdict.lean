import R2DTU.Planner.Extraction

/-!
# The planner's verdict

One round of the search either keeps its invariant and leaves the root undecided, or returns. It
returns a policy extracted from a graph whose root is solved, or refuses because the root is dead;
the frontier is never found empty. Both marks of the root mean what they say
(`AndOr.MarkedTree.Coherent.solvable_of_solved`, `not_solvable_of_dead`), so a returned verdict is
exact.
-/

namespace Del

open AndOr (Mark MarkedTree)

variable {order : HashOrder} {goal : BuiltFormula} {library : ActionLibrary} {init : State}
  {g : Graph}

/-- The invariant between two rounds: nobody is busy and the root is undecided. -/
structure Ready (order : HashOrder) (goal : BuiltFormula) (library : ActionLibrary)
    (init : State) (g : Graph) : Prop where
  searching : Searching order goal library init (fun _ ↦ False) g
  root_unmarked : g.tree.Unmarked 0

/-- A graph a policy is extracted from. -/
structure SolvedGraph (order : HashOrder) (goal : BuiltFormula) (library : ActionLibrary)
    (init : State) (g : Graph) : Prop where
  searching : Searching order goal library init (fun _ ↦ False) g
  root_solved : g.tree.marked .solved 0

theorem Searching.not_isAnd_root (h : Searching order goal library init (fun _ ↦ False) g) :
    ¬ g.tree.isAnd 0 :=
  fun hand ↦ NodeType.noConfusion (h.root_type.symm.trans hand)

theorem Searching.solvable_iff (h : Searching order goal library init (fun _ ↦ False) g) :
    (g.tree.marked .solved 0 → Solvable order goal library init) ∧
      (g.tree.marked .dead 0 → ¬ Solvable order goal library init) := by
  have hor := h.not_isAnd_root
  have hstate : g.tree.state 0 = init := h.root_state
  refine ⟨fun hs ↦ ?_, fun hd ↦ ?_⟩
  · have hsolv := h.exact.solvable_of_solved h.represents h.root_lt hor hs
    rwa [hstate] at hsolv
  · have hnot := h.exact.not_solvable_of_dead h.represents h.root_lt hor hd
    rwa [hstate] at hnot

/-- An undecided root has an open leaf below it. -/
theorem Ready.frontier_ne_nil (h : Ready order goal library init g) : g.frontier ≠ [] := by
  obtain ⟨j, hj, hnil, hor, hu⟩ :=
    h.searching.exact.exists_unmarked_leaf _ 0 rfl h.searching.root_lt h.root_unmarked
  have htype : (g.getNode j).type = .or := by
    cases htype : (g.getNode j).type with
    | or => rfl
    | and => exact absurd htype hor
  have hmem := (h.searching.mem_frontier hj htype hnil hu).resolve_right id
  exact List.ne_nil_of_mem hmem

/-- What a round of the search can do. -/
inductive RoundOutcome (order : HashOrder) (goal : BuiltFormula) (library : ActionLibrary)
    (init : State) : Graph ⊕ Option Policy → Prop
  | continues {g : Graph} (h : Ready order goal library init g) :
    RoundOutcome order goal library init (Sum.inl g)
  | extracts {g : Graph} (h : SolvedGraph order goal library init g) :
    RoundOutcome order goal library init (Sum.inr (extractPolicy g))
  | refuses (h : ¬ Solvable order goal library init) :
    RoundOutcome order goal library init (Sum.inr (some ⟨false, []⟩))

/-- **What a round did**: it took a node off the frontier and marked it solved, expanded it, or
found nothing to expand it with and marked it dead. -/
inductive Round (order : HashOrder) (goal : BuiltFormula) (library : ActionLibrary)
    (init : State) (g : Graph) : Graph ⊕ Option Policy → Prop
  | solves {front : ℕ} {rest : List ℕ} {g' : Graph} (hf : g.frontier = front :: rest)
    (hleaf : (g.getNode front).children = [])
    (hm : Graph.Marking .solved front { g with frontier := rest } g')
    (hs : Searching order goal library init (fun _ ↦ False) g') :
    Round order goal library init g
      (if g'.getRootNode.solved then Sum.inr (extractPolicy g') else Sum.inl g')
  | expands {front : ℕ} {rest : List ℕ} {g' : Graph} (hf : g.frontier = front :: rest)
    (hleaf : (g.getNode front).children = [])
    (hg : Graph.Grown { g with frontier := rest } g' front)
    (hend : Expanding order goal library init front library.actions (g', true)) :
    Round order goal library init g (Sum.inl g')
  | fails {front : ℕ} {rest : List ℕ} {g₁ g' : Graph} (hf : g.frontier = front :: rest)
    (hleaf : (g.getNode front).children = [])
    (hg : Graph.Grown { g with frontier := rest } g₁ front)
    (hend : Expanding order goal library init front library.actions (g₁, false))
    (hm : Graph.Marking .dead front g₁ g')
    (hs : Searching order goal library init (fun _ ↦ False) g') :
    Round order goal library init g
      (if g'.getRootNode.dead then Sum.inr (some ⟨false, []⟩) else Sum.inl g')

/-- The loop over the library starts from a leaf. -/
theorem Ready.expanding (h : Ready order goal library init g) {front : ℕ} {rest : List ℕ}
    (hf : g.frontier = front :: rest) (hgoal : (g.getNode front).state.valuate goal = false) :
    Expanding order goal library init front [] ({ g with frontier := rest }, false) := by
  obtain ⟨hlt, hor, hnil, hu, -⟩ := h.searching.frontier_open (hf ▸ List.mem_cons_self ..)
  refine ⟨h.searching.pop hf, hlt, hor, hu, hgoal, ?_, ?_, fun {c} hc ↦ ?_, h.root_unmarked⟩
  · show (g.getNode front).children.map _ = []
    rw [hnil, List.map_nil]
  · show false = true ↔ (g.getNode front).children ≠ []
    simp [hnil]
  · change c ∈ (g.getNode front).children at hc
    rw [hnil] at hc
    exact absurd hc List.not_mem_nil

/-- **One round of the search, inverted.** -/
theorem Ready.round (h : Ready order goal library init g) :
    Round order goal library init g (findPolicyStep order goal library g) := by
  obtain ⟨front, rest, hf⟩ := List.exists_cons_of_ne_nil h.frontier_ne_nil
  obtain ⟨hlt, hor, hnil, hu, -⟩ := h.searching.frontier_open (hf ▸ List.mem_cons_self ..)
  have hpop := h.searching.pop hf
  have hid : (g.getNode front).id = front := h.searching.linked.id_eq hlt
  simp only [findPolicyStep, hf, hid]
  rcases hgoal : isGoalNode (Graph.getNode { g with frontier := rest } front) goal with _ | _
  · have hgrown := @Graph.grown_foldl order front library.actions
      ({ g with frontier := rest }, false) hlt
    have hend := (h.expanding hf hgoal).foldl
    rw [if_neg Bool.false_ne_true]
    rcases hst : library.actions.foldl (expandAction order front)
      ({ g with frontier := rest }, false) with ⟨g₁, found⟩
    rw [hst] at hgrown hend
    simp only
    cases found with
    | true =>
      rw [if_pos rfl]
      exact .expands hf hnil hgrown hend
    | false =>
      -- no action applied, so the node is still a leaf
      have hleaf : (g₁.getNode front).children = [] :=
        not_not.1 fun hne ↦ Bool.false_ne_true (hend.found_iff.2 hne)
      have hstuck := hend.childMoves_eq
      rw [Graph.childMoves, hleaf, List.map_nil] at hstuck
      obtain ⟨g', heq, hmark, hexact⟩ := Graph.propogate_spec .dead hend.searching.linked
        hend.searching.exact hend.lt hleaf hend.unmarked
      have hs := hend.searching.mark hmark hexact (fun h ↦ Mark.noConfusion h)
        (fun _ ↦ ⟨hend.not_goal, hstuck.symm⟩) hleaf
      rw [if_neg Bool.false_ne_true, show g₁.propogateDeadEndNode front = some g' from heq]
      exact .fails hf hnil hgrown hend hmark hs
  · obtain ⟨g', heq, hmark, hexact⟩ :=
      Graph.propogate_spec .solved hpop.linked hpop.exact hlt hnil hu
    have hs := hpop.mark hmark hexact (fun _ ↦ hgoal) (fun h ↦ Mark.noConfusion h) hnil
    rw [if_pos rfl,
      show Graph.propogateSolvedNode { g with frontier := rest } front = some g' from heq]
    exact .solves hf hnil hmark hs

/-- A propagation of one mark that does not reach the root leaves it undecided. -/
theorem unmarked_root_of_marking {m : Mark} {n : ℕ} {g₁ g' : Graph}
    (hm : Graph.Marking m n g₁ g') (hroot : g₁.tree.Unmarked 0) (h : ¬ g'.tree.marked m 0) :
    g'.tree.Unmarked 0 := by
  intro m' hm'
  rcases hm.new hm' with hold | ⟨rfl, -⟩
  · exact hroot m' hold
  · exact h hm'

theorem Searching.getRootNode_eq (h : Searching order goal library init (fun _ ↦ False) g) :
    g.getRootNode = g.getNode 0 := by
  rw [Graph.getRootNode, h.root_eq]

/-- **One round of the search.** -/
theorem Ready.step (h : Ready order goal library init g) :
    RoundOutcome order goal library init (findPolicyStep order goal library g) := by
  have hround := h.round
  generalize findPolicyStep order goal library g = r at hround ⊢
  cases hround with
  | @solves front rest g' hf hleaf hm hs =>
    split_ifs with hsolved
    · rw [hs.getRootNode_eq] at hsolved
      exact .extracts ⟨hs, hsolved⟩
    · rw [hs.getRootNode_eq] at hsolved
      exact .continues ⟨hs, unmarked_root_of_marking hm h.root_unmarked hsolved⟩
  | expands hf hleaf hg hend => exact .continues ⟨hend.finish rfl, hend.root_unmarked⟩
  | @fails front rest g₁ g' hf hleaf hg hend hm hs =>
    split_ifs with hdead
    · rw [hs.getRootNode_eq] at hdead
      exact .refuses (hs.solvable_iff.2 hdead)
    · rw [hs.getRootNode_eq] at hdead
      exact .continues ⟨hs, unmarked_root_of_marking hm hend.root_unmarked hdead⟩

/-! ### Whole runs -/

theorem ready_initialGraph : Ready order goal library init (initialGraph init) :=
  ⟨searching_initialGraph, fun m ↦ by cases m <;> exact Bool.false_ne_true⟩

/-- **A returned policy** was extracted from a solved graph, or is the refusal of a task that is not
solvable. -/
theorem findPolicy_cases {fuel : ℕ} {policy : Policy}
    (h : findPolicy order goal library init fuel = some policy) :
    (∃ g, SolvedGraph order goal library init g ∧ extractPolicy g = some policy) ∨
      (policy = ⟨false, []⟩ ∧ ¬ Solvable order goal library init) := by
  have hrun := Option.join_eq_some_iff.1 h
  have hpost := @BoundedLoop.run_induct _ _ (findPolicyStep order goal library)
    (Ready order goal library init)
    (fun r ↦ (∃ g, SolvedGraph order goal library init g ∧ extractPolicy g = r) ∨
      (r = some ⟨false, []⟩ ∧ ¬ Solvable order goal library init))
    ?_ ?_ fuel _ _ ready_initialGraph hrun
  · exact hpost.imp_right fun ⟨hp, hns⟩ ↦ ⟨Option.some.inj hp, hns⟩
  · intro g g' hg hb
    have hround := hg.step
    rw [hb] at hround
    cases hround with
    | continues hg' => exact hg'
  · intro g r hg hb
    have hround := hg.step
    rw [hb] at hround
    cases hround with
    | extracts hg' => exact Or.inl ⟨_, hg', rfl⟩
    | refuses hns => exact Or.inr ⟨rfl, hns⟩

/-- What is extracted from a solved graph is a solved policy. -/
theorem SolvedGraph.isSolved (h : SolvedGraph order goal library init g) {policy : Policy}
    (hext : extractPolicy g = some policy) : policy.isSolved = true := by
  obtain ⟨policy', hext', hsolved, -⟩ := extractPolicy_spec h.searching.linked h.searching.exact
    (h.searching.root_eq ▸ h.searching.root_lt)
  obtain rfl := Option.some.inj (hext.symm.trans hext')
  exact hsolved

/-- **The verdict is exact.** Whenever the search returns, the policy is solved if and only if the
initial state is solvable. -/
theorem findPolicy_isSolved_iff (order : HashOrder) (goal : BuiltFormula)
    (library : ActionLibrary) (init : State) (fuel : ℕ) (policy : Policy)
    (h : findPolicy order goal library init fuel = some policy) :
    policy.isSolved = true ↔ Solvable order goal library init := by
  rcases findPolicy_cases h with ⟨g, hg, hext⟩ | ⟨rfl, hns⟩
  · exact ⟨fun _ ↦ hg.searching.solvable_iff.1 hg.root_solved, fun _ ↦ hg.isSolved hext⟩
  · exact ⟨fun hfalse ↦ absurd hfalse Bool.false_ne_true, fun hsolv ↦ absurd hsolv hns⟩

namespace OneStep

/-- The only action makes `p` true. -/
def action : Action := Action.ofEvents [⟨0, BuiltFormula.top, {"p"}, ∅⟩]

/-- The policy that performs it in the world without propositions. -/
def policy : Policy := ⟨true, [(State.ofPropositions ∅, action)]⟩

end OneStep

theorem findPolicy_isSolved_iff_oneStep :
    findPolicy HashOrder.insertion (BuiltFormula.prop "p") ⟨[OneStep.action]⟩
        (State.ofPropositions ∅) 2 = some OneStep.policy ∧
      (OneStep.policy.isSolved = true ↔ Solvable HashOrder.insertion (BuiltFormula.prop "p")
        ⟨[OneStep.action]⟩ (State.ofPropositions ∅)) :=
  ⟨by decide +kernel, findPolicy_isSolved_iff _ _ ⟨[OneStep.action]⟩ _ 2 _ (by decide +kernel)⟩

end Del
