import R2DTU.Planner.Indistinguishability

/-!
# Indices of the search

The planner indexes vectors of worlds, relation lists and nodes without a check. This module says
which indices a round of the search uses, operation by operation (`…InRange`), and when they are
inside their vectors.

States are not where it goes wrong: the three operations build valid states from any state at all,
and every index into a valid state is in range. Nor are the links between nodes. What can be out of
range is the root: `Graph::root` has no initializer and is never assigned, and `get_root_node`
indexes the nodes with it. So a search here starts from a graph with an arbitrary number in its
place. The frontier is a queue of `int`, which is the other limit: a node id is stored in it
unchanged when it is less than `2 ^ 31`.

`roundInRange_iff` is the exact condition for one round, in every graph that rounds which met it
lead to.
-/

namespace Del

open AndOr (Mark)

variable {order : HashOrder} {goal : BuiltFormula} {library : ActionLibrary} {init s : State}
  {a : Action} {g g' : Graph} {n : ℕ}

/-- All indices are inside the vector. -/
def InRange {α : Type} (l : List α) (indices : List ℕ) : Prop := ∀ i ∈ indices, i < l.length

/-! ### Valid states -/

/-- A well-formed state of `n` agents without repetitions among its designated worlds. -/
structure State.Valid (n : ℕ) (s : State) : Prop where
  wellFormed : s.WellFormed
  nodup : s.designatedWorlds.Nodup
  agents_eq : s.numberOfAgents = n

/-- An action for `n` agents: one of them owns it, and each has a relation list. -/
structure Action.ForAgents (n : ℕ) (a : Action) : Prop where
  owner_lt : a.owner < n
  agents_le : n ≤ a.indistinguishabilityRelation.length

theorem valid_performPerspectiveShift (hs : s.Valid n) (owner : ℕ) :
    (performPerspectiveShift order s owner).Valid n :=
  ⟨wellFormed_performPerspectiveShift order s owner, List.nodup_range, hs.agents_eq⟩

theorem valid_performProductUpdate (hs : s.Valid n) (a : Action) :
    (performProductUpdate s a).Valid n := by
  refine ⟨wellFormed_performProductUpdate s a, ?_, hs.agents_eq⟩
  -- every index is met once
  have hindices : (productPairs s a).zipIdx.Pairwise fun p q ↦ p.2 ≠ q.2 := by
    rw [← List.pairwise_map, List.zipIdx_map_snd]
    exact List.nodup_range'
  refine List.Pairwise.filterMap _ (fun p q hpq k hk l hl ↦ ?_) hindices
  simp only [Option.ite_none_right_eq_some, Option.some.injEq] at hk hl
  rwa [← hk.2, ← hl.2]

theorem valid_of_mem_splitIntoGlobalStates (hs : s.Valid n) {t : State} {owner : ℕ}
    (ht : t ∈ splitIntoGlobalStates s owner) : t.Valid n := by
  have hwf := wellFormed_of_mem_splitIntoGlobalStates hs.wellFormed ht
  obtain ⟨w, -, rfl⟩ := List.mem_map.1 ht
  exact ⟨hwf, List.nodup_singleton w, hs.agents_eq⟩

/-! ### Indices into states -/

/-- `State::valuate` reads the designated worlds. -/
def ValuateInRange (s : State) : Prop := InRange s.worlds s.designatedWorlds

/-- `perform_perspective_shift` reads the list of the shifting agent, the visited worlds and the
lists of all agents. -/
structure ShiftInRange (s : State) (agent : ℕ) : Prop where
  agent_lt : agent < s.indistinguishabilityRelation.length
  visited : InRange s.worlds (shiftVisited s agent)
  agents : InRange s.indistinguishabilityRelation (List.range s.numberOfAgents)

/-- `is_action_applicable` reads the list of the owner and the worlds it reaches. -/
structure ApplicableInRange (s : State) (a : Action) : Prop where
  owner_lt : a.owner < s.indistinguishabilityRelation.length
  reachables : InRange s.worlds (s.getDesignatedWorldReachables a.owner)

/-- `perform_product_update` reads the lists of all agents in the state and in the action. -/
structure ProductInRange (s : State) (a : Action) : Prop where
  agents : InRange s.indistinguishabilityRelation (List.range s.numberOfAgents)
  agents_action : InRange a.indistinguishabilityRelation (List.range s.numberOfAgents)

/-- `split_into_global_states` writes the list of the agent. -/
def SplitInRange (s : State) (agent : ℕ) : Prop := agent < s.indistinguishabilityRelation.length

theorem State.Valid.agents (hs : s.Valid n) :
    InRange s.indistinguishabilityRelation (List.range s.numberOfAgents) := by
  intro agent hagent
  rw [hs.wellFormed.length_relation]
  exact List.mem_range.1 hagent

theorem State.Valid.lt_length (hs : s.Valid n) {agent : ℕ} (h : agent < n) :
    agent < s.indistinguishabilityRelation.length := by
  rw [hs.wellFormed.length_relation, hs.agents_eq]
  exact h

theorem State.Valid.shiftInRange (hs : s.Valid n) {agent : ℕ} (h : agent < n) :
    ShiftInRange s agent :=
  ⟨hs.lt_length h, fun _ hw ↦ hs.wellFormed.lt_of_reaches (mem_shiftVisited.1 hw), hs.agents⟩

theorem State.Valid.applicableInRange (hs : s.Valid n) (ha : a.ForAgents n) :
    ApplicableInRange s a :=
  ⟨hs.lt_length ha.owner_lt,
    fun _ hw ↦ hs.wellFormed.lt_of_reaches (mem_getDesignatedWorldReachables.1 hw)⟩

theorem State.Valid.productInRange (hs : s.Valid n) (ha : a.ForAgents n) : ProductInRange s a := by
  refine ⟨hs.agents, fun agent hagent ↦ ?_⟩
  rw [List.mem_range, hs.agents_eq] at hagent
  exact hagent.trans_le ha.agents_le

/-! ### Indices of a round -/

/-- `check_if_dead` and `check_if_solved` read the node and its children. -/
def NodeInRange (g : Graph) (i : ℕ) : Prop :=
  i < g.nodes.length ∧ InRange g.nodes (g.getNode i).children

/-- The states a loop goes through. -/
def LoopVisits {σ ρ : Type} (body : σ → σ ⊕ ρ) : σ → σ → Prop :=
  Relation.ReflTransGen fun st st' ↦ body st = Sum.inl st'

/-- `propogate_dead_end_node` and `propogate_solved_node` read the node they are called for, and
every node they climb to. -/
def PropogateInRange (m : Mark) (g : Graph) (nodeId : ℕ) : Prop :=
  nodeId < g.nodes.length ∧
    ((g.getNode nodeId).root = false → ∀ st, LoopVisits (Graph.propogateStep m)
      (g.modifyNode nodeId (·.setMark m), (g.getNode nodeId).parent) st → NodeInRange st.1 st.2)

/-- `extract_policy` reads the root, every node it pops with its children, and the parent of an And
node. -/
def ExtractInRange (g : Graph) : Prop :=
  ∀ st, LoopVisits (extractStep g) ([g.root], ⟨true, []⟩) st →
    ∀ i rest, st.1 = i :: rest → NodeInRange g i ∧
      ((g.getNode i).type = .and → (g.getNode i).parent < g.nodes.length)

/-- One action of the loop over the library, up to the test that ends it. The nodes it creates are
put below the current node and below the one just created. -/
def ActionInRange (order : HashOrder) (current : ℕ) (g : Graph) (a : Action) : Prop :=
  let shifted := performPerspectiveShift order (g.getNode current).state a.owner
  current < g.nodes.length ∧ ShiftInRange (g.getNode current).state a.owner ∧
    ApplicableInRange shifted a ∧
    (isActionApplicable shifted a = true → ProductInRange shifted a ∧
      (isValidState (performProductUpdate shifted a) = true →
        SplitInRange (performProductUpdate shifted a) a.owner))

/-- The loop over the library. -/
def ExpandInRange (order : HashOrder) (current : ℕ) : List Action → Graph × Bool → Prop
  | [], _ => True
  | a :: actions, st => ActionInRange order current st.1 a ∧
      ExpandInRange order current actions (expandAction order current st a)

/-- The root is read after a propagation. -/
def RootInRange (g : Graph) : Prop := g.root < g.nodes.length

/-- **Every index a round of `find_policy` uses is in range**, and the front of the frontier is a
number that an `int` holds. -/
def RoundInRange (order : HashOrder) (goal : BuiltFormula) (library : ActionLibrary) (g : Graph) :
    Prop :=
  match g.frontier with
  | [] => True
  | front :: rest =>
    let current := (g.getNode front).id
    let popped : Graph := { g with frontier := rest }
    front < 2 ^ 31 ∧ front < g.nodes.length ∧ current < g.nodes.length ∧
      ValuateInRange (g.getNode current).state ∧
      if isGoalNode (g.getNode current) goal then
        PropogateInRange .solved popped current ∧
          ∀ g', popped.propogateSolvedNode current = some g' →
            RootInRange g' ∧ (g'.getRootNode.solved = true → ExtractInRange g')
      else
        ExpandInRange order current library.actions (popped, false) ∧
          ((library.actions.foldl (expandAction order current) (popped, false)).2 = false →
            PropogateInRange .dead
              (library.actions.foldl (expandAction order current) (popped, false)).1 current ∧
            ∀ g', (library.actions.foldl (expandAction order current)
              (popped, false)).1.propogateDeadEndNode current = some g' → RootInRange g')

/-! ### The invariant -/

/-- What every graph of the search has: links and the frontier stay inside, the states are valid,
and the root is still the number it was at the start. -/
structure Indexed (n root : ℕ) (g : Graph) : Prop where
  /-- Ids, parents and children fit together. -/
  linked : g.Linked
  /-- The root is where it was. -/
  root_eq : g.root = root
  /-- Parents are nodes. -/
  parent_lt {i : ℕ} (hi : i < g.nodes.length) : (g.getNode i).parent < g.nodes.length
  /-- So are children. -/
  child_lt {i c : ℕ} (hc : c ∈ (g.getNode i).children) : c < g.nodes.length
  /-- So is what is on the frontier. -/
  frontier_lt {i : ℕ} (hi : i ∈ g.frontier) : i < g.nodes.length
  /-- The states are valid. -/
  valid {i : ℕ} (hi : i < g.nodes.length) : (g.getNode i).state.Valid n

variable {root : ℕ}

theorem Indexed.nodeInRange (h : Indexed n root g) {i : ℕ} (hi : i < g.nodes.length) :
    NodeInRange g i :=
  ⟨hi, fun _ hc ↦ h.child_lt hc⟩

theorem Indexed.sameSkeleton (h : Indexed n root g) (hs : g.SameSkeleton g') :
    Indexed n root g' where
  linked := h.linked.sameSkeleton hs
  root_eq := hs.root_eq.trans h.root_eq
  parent_lt hi := by
    rw [hs.length_eq] at hi
    rw [hs.parent_eq, hs.length_eq]
    exact h.parent_lt hi
  child_lt hc := by
    rw [hs.children_eq] at hc
    rw [hs.length_eq]
    exact h.child_lt hc
  frontier_lt hi := by
    rw [hs.frontier_eq] at hi
    rw [hs.length_eq]
    exact h.frontier_lt hi
  valid hi := by
    rw [hs.length_eq] at hi
    rw [hs.state_eq]
    exact h.valid hi

theorem Indexed.pop (h : Indexed n root g) {front : ℕ} {rest : List ℕ}
    (hf : g.frontier = front :: rest) : Indexed n root { g with frontier := rest } where
  linked := ⟨h.linked.id_eq, h.linked.root_iff, h.linked.parent_lt, h.linked.mem_children_parent,
    h.linked.child, h.linked.nodup_children⟩
  root_eq := h.root_eq
  parent_lt := h.parent_lt
  child_lt := h.child_lt
  frontier_lt hi := h.frontier_lt (hf ▸ List.mem_cons_of_mem front hi)
  valid := h.valid

/-! ### Propagations -/

theorem Graph.sameSkeleton_checkIf (m : Mark) (g : Graph) (i : ℕ) :
    g.SameSkeleton (g.checkIf m i).2 := by
  unfold Graph.checkIf
  simp only
  split_ifs
  all_goals first | exact .refl g | exact .setMark g i m

/-- One round of the climb goes to the parent of a node that is not the root. -/
theorem Graph.propogateStep_inl {m : Mark} {i j : ℕ}
    (h : Graph.propogateStep m (g, i) = Sum.inl (g', j)) :
    g.SameSkeleton g' ∧ (g.getNode i).root = false ∧ j = (g.getNode i).parent := by
  have hs := Graph.sameSkeleton_checkIf m g i
  simp only [Graph.propogateStep] at h
  split_ifs at h with hholds hroot
  obtain ⟨rfl, rfl⟩ := Prod.mk.inj (Sum.inl.inj h)
  rw [hs.root_flag_eq, Bool.not_eq_true] at hroot
  exact ⟨hs, hroot, hs.parent_eq i⟩

theorem Graph.propogateStep_inr {m : Mark} {i : ℕ}
    (h : Graph.propogateStep m (g, i) = Sum.inr g') : g.SameSkeleton g' := by
  have hs := Graph.sameSkeleton_checkIf m g i
  simp only [Graph.propogateStep] at h
  split_ifs at h
  all_goals
    obtain rfl := Sum.inr.inj h
    exact hs

/-- A propagation changes marks only. -/
theorem Graph.sameSkeleton_propogate {m : Mark} {i : ℕ} (h : g.propogate m i = some g') :
    g.SameSkeleton g' := by
  unfold Graph.propogate at h
  have hset := Graph.SameSkeleton.setMark g i m
  simp only at h
  split_ifs at h
  · rwa [← Option.some.inj h]
  · refine @BoundedLoop.run_induct _ _ (Graph.propogateStep m) (fun st ↦ g.SameSkeleton st.1)
      (fun g' ↦ g.SameSkeleton g') ?_ ?_ _ _ _ hset h
    · rintro ⟨g₁, i₁⟩ ⟨g₂, i₂⟩ hst hb
      exact hst.trans (Graph.propogateStep_inl hb).1
    · rintro ⟨g₁, i₁⟩ g₂ hst hb
      exact hst.trans (Graph.propogateStep_inr hb)

theorem Indexed.propogateInRange (h : Indexed n root g) (m : Mark) {i : ℕ}
    (hi : i < g.nodes.length) : PropogateInRange m g i := by
  refine ⟨hi, fun _ st hst ↦ ?_⟩
  have hset := Graph.SameSkeleton.setMark g i m
  have hinv : Indexed n root st.1 ∧ st.2 < st.1.nodes.length := by
    induction hst with
    | refl => exact ⟨h.sameSkeleton hset, hset.length_eq ▸ h.parent_lt hi⟩
    | @tail st₁ st₂ _ hb ih =>
      obtain ⟨hs, -, hparent⟩ := Graph.propogateStep_inl hb
      refine ⟨ih.1.sameSkeleton hs, ?_⟩
      rw [hparent, hs.length_eq]
      exact ih.1.parent_lt ih.2
  exact hinv.1.nodeInRange hinv.2

/-- The climb ends, because parents are older. -/
theorem Indexed.exists_propogate (h : Indexed n root g) (m : Mark) {i : ℕ}
    (hi : i < g.nodes.length) : ∃ g', g.propogate m i = some g' := by
  unfold Graph.propogate
  simp only
  have hset := Graph.SameSkeleton.setMark g i m
  split_ifs with hroot
  · exact ⟨_, rfl⟩
  · have hparent : ((g.modifyNode i (·.setMark m)).getNode i).parent <
        (g.modifyNode i (·.setMark m)).nodes.length := by
      rw [hset.parent_eq, hset.length_eq]
      exact h.parent_lt hi
    have hstep : ∀ {st st' : Graph × ℕ}, Indexed n root st.1 ∧ st.2 < st.1.nodes.length →
        Graph.propogateStep m st = Sum.inl st' →
        (Indexed n root st'.1 ∧ st'.2 < st'.1.nodes.length) ∧ st'.2 < st.2 := by
      rintro ⟨g₁, i₁⟩ ⟨g₂, i₂⟩ ⟨hg, hlt⟩ hb
      obtain ⟨hs, hflag, rfl⟩ := Graph.propogateStep_inl hb
      have h0 : i₁ ≠ 0 := fun h0 ↦
        Bool.false_ne_true (hflag.symm.trans ((hg.linked.root_iff hlt).2 h0))
      refine ⟨⟨hg.sameSkeleton hs, ?_⟩, hg.linked.parent_lt hlt h0⟩
      rw [hs.length_eq]
      exact hg.parent_lt hlt
    obtain ⟨g', hrun, -⟩ := @BoundedLoop.run_total _ _ (Graph.propogateStep m)
      (fun st ↦ Indexed n root st.1 ∧ st.2 < st.1.nodes.length) (fun _ ↦ True) (fun st ↦ st.2)
      hstep (fun _ _ ↦ trivial) ((g.modifyNode i (·.setMark m)).nodes.length + 1) (_, _)
      ⟨h.sameSkeleton hset, hparent⟩ (hparent.trans (Nat.lt_succ_self _))
    exact ⟨g', hrun⟩

/-- The root is read after a propagation that ended, in a graph of as many nodes. -/
theorem Indexed.rootInRange_iff (h : Indexed n root g) (m : Mark) {i : ℕ}
    (hi : i < g.nodes.length) :
    (∀ g', g.propogate m i = some g' → RootInRange g') ↔ root < g.nodes.length := by
  have heq : ∀ {g'}, g.propogate m i = some g' → (RootInRange g' ↔ root < g.nodes.length) := by
    intro g' hg'
    have hs := Graph.sameSkeleton_propogate hg'
    rw [RootInRange, hs.root_eq, hs.length_eq, h.root_eq]
  obtain ⟨g', hg'⟩ := h.exists_propogate m hi
  exact ⟨fun hall ↦ (heq hg').1 (hall g' hg'), fun hlt g' hg' ↦ (heq hg').2 hlt⟩

/-! ### Extraction -/

/-- The stack of the extraction holds nodes, and the entries have states of nodes. -/
structure ExtractsFrom (n : ℕ) (g : Graph) (st : List ℕ × Policy) : Prop where
  lt {i : ℕ} (hi : i ∈ st.1) : i < g.nodes.length
  valid {e : State × Action} (he : e ∈ st.2.policy) : e.1.Valid n

theorem extractsFrom_root (hroot : g.root < g.nodes.length) :
    ExtractsFrom n g ([g.root], ⟨true, []⟩) :=
  ⟨fun hi ↦ List.mem_singleton.1 hi ▸ hroot, fun he ↦ absurd he List.not_mem_nil⟩

theorem Indexed.extracts (h : Indexed n root g) {st st' : List ℕ × Policy}
    (hst : ExtractsFrom n g st) (hb : extractStep g st = Sum.inl st') : ExtractsFrom n g st' := by
  obtain ⟨stack, policy⟩ := st
  cases stack with
  | nil => exact absurd hb (by simp [extractStep])
  | cons current rest =>
    obtain rfl := Sum.inl.inj hb
    refine ⟨fun {i} hi ↦ ?_, fun {e} he ↦ ?_⟩
    · rcases List.mem_append.1 hi with hi | hi
      · exact h.child_lt ((planChildren_sublist g current).subset (List.mem_reverse.1 hi))
      · exact hst.lt (List.mem_cons_of_mem _ hi)
    · rcases mem_of_mem_addEntryFor he with he | ⟨-, rfl⟩
      · exact hst.valid he
      · exact h.valid (h.parent_lt (hst.lt (List.mem_cons_self ..)))

theorem Indexed.extractInRange (h : Indexed n root g) (hroot : g.root < g.nodes.length) :
    ExtractInRange g := by
  intro st hst
  have hinv : ExtractsFrom n g st := by
    induction hst with
    | refl => exact extractsFrom_root hroot
    | tail _ hb ih => exact h.extracts ih hb
  intro i rest hstack
  have hi := hinv.lt (hstack ▸ List.mem_cons_self ..)
  exact ⟨h.nodeInRange hi, fun _ ↦ h.parent_lt hi⟩

/-- The states of an extracted policy are valid. -/
theorem Indexed.valid_of_mem_policy (h : Indexed n root g) (hroot : g.root < g.nodes.length)
    {policy : Policy} (hext : extractPolicy g = some policy) {e : State × Action}
    (he : e ∈ policy.policy) : e.1.Valid n := by
  refine @BoundedLoop.run_induct _ _ (extractStep g) (ExtractsFrom n g)
    (fun policy ↦ ∀ e ∈ policy.policy, e.1.Valid n) (fun hst hb ↦ h.extracts hst hb) ?_ _ _ _
    (extractsFrom_root hroot) hext e he
  rintro ⟨stack, policy⟩ r hst hb
  cases stack with
  | nil =>
    obtain rfl := Sum.inr.inj hb
    exact fun e he ↦ hst.valid he
  | cons current rest => exact absurd hb (by simp [extractStep])

/-! ### The loop over the library -/

/-- **An action that applies** keeps the invariant. -/
theorem Indexed.expanded (h : Indexed n root g) {current : ℕ} {product : State}
    (he : g.Expanded g' current a product) (hc : current < g.nodes.length)
    (hproduct : product.Valid n) : Indexed n root g' := by
  have hlen := he.length_eq
  refine ⟨he.linked h.linked hc h.child_lt, he.root_eq.trans h.root_eq, fun {i} hi ↦ ?_,
    fun {i c} hmem ↦ ?_, fun {i} hi ↦ ?_, fun {i} hi ↦ ?_⟩
  · rcases he.cases hi with hold | rfl | ⟨k, t, rfl, hk⟩
    · rw [he.congr_old Node.parent (fun _ _ ↦ rfl) hold]
      have hparent := h.parent_lt hold
      omega
    · rw [he.action_eq]
      show current < g'.nodes.length
      omega
    · rw [he.outcome hk]
      show g.nodes.length < g'.nodes.length
      omega
  · rcases he.cases_of_child hmem with hold | ⟨-, rfl⟩ | ⟨-, k, t, -, hlt, -⟩
    · have hchild := h.child_lt hold
      omega
    · omega
    · exact hlt
  · rw [he.frontier_eq, List.mem_append, List.mem_range'_1] at hi
    rcases hi with hi | hi
    · have hold := h.frontier_lt hi
      omega
    · omega
  · rcases he.cases hi with hold | rfl | ⟨k, t, rfl, hk⟩
    · rw [he.state_old hold]
      exact h.valid hold
    · rw [he.action_eq]
      exact hproduct
    · rw [he.outcome hk]
      exact valid_of_mem_splitIntoGlobalStates hproduct (List.mem_of_getElem? hk)

/-- What the loop over the library keeps. -/
structure ExpandsFrom (n root current : ℕ) (s : State) (st : Graph × Bool) : Prop where
  indexed : Indexed n root st.1
  lt : current < st.1.nodes.length
  state_eq : (st.1.getNode current).state = s

/-- **One action** uses indices in range, and sets the flag when it applies. -/
theorem ExpandsFrom.expandAction {current : ℕ} {st : Graph × Bool}
    (h : ExpandsFrom n root current s st) (ha : a.ForAgents n) :
    ActionInRange order current st.1 a ∧
      ExpandsFrom n root current s (expandAction order current st a) ∧
      ((expandAction order current st a).2 = true ↔
        st.2 = true ∨ (applyAction order s a).isSome = true) := by
  obtain ⟨g, found⟩ := st
  obtain ⟨hg, hlt, hstate⟩ := h
  simp only at hg hlt hstate
  have hvalid := hg.valid hlt
  have hshift : (performPerspectiveShift order (g.getNode current).state a.owner).Valid n :=
    valid_performPerspectiveShift hvalid a.owner
  have hproduct := valid_performProductUpdate hshift a
  refine ⟨⟨hlt, hvalid.shiftInRange ha.owner_lt, hshift.applicableInRange ha,
    fun _ ↦ ⟨hshift.productInRange ha, fun _ ↦ hproduct.lt_length ha.owner_lt⟩⟩, ?_⟩
  rcases happly : applyAction order s a with _ | product
  · have hskip : Del.expandAction order current (g, found) a = (g, found) := by
      simp only [Del.expandAction, hstate, happly]
    rw [hskip]
    exact ⟨⟨hg, hlt, hstate⟩, by simp⟩
  · obtain ⟨g', heq, he⟩ := @Graph.expanded_expandAction g order current a product found hlt
      (hstate ▸ happly)
    obtain ⟨-, -, rfl⟩ := applyAction_eq_some_iff.1 happly
    rw [heq]
    refine ⟨⟨hg.expanded he hlt (hstate ▸ hproduct), ?_, (he.state_old hlt).trans hstate⟩, by simp⟩
    have hlen := he.length_eq
    show current < g'.nodes.length
    omega

/-- **The loop over the library.** -/
theorem ExpandsFrom.foldl {current : ℕ} {actions : List Action} {st : Graph × Bool}
    (h : ExpandsFrom n root current s st) (hlib : ∀ a ∈ actions, a.ForAgents n) :
    ExpandInRange order current actions st ∧
      ExpandsFrom n root current s (actions.foldl (Del.expandAction order current) st) ∧
      ((actions.foldl (Del.expandAction order current) st).2 = true ↔
        st.2 = true ∨ moves order actions s ≠ []) := by
  induction actions generalizing st with
  | nil => exact ⟨trivial, h, by simp [moves]⟩
  | cons a actions ih =>
    obtain ⟨hrange, hnext, hflag⟩ := @ExpandsFrom.expandAction order _ a n root current st h
      (hlib a (List.mem_cons_self ..))
    obtain ⟨hrange', hend, hflag'⟩ := ih hnext fun b hb ↦ hlib b (List.mem_cons_of_mem _ hb)
    refine ⟨⟨hrange, hrange'⟩, hend, ?_⟩
    rw [List.foldl_cons, hflag', hflag, or_assoc]
    refine or_congr_right ?_
    rcases happly : applyAction order s a with _ | product
    · simp [moves, happly]
    · simp [moves, happly]

/-- Actions that do not apply change nothing. -/
theorem foldl_expandAction_of_moves_eq_nil {current : ℕ} {actions : List Action}
    {st : Graph × Bool} (h : moves order actions (st.1.getNode current).state = []) :
    actions.foldl (expandAction order current) st = st := by
  induction actions with
  | nil => rfl
  | cons a actions ih =>
    rcases happly : applyAction order (st.1.getNode current).state a with _ | product
    · have hskip : expandAction order current st a = st := by simp only [expandAction, happly]
      rw [List.foldl_cons, hskip]
      exact ih (by simpa [moves, happly] using h)
    · simp [moves, happly] at h

/-! ### Rounds -/

/-- The round pops a node that makes it read the root: a goal, or a node where no action applies. -/
def ReadsRoot (order : HashOrder) (goal : BuiltFormula) (library : ActionLibrary) (g : Graph)
    (front : ℕ) : Prop :=
  (g.getNode front).state.valuate goal = true ∨
    moves order library.actions (g.getNode front).state = []

/-- **One round.** Its indices are in range exactly when the front of the frontier fits an `int` and
the root is a node if it is read. -/
theorem Indexed.roundInRange_iff (h : Indexed n root g)
    (hlib : ∀ a ∈ library.actions, a.ForAgents n) :
    RoundInRange order goal library g ↔ ∀ front rest, g.frontier = front :: rest →
      front < 2 ^ 31 ∧ (ReadsRoot order goal library g front → root < g.nodes.length) := by
  rcases hf : g.frontier with _ | ⟨front, rest⟩
  · simp [RoundInRange, hf]
  have hlt : front < g.nodes.length := h.frontier_lt (hf ▸ List.mem_cons_self ..)
  have hid : (g.getNode front).id = front := h.linked.id_eq hlt
  have hpop := h.pop hf
  have hval : ValuateInRange (g.getNode front).state := fun _ hw ↦
    (h.valid hlt).wellFormed.designated_lt hw
  have hexpand := @ExpandsFrom.foldl order (g.getNode front).state n root front library.actions
    ({ g with frontier := rest }, false) ⟨hpop, hlt, rfl⟩ hlib
  have hcond : (∀ front' rest', front :: rest = front' :: rest' → front' < 2 ^ 31 ∧
      (ReadsRoot order goal library g front' → root < g.nodes.length)) ↔
        front < 2 ^ 31 ∧ (ReadsRoot order goal library g front → root < g.nodes.length) := by
    simp
  rw [hcond]
  simp only [RoundInRange, hf, hid]
  refine and_congr_right fun _ ↦ ?_
  rw [and_iff_right hlt, and_iff_right hlt, and_iff_right hval]
  have hprop := fun m ↦ hpop.rootInRange_iff m hlt
  rcases hgoal : isGoalNode (g.getNode front) goal with _ | _
  · rw [if_neg Bool.false_ne_true, and_iff_right hexpand.1]
    have hreads : ReadsRoot order goal library g front ↔
        moves order library.actions (g.getNode front).state = [] :=
      or_iff_right fun htrue ↦ Bool.false_ne_true (hgoal.symm.trans htrue)
    rw [hreads]
    by_cases hmoves : moves order library.actions (g.getNode front).state = []
    · have hsame : library.actions.foldl (expandAction order front)
          ({ g with frontier := rest }, false) = ({ g with frontier := rest }, false) :=
        foldl_expandAction_of_moves_eq_nil hmoves
      rw [hsame]
      exact ⟨fun hall _ ↦ (hprop .dead).1 (hall rfl).2,
        fun hroot _ ↦ ⟨hpop.propogateInRange .dead hlt, (hprop .dead).2 (hroot hmoves)⟩⟩
    · have hfound := hexpand.2.2.2 (Or.inr hmoves)
      refine iff_of_true (fun hfalse ↦ ?_) fun hnil ↦ absurd hnil hmoves
      exact absurd (hfalse.symm.trans hfound) Bool.false_ne_true
  · have hreads : ReadsRoot order goal library g front := Or.inl hgoal
    rw [if_pos rfl, and_iff_right (hpop.propogateInRange .solved hlt), forall_prop_of_true hreads]
    refine (forall₂_congr fun g' hg' ↦ ?_).trans (hprop .solved)
    refine and_iff_left_of_imp fun hroot _ ↦ ?_
    exact (hpop.sameSkeleton (Graph.sameSkeleton_propogate hg')).extractInRange hroot

/-- **Rounds keep the invariant.** -/
theorem Indexed.next (h : Indexed n root g) (hlib : ∀ a ∈ library.actions, a.ForAgents n)
    (hb : findPolicyStep order goal library g = Sum.inl g') : Indexed n root g' := by
  rcases hf : g.frontier with _ | ⟨front, rest⟩
  · simp [findPolicyStep, hf] at hb
  have hlt : front < g.nodes.length := h.frontier_lt (hf ▸ List.mem_cons_self ..)
  have hpop := h.pop hf
  obtain ⟨-, hend, -⟩ := @ExpandsFrom.foldl order (g.getNode front).state n root front
    library.actions ({ g with frontier := rest }, false) ⟨hpop, hlt, rfl⟩ hlib
  simp only [findPolicyStep, hf, h.linked.id_eq hlt] at hb
  split_ifs at hb with hgoal hfound
  · rcases hp : Graph.propogateSolvedNode { g with frontier := rest } front with _ | g₁
    · simp [hp] at hb
    · simp only [hp] at hb
      split_ifs at hb
      obtain rfl := Sum.inl.inj hb
      exact hpop.sameSkeleton (Graph.sameSkeleton_propogate hp)
  · obtain rfl := Sum.inl.inj hb
    exact hend.indexed
  · rcases hp : Graph.propogateDeadEndNode (library.actions.foldl (expandAction order front)
      ({ g with frontier := rest }, false)).1 front with _ | g₁
    · simp [hp] at hb
    · simp only [hp] at hb
      split_ifs at hb
      obtain rfl := Sum.inl.inj hb
      exact hend.indexed.sameSkeleton (Graph.sameSkeleton_propogate hp)

/-- **The states of a returned policy are valid**, when the round that returns it reads a root that
is a node. -/
theorem Indexed.returns (h : Indexed n root g) (hlib : ∀ a ∈ library.actions, a.ForAgents n)
    (hr : RoundInRange order goal library g) {policy : Policy}
    (hb : findPolicyStep order goal library g = Sum.inr (some policy)) {e : State × Action}
    (he : e ∈ policy.policy) : e.1.Valid n := by
  rcases hf : g.frontier with _ | ⟨front, rest⟩
  · obtain rfl : policy = ⟨false, []⟩ := by simpa [findPolicyStep, hf, eq_comm] using hb
    exact absurd he List.not_mem_nil
  have hlt : front < g.nodes.length := h.frontier_lt (hf ▸ List.mem_cons_self ..)
  have hpop := h.pop hf
  obtain ⟨-, hread⟩ := (h.roundInRange_iff hlib).1 hr front rest hf
  simp only [findPolicyStep, hf, h.linked.id_eq hlt] at hb
  split_ifs at hb with hgoal hfound
  · rcases hp : Graph.propogateSolvedNode { g with frontier := rest } front with _ | g₁
    · simp [hp] at hb
    · simp only [hp] at hb
      split_ifs at hb
      have hs := Graph.sameSkeleton_propogate hp
      refine (hpop.sameSkeleton hs).valid_of_mem_policy ?_ (Sum.inr.inj hb) he
      rw [hs.root_eq, hs.length_eq]
      exact hpop.root_eq ▸ hread (Or.inl hgoal)
  · rcases hp : Graph.propogateDeadEndNode (library.actions.foldl (expandAction order front)
      ({ g with frontier := rest }, false)).1 front with _ | g₁
    · simp [hp] at hb
    · simp only [hp] at hb
      split_ifs at hb
      obtain rfl : (⟨false, []⟩ : Policy) = policy := Option.some.inj (Sum.inr.inj hb)
      exact absurd he List.not_mem_nil

/-! ### Runs -/

/-- The graph a search starts from, with whatever number is in the place of the root. -/
def startGraph (init : State) (root : ℕ) : Graph := { initialGraph init with root := root }

/-- The graphs that rounds with all indices in range lead to. -/
def SearchInRange (order : HashOrder) (goal : BuiltFormula) (library : ActionLibrary)
    (init : State) (root : ℕ) : Graph → Prop :=
  Relation.ReflTransGen (fun g g' ↦ RoundInRange order goal library g ∧
    findPolicyStep order goal library g = Sum.inl g') (startGraph init root)

theorem indexed_startGraph (hinit : init.Valid n) (root : ℕ) :
    Indexed n root (startGraph init root) := by
  have hlinked := (@searching_initialGraph HashOrder.insertion BuiltFormula.top ⟨[]⟩ init).linked
  have hlen : (startGraph init root).nodes.length = 1 := rfl
  have hchildren : ∀ i, ((startGraph init root).getNode i).children = [] := by
    intro i
    cases i <;> rfl
  refine ⟨⟨hlinked.id_eq, hlinked.root_iff, hlinked.parent_lt, hlinked.mem_children_parent,
      hlinked.child, hlinked.nodup_children⟩, rfl, fun {i} hi ↦ ?_, fun {i c} hc ↦ ?_,
    fun {i} hi ↦ ?_, fun {i} hi ↦ ?_⟩
  · obtain rfl : i = 0 := by omega
    exact Nat.one_pos
  · rw [hchildren] at hc
    exact absurd hc List.not_mem_nil
  · obtain rfl := List.mem_singleton.1 hi
    exact Nat.one_pos
  · obtain rfl : i = 0 := by omega
    exact hinit

theorem SearchInRange.indexed (h : SearchInRange order goal library init root g)
    (hinit : init.Valid n) (hlib : ∀ a ∈ library.actions, a.ForAgents n) : Indexed n root g := by
  induction h with
  | refl => exact indexed_startGraph hinit root
  | tail _ hb ih => exact ih.next hlib hb.2

/-- **States and indices of a whole search**, whatever `Graph::root` holds. Every state of a node,
every shifted state and every product is valid, and so are the states of the policy; a round uses
indices in range exactly when the front of the frontier fits an `int` and the root, if the round
reads it, is less than the number of nodes. -/
theorem searchInRange_spec (order : HashOrder) (goal : BuiltFormula) (library : ActionLibrary)
    (init : State) (root : ℕ) (hinit : init.Valid init.numberOfAgents)
    (hlib : ∀ a ∈ library.actions, a.ForAgents init.numberOfAgents) (g : Graph)
    (hg : SearchInRange order goal library init root g) :
    (∀ i < g.nodes.length, (g.getNode i).state.Valid init.numberOfAgents ∧
      ∀ a ∈ library.actions,
        (performPerspectiveShift order (g.getNode i).state a.owner).Valid init.numberOfAgents ∧
          (performProductUpdate (performPerspectiveShift order (g.getNode i).state a.owner) a).Valid
            init.numberOfAgents) ∧
    (RoundInRange order goal library g → ∀ policy,
      findPolicyStep order goal library g = Sum.inr (some policy) →
        ∀ e ∈ policy.policy, e.1.Valid init.numberOfAgents) ∧
    (RoundInRange order goal library g ↔ ∀ front rest, g.frontier = front :: rest →
      front < 2 ^ 31 ∧ (ReadsRoot order goal library g front → root < g.nodes.length)) := by
  have hindexed := hg.indexed hinit hlib
  refine ⟨fun i hi ↦ ⟨hindexed.valid hi, fun a _ ↦ ?_⟩,
    fun hr policy hb e he ↦ hindexed.returns hlib hr hb he, hindexed.roundInRange_iff hlib⟩
  have hshift : (performPerspectiveShift order (g.getNode i).state a.owner).Valid _ :=
    valid_performPerspectiveShift (hindexed.valid hi) a.owner
  exact ⟨hshift, valid_performProductUpdate hshift a⟩

theorem valid_ofPropositions (propositions : Finset String) :
    (State.ofPropositions propositions).Valid 1 := by
  refine ⟨State.wellFormed_iff.2 ⟨fun k hk ↦ ?_, ?_, ?_, rfl⟩, List.nodup_singleton 0, rfl⟩
  · obtain rfl : k = 0 := Nat.lt_one_iff.1 hk
    rfl
  · simp [State.ofPropositions]
  · simp [State.ofPropositions]

theorem searchInRange_spec_oneStep :
    (State.ofPropositions ∅).Valid 1 ∧ OneStep.action.ForAgents 1 ∧
      (RoundInRange HashOrder.insertion (BuiltFormula.prop "p") ⟨[OneStep.action]⟩
          (startGraph (State.ofPropositions ∅) 0) ↔
        ∀ front rest, (startGraph (State.ofPropositions ∅) 0).frontier = front :: rest →
          front < 2 ^ 31 ∧ (ReadsRoot HashOrder.insertion (BuiltFormula.prop "p")
            ⟨[OneStep.action]⟩ (startGraph (State.ofPropositions ∅) 0) front →
              0 < (startGraph (State.ofPropositions ∅) 0).nodes.length)) := by
  have haction : OneStep.action.ForAgents 1 := ⟨by decide, by decide⟩
  refine ⟨valid_ofPropositions ∅, haction, (searchInRange_spec HashOrder.insertion
    (BuiltFormula.prop "p") ⟨[OneStep.action]⟩ (State.ofPropositions ∅) 0 (valid_ofPropositions ∅)
    (fun a ha ↦ ?_) _ .refl).2.2⟩
  rw [List.mem_singleton.1 ha]
  exact haction

/-- **The root out of range** in the first round of a search that is over at once: the initial state
is a goal, and the number in the place of the root is 7. -/
theorem searchInRange_root_seven :
    (State.ofPropositions ∅).Valid 1 ∧
      SearchInRange HashOrder.insertion BuiltFormula.top ⟨[]⟩ (State.ofPropositions ∅) 7
        (startGraph (State.ofPropositions ∅) 7) ∧
      ¬ RoundInRange HashOrder.insertion BuiltFormula.top ⟨[]⟩
        (startGraph (State.ofPropositions ∅) 7) := by
  refine ⟨valid_ofPropositions ∅, .refl, fun h ↦ ?_⟩
  have hindexed := indexed_startGraph (valid_ofPropositions ∅) 7
  have hcond := (hindexed.roundInRange_iff fun a ha ↦ absurd ha List.not_mem_nil).1 h 0 [] rfl
  have hlt := hcond.2 (Or.inl (by decide))
  exact absurd hlt (by decide)

end Del
