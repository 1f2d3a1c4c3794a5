import R2DTU.Planner.Search
import Mathlib.Algebra.Order.Ring.GeomSum
import Mathlib.Logic.Relation

/-!
# What is extracted from a solved graph

`PlanStep` is the step of the extraction from a node to a node pushed for it, and the nodes reached
by such steps from the root are the **plan**. The extraction ends, because a node is replaced by
younger ones and the weights `2 ^ (n - i)` of distinct younger nodes add up to less than the weight
of the node; when it ends, every And node of the plan has its entry in the policy.
-/

namespace Del

variable {g : Graph}

/-- The node `c` is pushed when `i` is popped. -/
def PlanStep (g : Graph) (i c : ℕ) : Prop := c ∈ planChildren g i

/-- The entry of an And node: the state of its parent, and the action that leads from there. -/
def planEntry (g : Graph) (c : ℕ) : State × Action :=
  ((g.getNode (g.getNode c).parent).state, (g.getNode c).actionFromParent)

theorem planChildren_sublist (g : Graph) (i : ℕ) :
    (planChildren g i).Sublist (g.getNode i).children := by
  unfold planChildren
  cases (g.getNode i).type with
  | or => exact (List.take_sublist _ _).trans List.filter_sublist
  | and => exact List.filter_sublist

theorem solved_of_mem_planChildren {i c : ℕ} (h : c ∈ planChildren g i) :
    (g.getNode c).solved = true := by
  have hfilter : c ∈ (g.getNode i).children.filter fun c ↦ (g.getNode c).solved := by
    unfold planChildren at h
    cases htype : (g.getNode i).type with
    | or =>
      simp only [htype] at h
      exact List.mem_of_mem_take h
    | and => simpa only [htype] using h
  simpa using (List.mem_filter.1 hfilter).2

/-- A solved child of an Or node makes for exactly one node of the plan below it. -/
theorem exists_planChildren_or {i c : ℕ} (hor : (g.getNode i).type = .or)
    (hc : c ∈ (g.getNode i).children) (hs : (g.getNode c).solved = true) :
    ∃ d, d ∈ planChildren g i := by
  have hmem : c ∈ (g.getNode i).children.filter fun c ↦ (g.getNode c).solved :=
    List.mem_filter.2 ⟨hc, hs⟩
  unfold planChildren
  rw [hor]
  cases hl : (g.getNode i).children.filter fun c ↦ (g.getNode c).solved with
  | nil =>
    rw [hl] at hmem
    exact absurd hmem List.not_mem_nil
  | cons d l => exact ⟨d, List.mem_cons_self ..⟩

theorem mem_planChildren_and {i c : ℕ} (hand : (g.getNode i).type = .and)
    (hc : c ∈ (g.getNode i).children) (hs : (g.getNode c).solved = true) :
    c ∈ planChildren g i := by
  unfold planChildren
  rw [hand]
  exact List.mem_filter.2 ⟨hc, hs⟩

/-! ### Termination -/

/-- Weight of the nodes on the stack. -/
def stackWeight (g : Graph) (stack : List ℕ) : ℕ :=
  (stack.map fun i ↦ 2 ^ (g.nodes.length - i)).sum

/-- Distinct nodes younger than `i` weigh less than `i`. -/
theorem stackWeight_lt {i : ℕ} {nodes : List ℕ} (hnodup : nodes.Nodup)
    (hlt : ∀ c ∈ nodes, i < c ∧ c < g.nodes.length) :
    stackWeight g nodes < 2 ^ (g.nodes.length - i) := by
  have hinj : ∀ c ∈ nodes, ∀ d ∈ nodes, g.nodes.length - c = g.nodes.length - d → c = d := by
    intro c hc d hd he
    have hcl := (hlt c hc).2
    have hdl := (hlt d hd).2
    omega
  have hsum : stackWeight g nodes =
      ∑ k ∈ (nodes.map fun c ↦ g.nodes.length - c).toFinset, 2 ^ k := by
    rw [List.sum_toFinset _ (hnodup.map_on hinj), List.map_map]
    rfl
  rw [hsum]
  refine Nat.geomSum_lt le_rfl fun k hk ↦ ?_
  obtain ⟨c, hc, rfl⟩ := List.mem_map.1 (List.mem_toFinset.1 hk)
  have hcl := hlt c hc
  omega

/-! ### The walk -/

theorem addEntryFor_of_and {policy : Policy} {c : ℕ} (hand : (g.getNode c).type = .and) :
    addEntryFor g policy c = policy.addPolicyEntry (planEntry g c).1 (planEntry g c).2 := by
  simp only [addEntryFor, hand, planEntry]

theorem mem_addEntryFor {policy : Policy} {c : ℕ} {entry : State × Action}
    (h : entry ∈ policy.policy) : entry ∈ (addEntryFor g policy c).policy := by
  unfold addEntryFor
  cases (g.getNode c).type with
  | or => exact h
  | and => exact List.mem_append_left _ h

theorem solved_addEntryFor (policy : Policy) (c : ℕ) :
    (addEntryFor g policy c).solved = policy.solved := by
  unfold addEntryFor
  cases (g.getNode c).type <;> rfl

theorem mem_of_mem_addEntryFor {policy : Policy} {c : ℕ} {entry : State × Action}
    (h : entry ∈ (addEntryFor g policy c).policy) :
    entry ∈ policy.policy ∨ ((g.getNode c).type = .and ∧ planEntry g c = entry) := by
  cases htype : (g.getNode c).type with
  | or =>
    simp only [addEntryFor, htype] at h
    exact Or.inl h
  | and =>
    rw [addEntryFor_of_and htype, Policy.addPolicyEntry, List.mem_append, List.mem_singleton] at h
    exact h.imp_right fun he ↦ ⟨rfl, he.symm⟩

/-- A node of the plan. -/
def OnPlan (g : Graph) (i : ℕ) : Prop := Relation.ReflTransGen (PlanStep g) g.root i

/-- The stack and the policy during the walk: an And node of the plan has its entry, or is below a
node of the stack, and there are no other entries. -/
structure Extracting (g : Graph) (st : List ℕ × Policy) : Prop where
  /-- The stack holds nodes. -/
  lt {i : ℕ} (hi : i ∈ st.1) : i < g.nodes.length
  /-- They are of the plan. -/
  onPlan {i : ℕ} (hi : i ∈ st.1) : OnPlan g i
  /-- The policy is solved. -/
  solved : st.2.solved = true
  /-- A node of the plan has its entry or is still to come. -/
  covered {c : ℕ} (hc : OnPlan g c) (hand : (g.getNode c).type = .and) :
    planEntry g c ∈ st.2.policy ∨ ∃ j ∈ st.1, Relation.ReflTransGen (PlanStep g) j c
  /-- An entry is that of a node of the plan. -/
  entries {e : State × Action} (he : e ∈ st.2.policy) :
    ∃ c, OnPlan g c ∧ (g.getNode c).type = .and ∧ planEntry g c = e

/-- **One node is popped**: it gets its entry, and what is below it is below a node pushed. -/
theorem Extracting.step (hexact : g.tree.Exact) {current : ℕ} {rest : List ℕ} {policy : Policy}
    (h : Extracting g (current :: rest, policy)) :
    Extracting g ((planChildren g current).reverse ++ rest, addEntryFor g policy current) where
  lt {i} hi := by
    rcases List.mem_append.1 hi with hi | hi
    · have hc := (planChildren_sublist g current).subset (List.mem_reverse.1 hi)
      exact (hexact.child_lt (h.lt (List.mem_cons_self ..)) hc).2
    · exact h.lt (List.mem_cons_of_mem _ hi)
  onPlan {i} hi := by
    rcases List.mem_append.1 hi with hi | hi
    · exact (h.onPlan (List.mem_cons_self ..)).tail (List.mem_reverse.1 hi)
    · exact h.onPlan (List.mem_cons_of_mem _ hi)
  solved := (solved_addEntryFor policy current).trans h.solved
  covered {c} hc hand := by
    rcases h.covered hc hand with hmem | ⟨j, hj, hjc⟩
    · exact Or.inl (mem_addEntryFor hmem)
    · rcases List.mem_cons.1 hj with rfl | hj
      · -- below the popped node: the node itself, or something below a node pushed
        rcases Relation.ReflTransGen.cases_head hjc with rfl | ⟨d, hd, hdc⟩
        · left
          rw [addEntryFor_of_and hand]
          exact List.mem_append_right _ (List.mem_singleton.2 rfl)
        · exact Or.inr ⟨d, List.mem_append_left _ (List.mem_reverse.2 hd), hdc⟩
      · exact Or.inr ⟨j, List.mem_append_right _ hj, hjc⟩
  entries {e} he := by
    rcases mem_of_mem_addEntryFor he with he | ⟨hand, he⟩
    · exact h.entries he
    · exact ⟨current, h.onPlan (List.mem_cons_self ..), hand, he⟩

/-- **The extraction** ends with a solved policy whose entries are those of the And nodes of the
plan. -/
theorem extractPolicy_spec (hl : g.Linked) (hexact : g.tree.Exact)
    (hroot : g.root < g.nodes.length) :
    ∃ policy, extractPolicy g = some policy ∧ policy.solved = true ∧
      ∀ e, e ∈ policy.policy ↔ ∃ c, OnPlan g c ∧ (g.getNode c).type = .and ∧ planEntry g c = e := by
  have hweight : stackWeight g [g.root] ≤ 2 ^ g.nodes.length := by
    rw [stackWeight, List.map_singleton, List.sum_singleton]
    exact Nat.pow_le_pow_right Nat.two_pos (Nat.sub_le _ _)
  have hstart : Extracting g ([g.root], ⟨true, []⟩) :=
    ⟨fun hi ↦ List.mem_singleton.1 hi ▸ hroot, fun hi ↦ List.mem_singleton.1 hi ▸ .refl, rfl,
      fun hc _ ↦ Or.inr ⟨g.root, List.mem_singleton.2 rfl, hc⟩, fun he ↦ absurd he List.not_mem_nil⟩
  refine @BoundedLoop.run_total _ _ (extractStep g) (Extracting g)
    (fun policy ↦ policy.solved = true ∧ ∀ e, e ∈ policy.policy ↔
      ∃ c, OnPlan g c ∧ (g.getNode c).type = .and ∧ planEntry g c = e)
    (fun st ↦ stackWeight g st.1) ?_ ?_ _ ([g.root], ⟨true, []⟩) hstart (Nat.lt_succ_of_le hweight)
  · rintro ⟨stack, policy⟩ st' hst hb
    cases stack with
    | nil => simp [extractStep] at hb
    | cons current rest =>
      obtain rfl := Sum.inl.inj hb
      refine ⟨hst.step hexact, ?_⟩
      have hsub := planChildren_sublist g current
      have hcur := hst.lt (List.mem_cons_self ..)
      -- the children are younger and distinct, so they weigh less than the node they replace
      have hlt : stackWeight g (planChildren g current) < 2 ^ (g.nodes.length - current) :=
        stackWeight_lt (hsub.nodup (hl.nodup_children hcur)) fun c hc ↦
          hexact.child_lt hcur (hsub.subset hc)
      simp only [stackWeight, List.map_append, List.map_reverse, List.sum_append,
        List.sum_reverse, List.map_cons, List.sum_cons] at hlt ⊢
      omega
  · rintro ⟨stack, policy⟩ r hst hb
    cases stack with
    | nil =>
      obtain rfl := Sum.inr.inj hb
      refine ⟨hst.solved, fun e ↦ ⟨hst.entries, ?_⟩⟩
      rintro ⟨c, hc, hand, rfl⟩
      rcases hst.covered hc hand with hmem | ⟨j, hj, -⟩
      · exact hmem
      · exact absurd hj List.not_mem_nil
    | cons current rest => simp [extractStep] at hb

end Del
