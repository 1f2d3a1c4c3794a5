import R2DTU.Library.FairSearch
import R2DTU.Planner.Planner
import R2DTU.Planner.Propagation

/-!
# What expanding a node does to the graph

`expandAction` appends the And node of an action below the expanded node and the Or nodes of its
outcomes below that. `Graph.Expanded` says which nodes there are afterwards, and is all that later
proofs know about the two nested loops: old nodes keep every field, except that the expanded node
has one more child. `Graph.Grown` is the part of it that any number of actions keeps.
-/

namespace Del

open AndOr (MarkedTree)

namespace Graph

variable {g g' : Graph}

/-- A node appended below an old one, read back. -/
theorem getNode_append {parent : ℕ} (hp : parent < g.nodes.length) (node : Node) (i : ℕ) :
    (modifyNode { g with nodes := g.nodes ++ [node] } parent
      (·.addChild g.nodes.length)).getNode i =
      if i = g.nodes.length then node
      else if i = parent then (g.getNode parent).addChild g.nodes.length else g.getNode i := by
  have hlt : parent < ({ g with nodes := g.nodes ++ [node] } : Graph).nodes.length := by
    simp only [List.length_append, List.length_singleton]
    omega
  have hold : ∀ {j}, j ≠ g.nodes.length →
      ({ g with nodes := g.nodes ++ [node] } : Graph).getNode j = g.getNode j := by
    intro j hj
    rcases Nat.lt_or_ge j g.nodes.length with hlt | hge
    · simp [getNode, List.getElem?_append_left hlt]
    · have hout : (g.nodes ++ [node]).length ≤ j := by
        simp only [List.length_append, List.length_singleton]
        omega
      rw [getNode, getNode, List.getD_eq_default _ _ hout, List.getD_eq_default _ _ hge]
  rw [getNode_modifyNode _ _ _ _ hlt]
  by_cases hnew : i = g.nodes.length
  · subst hnew
    rw [if_neg (Nat.ne_of_gt hp), if_pos rfl]
    simp [getNode]
  · rw [if_neg hnew, hold hnew, hold (Nat.ne_of_lt hp)]

/-- The Or nodes of the outcomes `ts` have been appended below node `n`. -/
structure OutcomesAdded (g g' : Graph) (n : ℕ) (ts : List State) : Prop where
  root_eq : g'.root = g.root
  length_eq : g'.nodes.length = g.nodes.length + ts.length
  frontier_eq : g'.frontier = g.frontier ++ List.range' g.nodes.length ts.length
  old {i : ℕ} (hi : i < g.nodes.length) (hn : i ≠ n) : g'.getNode i = g.getNode i
  above : g'.getNode n =
    { g.getNode n with
      children := (g.getNode n).children ++ List.range' g.nodes.length ts.length }
  outcome {k : ℕ} {t : State} (h : ts[k]? = some t) :
    g'.getNode (g.nodes.length + k) = Node.ofOr t (g.nodes.length + k) n false

theorem outcomesAdded_foldl {n : ℕ} (hn : n < g.nodes.length) (ts : List State) :
    OutcomesAdded g (ts.foldl (addGlobalState n) g) n ts := by
  -- outcomes are appended one by one, so the induction takes them off the end
  induction ts using List.reverseRecOn with
  | nil => exact ⟨rfl, rfl, by simp, fun _ _ ↦ rfl, by simp, fun h ↦ by simp at h⟩
  | append_singleton ts t ih =>
    rw [List.foldl_append, List.foldl_cons, List.foldl_nil]
    have hlen := ih.length_eq
    have hn' : n < (ts.foldl (addGlobalState n) g).nodes.length := by omega
    have hnode : ∀ i, (addGlobalState n (ts.foldl (addGlobalState n) g) t).getNode i = _ :=
      getNode_append hn' (Node.ofOr t _ n false)
    rw [hlen] at hnode
    refine ⟨ih.root_eq, ?_, ?_, fun {i} hi hin ↦ ?_, ?_, fun {k t'} hk ↦ ?_⟩
    · simp only [addGlobalState, addToFrontier, createOrNode, length_modifyNode,
        List.length_append, List.length_singleton, hlen]
      omega
    · show (ts.foldl (addGlobalState n) g).frontier ++
        [(ts.foldl (addGlobalState n) g).nodes.length] = _
      rw [ih.frontier_eq, hlen, List.length_append, List.length_singleton, List.range'_concat,
        List.append_assoc, Nat.one_mul]
    · rw [hnode, if_neg (by omega), if_neg hin]
      exact ih.old hi hin
    · rw [hnode, if_neg (by omega), if_pos rfl, ih.above, List.length_append, List.length_singleton,
        List.range'_concat, Nat.one_mul]
      simp only [Node.addChild, List.append_assoc]
    · have hk' := (List.getElem?_eq_some_iff.1 hk).1
      rw [List.length_append, List.length_singleton] at hk'
      rw [hnode]
      rcases Nat.lt_or_ge k ts.length with hlt | hge
      · rw [List.getElem?_append_left hlt] at hk
        rw [if_neg (by omega), if_neg (by omega)]
        exact ih.outcome hk
      · obtain rfl : k = ts.length := by omega
        rw [List.getElem?_append_right le_rfl, Nat.sub_self, List.getElem?_cons_zero] at hk
        rw [if_pos rfl, Option.some.inj hk]

/-- The And node of `a` and the Or nodes of its outcomes have been appended below `current`. -/
structure Expanded (g g' : Graph) (current : ℕ) (a : Action) (product : State) : Prop where
  root_eq : g'.root = g.root
  length_eq : g'.nodes.length =
    g.nodes.length + 1 + (splitIntoGlobalStates product a.owner).length
  frontier_eq : g'.frontier = g.frontier ++
    List.range' (g.nodes.length + 1) (splitIntoGlobalStates product a.owner).length
  old {i : ℕ} (hi : i < g.nodes.length) (hn : i ≠ current) : g'.getNode i = g.getNode i
  current_eq : g'.getNode current = (g.getNode current).addChild g.nodes.length
  action_eq : g'.getNode g.nodes.length =
    { Node.ofAnd product g.nodes.length current a false with
      children :=
        List.range' (g.nodes.length + 1) (splitIntoGlobalStates product a.owner).length }
  outcome {k : ℕ} {t : State} (h : (splitIntoGlobalStates product a.owner)[k]? = some t) :
    g'.getNode (g.nodes.length + 1 + k) =
      Node.ofOr t (g.nodes.length + 1 + k) g.nodes.length false

theorem expanded_expandAction {order : HashOrder} {current : ℕ} {a : Action} {product : State}
    {found : Bool} (hc : current < g.nodes.length)
    (h : applyAction order (g.getNode current).state a = some product) :
    ∃ g', expandAction order current (g, found) a = (g', true) ∧
      Expanded g g' current a product := by
  have hnode : ∀ i, (g.createAndNode product current a).1.getNode i = _ :=
    getNode_append hc (Node.ofAnd product _ current a false)
  have hlen : (g.createAndNode product current a).1.nodes.length = g.nodes.length + 1 := by
    simp [createAndNode, modifyNode]
  have hadd := outcomesAdded_foldl (show g.nodes.length < _ by rw [hlen]; omega)
    (splitIntoGlobalStates product a.owner)
  refine ⟨_, by simp only [expandAction, h]; rfl, hadd.root_eq, ?_, ?_, fun {i} hi hn ↦ ?_, ?_, ?_,
    fun {k t} hk ↦ ?_⟩
  · rw [← hlen]
    exact hadd.length_eq
  · rw [← hlen]
    exact hadd.frontier_eq
  · refine (hadd.old (by omega) (by omega)).trans ?_
    rw [hnode, if_neg (by omega), if_neg hn]
  · refine (hadd.old (by omega) (by omega)).trans ?_
    rw [hnode, if_neg (by omega), if_pos rfl]
  · refine hadd.above.trans ?_
    rw [hnode, if_pos rfl, hlen]
    rfl
  · rw [← hlen]
    exact hadd.outcome hk

namespace Expanded

variable {current : ℕ} {a : Action} {product : State} (h : Expanded g g' current a product)

include h in
/-- Old nodes keep every field that a new child does not change. -/
theorem congr_old {β : Type} (f : Node → β) (hf : ∀ (n : Node) (c : ℕ), f (n.addChild c) = f n)
    {i : ℕ} (hi : i < g.nodes.length) : f (g'.getNode i) = f (g.getNode i) := by
  by_cases hn : i = current
  · rw [hn, h.current_eq, hf]
  · rw [h.old hi hn]

include h in
/-- A node is old, the And node of the action, or the Or node of one of its outcomes. -/
theorem cases {i : ℕ} (hi : i < g'.nodes.length) :
    i < g.nodes.length ∨ i = g.nodes.length ∨
      ∃ k t, i = g.nodes.length + 1 + k ∧
        (splitIntoGlobalStates product a.owner)[k]? = some t := by
  rw [h.length_eq] at hi
  rcases Nat.lt_trichotomy i g.nodes.length with hlt | heq | hgt
  · exact Or.inl hlt
  · exact Or.inr (Or.inl heq)
  · obtain ⟨k, rfl⟩ := Nat.exists_eq_add_of_le (show g.nodes.length + 1 ≤ i from hgt)
    exact Or.inr (Or.inr ⟨k, _, rfl, List.getElem?_eq_getElem (by omega)⟩)

include h in
/-- The outcomes are the nodes after the And node. -/
theorem outcome_of_mem_range {c : ℕ}
    (hc : c ∈ List.range' (g.nodes.length + 1) (splitIntoGlobalStates product a.owner).length) :
    ∃ k t, c = g.nodes.length + 1 + k ∧ c < g'.nodes.length ∧
      (splitIntoGlobalStates product a.owner)[k]? = some t := by
  obtain ⟨hle, hlt⟩ := List.mem_range'_1.1 hc
  obtain ⟨k, rfl⟩ := Nat.exists_eq_add_of_le hle
  refine ⟨k, _, rfl, ?_, List.getElem?_eq_getElem (by omega)⟩
  rw [h.length_eq]
  exact hlt

include h in
theorem children_old {i : ℕ} (hi : i < g.nodes.length) (hn : i ≠ current) :
    (g'.getNode i).children = (g.getNode i).children := by
  rw [h.old hi hn]

include h in
theorem children_current :
    (g'.getNode current).children = (g.getNode current).children ++ [g.nodes.length] := by
  rw [h.current_eq]
  rfl

include h in
theorem children_action : (g'.getNode g.nodes.length).children =
    List.range' (g.nodes.length + 1) (splitIntoGlobalStates product a.owner).length := by
  rw [h.action_eq]

include h in
theorem children_outcome {k : ℕ} {t : State}
    (hk : (splitIntoGlobalStates product a.owner)[k]? = some t) :
    (g'.getNode (g.nodes.length + 1 + k)).children = [] := by
  rw [h.outcome hk]
  rfl

include h in
/-- Old children stay. -/
theorem mem_children_of_old {i c : ℕ} (hc : c ∈ (g.getNode i).children) :
    c ∈ (g'.getNode i).children := by
  by_cases hn : i = current
  · rw [hn] at hc ⊢
    rw [h.children_current]
    exact List.mem_append_left _ hc
  · rwa [h.children_old (lt_length_of_mem_children hc) hn]

include h in
/-- A child is an old one, the And node below the expanded node, or an outcome below the And
node. -/
theorem cases_of_child {i c : ℕ} (hc : c ∈ (g'.getNode i).children) :
    c ∈ (g.getNode i).children ∨ (i = current ∧ c = g.nodes.length) ∨
      i = g.nodes.length ∧ ∃ k t, c = g.nodes.length + 1 + k ∧ c < g'.nodes.length ∧
        (splitIntoGlobalStates product a.owner)[k]? = some t := by
  rcases h.cases (lt_length_of_mem_children hc) with hi | rfl | ⟨k, t, rfl, hk⟩
  · by_cases hn : i = current
    · rw [hn, h.children_current, List.mem_append, List.mem_singleton] at hc
      rw [hn]
      exact hc.imp_right fun heq ↦ Or.inl ⟨rfl, heq⟩
    · rw [h.children_old hi hn] at hc
      exact Or.inl hc
  · rw [h.children_action] at hc
    exact Or.inr (Or.inr ⟨rfl, h.outcome_of_mem_range hc⟩)
  · rw [h.children_outcome hk] at hc
    exact absurd hc List.not_mem_nil

include h in
theorem isMarked_old {i : ℕ} (hi : i < g.nodes.length) (m : AndOr.Mark) :
    g'.tree.marked m i ↔ g.tree.marked m i := by
  show (g'.getNode i).isMarked m = true ↔ (g.getNode i).isMarked m = true
  rw [h.congr_old (Node.isMarked · m) (by cases m <;> exact fun _ _ ↦ rfl) hi]

include h in
theorem state_old {i : ℕ} (hi : i < g.nodes.length) :
    (g'.getNode i).state = (g.getNode i).state :=
  h.congr_old Node.state (fun _ _ ↦ rfl) hi

include h in
theorem type_old {i : ℕ} (hi : i < g.nodes.length) : (g'.getNode i).type = (g.getNode i).type :=
  h.congr_old Node.type (fun _ _ ↦ rfl) hi

include h in
theorem unmarked_old {i : ℕ} (hi : i < g.nodes.length) :
    g'.tree.Unmarked i ↔ g.tree.Unmarked i :=
  forall_congr' fun m ↦ not_congr (h.isMarked_old hi m)

include h in
/-- The new nodes have no marks. -/
theorem unmarked_new {i : ℕ} (hi : g.nodes.length ≤ i) : g'.tree.Unmarked i := by
  intro m
  show ¬ (g'.getNode i).isMarked m = true
  rcases Nat.lt_or_ge i g'.nodes.length with hlt | hge
  · rcases h.cases hlt with hold | rfl | ⟨k, t, rfl, hk⟩
    · omega
    · rw [h.action_eq]
      cases m <;> exact Bool.false_ne_true
    · rw [h.outcome hk]
      cases m <;> exact Bool.false_ne_true
  · rw [getNode, List.getD_eq_default _ _ hge]
    cases m <;> exact Bool.false_ne_true

include h in
theorem lt_of_marked {i : ℕ} {m : AndOr.Mark} (hm : g'.tree.marked m i) : i < g.nodes.length :=
  Nat.lt_of_not_le fun hi ↦ h.unmarked_new hi m hm

include h in
/-- The expanded node is the only old node with new children, and it is no leaf any more. -/
theorem leaf_old {i : ℕ} (hi : i < g.nodes.length) (hnil : (g'.getNode i).children = []) :
    i ≠ current ∧ (g.getNode i).children = [] := by
  have hn : i ≠ current := by
    rintro rfl
    rw [h.children_current] at hnil
    exact List.append_ne_nil_of_right_ne_nil _ (List.cons_ne_nil _ _) hnil
  rw [h.children_old hi hn] at hnil
  exact ⟨hn, hnil⟩

include h in
/-- An Or node is old or an outcome. -/
theorem cases_of_or {i : ℕ} (hi : i < g'.nodes.length) (hor : (g'.getNode i).type = .or) :
    i < g.nodes.length ∨ ∃ k t, i = g.nodes.length + 1 + k ∧
      (splitIntoGlobalStates product a.owner)[k]? = some t := by
  refine (h.cases hi).imp_right fun hnew ↦ hnew.resolve_left ?_
  rintro rfl
  rw [h.action_eq] at hor
  exact NodeType.noConfusion hor

include h in
/-- The children of the And node have the global states of the product. -/
theorem states_outcomes :
    (g'.getNode g.nodes.length).children.map (fun c ↦ (g'.getNode c).state) =
      splitIntoGlobalStates product a.owner := by
  rw [h.children_action]
  refine List.ext_getElem? fun k ↦ ?_
  rcases hk : (splitIntoGlobalStates product a.owner)[k]? with _ | t
  · rw [List.getElem?_eq_none_iff] at hk ⊢
    simpa using hk
  · have hlt := (List.getElem?_eq_some_iff.1 hk).1
    rw [List.getElem?_map, List.getElem?_range' hlt, Option.map_some, Nat.one_mul, h.outcome hk]
    rfl

include h in
/-- The new nodes are linked like the old ones. -/
theorem linked (hl : g.Linked) (hc : current < g.nodes.length)
    (hlt : ∀ {i c}, c ∈ (g.getNode i).children → c < g.nodes.length) : g'.Linked := by
  have hparent : ∀ {i}, i < g.nodes.length → (g'.getNode i).parent = (g.getNode i).parent :=
    h.congr_old Node.parent fun _ _ ↦ rfl
  refine ⟨fun {i} hi ↦ ?_, fun {i} hi ↦ ?_, fun {i} hi h0 ↦ ?_, fun {i} hi h0 ↦ ?_,
    fun {i c} hi hmemc ↦ ?_, fun {i} hi ↦ ?_⟩
  · rcases h.cases hi with hold | rfl | ⟨k, t, rfl, hk⟩
    · rw [h.congr_old Node.id (fun _ _ ↦ rfl) hold]
      exact hl.id_eq hold
    · rw [h.action_eq]
      rfl
    · rw [h.outcome hk]
      rfl
  · rcases h.cases hi with hold | rfl | ⟨k, t, rfl, hk⟩
    · rw [h.congr_old Node.root (fun _ _ ↦ rfl) hold]
      exact hl.root_iff hold
    · rw [h.action_eq]
      simp only [Node.ofAnd, Bool.false_eq_true, false_iff]
      omega
    · rw [h.outcome hk]
      simp only [Node.ofOr, Bool.false_eq_true, false_iff]
      omega
  · rcases h.cases hi with hold | rfl | ⟨k, t, rfl, hk⟩
    · rw [hparent hold]
      exact hl.parent_lt hold h0
    · rw [h.action_eq]
      exact hc
    · rw [h.outcome hk]
      show g.nodes.length < g.nodes.length + 1 + k
      omega
  · rcases h.cases hi with hold | rfl | ⟨k, t, rfl, hk⟩
    · rw [hparent hold]
      exact h.mem_children_of_old (hl.mem_children_parent hold h0)
    · rw [h.action_eq]
      show g.nodes.length ∈ (g'.getNode current).children
      rw [h.children_current]
      exact List.mem_append_right _ (List.mem_singleton.2 rfl)
    · rw [h.outcome hk]
      show g.nodes.length + 1 + k ∈ (g'.getNode g.nodes.length).children
      rw [h.children_action]
      exact List.mem_range'_1.2 ⟨by omega, by have := (List.getElem?_eq_some_iff.1 hk).1; omega⟩
  · -- parents and children refer to each other
    rcases h.cases_of_child hmemc with hm | ⟨rfl, rfl⟩ | ⟨rfl, k, t, rfl, -, hk⟩
    · rw [hparent (hlt hm)]
      exact hl.child (lt_length_of_mem_children hm) hm
    · rw [h.action_eq]
      exact ⟨by omega, rfl⟩
    · rw [h.outcome hk]
      exact ⟨by omega, rfl⟩
  · rcases h.cases hi with hi | rfl | ⟨k, t, rfl, hk⟩
    · by_cases hn : i = current
      · subst hn
        rw [h.children_current, List.nodup_append]
        refine ⟨hl.nodup_children hi, List.nodup_singleton _, fun c hm d hd he ↦ ?_⟩
        rw [List.mem_singleton.1 hd] at he
        exact Nat.ne_of_lt (hlt hm) he
      · rw [h.children_old hi hn]
        exact hl.nodup_children hi
    · rw [h.children_action]
      exact List.nodup_range'
    · rw [h.children_outcome hk]
      exact List.nodup_nil

include h in
/-- The new nodes grow the tree below the expanded node. -/
theorem grows (hexact : g.tree.Exact) (hc : current < g.nodes.length)
    (hor : (g.getNode current).type = .or) (hu : g.tree.Unmarked current)
    (hchildren : ∀ c ∈ (g.getNode current).children, g.tree.Unmarked c)
    (hne : splitIntoGlobalStates product a.owner ≠ []) :
    MarkedTree.Grows g.tree g'.tree current := by
  have hand : (g'.getNode g.nodes.length).type = .and := by
    rw [h.action_eq]
    rfl
  have hout : ∀ {k t}, (splitIntoGlobalStates product a.owner)[k]? = some t →
      (g'.getNode (g.nodes.length + 1 + k)).type = .or := by
    intro k t hk
    rw [h.outcome hk]
    rfl
  have hlength := h.length_eq
  refine ⟨?_, fun {i} hi ↦ ?_, fun {i} hi m ↦ h.isMarked_old hi m,
    fun {i} hi hn ↦ h.children_old hi hn, ?_, fun {i} hi ↦ ?_, fun {i c} hi hlt hmem ↦ ?_,
    fun {i} hi hlt hisAnd ↦ ?_⟩
  · show g.nodes.length ≤ g'.nodes.length
    omega
  · show (g'.getNode i).type = .and ↔ (g.getNode i).type = .and
    rw [h.type_old hi]
  · show ¬ (g.getNode current).type = .and
    rw [hor]
    exact NodeType.noConfusion
  · rcases hi with rfl | hi
    · exact fun m hm ↦ hu m ((h.isMarked_old hc m).1 hm)
    · exact h.unmarked_new hi
  · show g'.tree.Unmarked c ∧ i < c ∧ c < g'.nodes.length ∧
      ((g'.getNode c).type = .and ↔ ¬ (g'.getNode i).type = .and)
    rcases h.cases_of_child hmem with hm | ⟨rfl, rfl⟩ | ⟨rfl, k, t, rfl, hcs, hk⟩
    · -- an old child of an old node, which is the expanded one
      have hlt := lt_length_of_mem_children hm
      obtain rfl : i = current := hi.resolve_right (Nat.not_le_of_lt hlt)
      obtain ⟨hic, hcs⟩ := hexact.child_lt hc hm
      change c < g.nodes.length at hcs
      rw [h.type_old hcs, h.type_old hc]
      exact ⟨(h.unmarked_old hcs).2 (hchildren c hm), hic, by omega, hexact.child_isAnd hc hm⟩
    · refine ⟨h.unmarked_new le_rfl, hc, by omega, ?_⟩
      rw [hand, h.type_old hc, hor]
      simp
    · refine ⟨h.unmarked_new (by omega), by omega, hcs, ?_⟩
      rw [hand, hout hk]
      simp
  · change g.nodes.length ≤ i at hi
    change (g'.getNode i).type = .and at hisAnd
    show (g'.getNode i).children ≠ []
    rcases h.cases hlt with hold | rfl | ⟨k, t, rfl, hk⟩
    · omega
    · rw [h.children_action, ne_eq, List.range'_eq_nil_iff, List.length_eq_zero_iff]
      exact hne
    · rw [hout hk] at hisAnd
      exact NodeType.noConfusion hisAnd

end Expanded

/-! ### Any number of actions -/

/-- Nodes have been appended below `current`, and nothing else has changed. -/
structure Grown (g g' : Graph) (current : ℕ) : Prop where
  root_eq : g'.root = g.root
  length_le : g.nodes.length ≤ g'.nodes.length
  frontier_eq : ∃ new, g'.frontier = g.frontier ++ new
  old {i : ℕ} (hi : i < g.nodes.length) (hn : i ≠ current) : g'.getNode i = g.getNode i
  current_eq : ∃ new, g'.getNode current =
    { g.getNode current with children := (g.getNode current).children ++ new }

theorem Grown.refl (g : Graph) (current : ℕ) : Grown g g current :=
  ⟨rfl, le_rfl, ⟨[], by simp⟩, fun _ _ ↦ rfl, ⟨[], by simp⟩⟩

theorem Grown.trans {g'' : Graph} {current : ℕ} (h : Grown g g' current)
    (h' : Grown g' g'' current) : Grown g g'' current where
  root_eq := h'.root_eq.trans h.root_eq
  length_le := h.length_le.trans h'.length_le
  frontier_eq := by
    obtain ⟨new, hnew⟩ := h.frontier_eq
    obtain ⟨new', hnew'⟩ := h'.frontier_eq
    exact ⟨new ++ new', by rw [hnew', hnew, List.append_assoc]⟩
  old hi hn := (h'.old (hi.trans_le h.length_le) hn).trans (h.old hi hn)
  current_eq := by
    obtain ⟨new, hnew⟩ := h.current_eq
    obtain ⟨new', hnew'⟩ := h'.current_eq
    exact ⟨new ++ new', by rw [hnew', hnew, List.append_assoc]⟩

theorem Expanded.grown {current : ℕ} {a : Action} {product : State}
    (h : Expanded g g' current a product) : Grown g g' current where
  root_eq := h.root_eq
  length_le := by
    rw [h.length_eq]
    omega
  frontier_eq := ⟨_, h.frontier_eq⟩
  old := h.old
  current_eq := ⟨_, h.current_eq⟩

/-- Expanding a leaf extends the tree. -/
theorem Grown.extends {current : ℕ} (h : Grown g g' current)
    (hleaf : (g.getNode current).children = []) : g.tree.Extends g'.tree := by
  have hfield : ∀ {β : Type} (f : Node → β),
      (∀ (n : Node) (l : List ℕ), f { n with children := l } = f n) →
      ∀ {i}, i < g.nodes.length → f (g'.getNode i) = f (g.getNode i) := by
    intro β f hf i hi
    by_cases hn : i = current
    · obtain ⟨new, hnew⟩ := h.current_eq
      rw [hn, hnew, hf]
    · rw [h.old hi hn]
  refine ⟨h.length_le, fun {i} hi ↦ ?_, fun {i} hi ↦ ?_, fun {i} hi hne ↦ ?_, fun {i m} hm ↦ ?_⟩
  · show (g'.getNode i).type = .and ↔ (g.getNode i).type = .and
    rw [hfield Node.type (fun _ _ ↦ rfl) hi]
  · exact hfield Node.state (fun _ _ ↦ rfl) hi
  · have hn : i ≠ current := by
      rintro rfl
      exact hne hleaf
    exact congrArg Node.children (h.old hi hn)
  · change (g.getNode i).isMarked m = true at hm
    have hi : i < g.nodes.length := by
      by_contra hge
      rw [getNode, List.getD_eq_default _ _ (Nat.le_of_not_lt hge)] at hm
      cases m <;> exact Bool.false_ne_true hm
    show (g'.getNode i).isMarked m = true
    rw [hfield (Node.isMarked · m) (by cases m <;> exact fun _ _ ↦ rfl) hi]
    exact hm

theorem grown_expandAction {order : HashOrder} {current : ℕ} (hc : current < g.nodes.length)
    (found : Bool) (a : Action) : Grown g (expandAction order current (g, found) a).1 current := by
  rcases ha : applyAction order (g.getNode current).state a with _ | product
  · have hskip : expandAction order current (g, found) a = (g, found) := by
      simp only [expandAction, ha]
    rw [hskip]
    exact .refl g current
  · obtain ⟨g', heq, he⟩ := @expanded_expandAction g order current a product found hc ha
    rw [heq]
    exact he.grown

/-- The loop over a library only appends. -/
theorem grown_foldl {order : HashOrder} {current : ℕ} (actions : List Action) (st : Graph × Bool)
    (hc : current < st.1.nodes.length) :
    Grown st.1 (actions.foldl (expandAction order current) st).1 current := by
  induction actions generalizing st with
  | nil => exact .refl _ _
  | cons a actions ih =>
    have hstep := @grown_expandAction st.1 order current hc st.2 a
    exact hstep.trans (ih _ (hc.trans_le hstep.length_le))

end Graph

end Del
