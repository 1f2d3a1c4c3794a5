import R2DTU.Planner.Graph
import Mathlib.Data.List.GetD

/-!
# Propagating a verdict

`Graph.tree` reads a graph as an `AndOr.MarkedTree`. A propagation changes marks and nothing else
(`Graph.SameSkeleton`), and takes an exact tree to an exact tree: marking a node excuses its parent,
each round of the climb either moves the excuse one node up or drops it, and the root has no parent.
The climb ends because parents are older than their children (`Graph.Linked`).

`propogate_spec` is the one lemma the search uses: from an exact tree and an unmarked leaf, the
propagation ends in an exact tree in which, apart from that leaf, only inner nodes have new marks.
-/

namespace Del

open AndOr (Mark MarkedTree)

namespace Node

@[simp] theorem isMarked_setMark (n : Node) (m m' : Mark) :
    (n.setMark m).isMarked m' = (n.isMarked m' || decide (m' = m)) := by
  cases m <;> cases m' <;> simp [setMark, isMarked]

/-- The node without its marks. -/
def unmark (n : Node) : Node := { n with dead := false, solved := false }

@[simp] theorem unmark_setMark (n : Node) (m : Mark) : (n.setMark m).unmark = n.unmark := by
  cases m <;> rfl

end Node

namespace Graph

variable {g g' : Graph}

/-! ### Reading nodes -/

theorem getNode_modifyNode (g : Graph) (f : Node → Node) (i j : ℕ) (hi : i < g.nodes.length) :
    (g.modifyNode i f).getNode j = if j = i then f (g.getNode i) else g.getNode j := by
  simp only [getNode, modifyNode, List.getD_eq_getElem?_getD, List.getElem?_modify]
  by_cases hj : j = i
  · subst hj
    simp [hi]
  · simp [hj, Ne.symm hj]

@[simp] theorem length_modifyNode (g : Graph) (f : Node → Node) (i : ℕ) :
    (g.modifyNode i f).nodes.length = g.nodes.length := by
  simp [modifyNode]

/-- The graph as a marked tree. -/
def tree (g : Graph) : MarkedTree State where
  size := g.nodes.length
  isAnd := fun i ↦ (g.getNode i).type = .and
  state := fun i ↦ (g.getNode i).state
  children := fun i ↦ (g.getNode i).children
  marked := fun m i ↦ (g.getNode i).isMarked m = true

/-- Setting a mark in the graph is setting it in the tree. -/
theorem tree_modifyNode_setMark {n : ℕ} (hn : n < g.nodes.length) (m : Mark) :
    (g.modifyNode n (·.setMark m)).tree = g.tree.setMark m n := by
  have hnode : ∀ i, (g.modifyNode n (·.setMark m)).getNode i =
      if i = n then (g.getNode n).setMark m else g.getNode i :=
    fun i ↦ getNode_modifyNode g _ n i hn
  have hfield : ∀ {β : Type} (f : Node → β), (∀ node : Node, f (node.setMark m) = f node) →
      ∀ i, f ((g.modifyNode n (·.setMark m)).getNode i) = f (g.getNode i) := by
    intro β f hf i
    rw [hnode]
    split_ifs with hi
    · rw [hf, hi]
    · rfl
  simp only [tree, MarkedTree.setMark, MarkedTree.mk.injEq, length_modifyNode, true_and]
  refine ⟨funext fun i ↦ ?_, funext fun i ↦ ?_, funext fun i ↦ ?_, ?_⟩
  · rw [hfield Node.type (by cases m <;> exact fun _ ↦ rfl)]
  · rw [hfield Node.state (by cases m <;> exact fun _ ↦ rfl)]
  · rw [hfield Node.children (by cases m <;> exact fun _ ↦ rfl)]
  · funext m' i
    rw [hnode]
    split_ifs with hi
    · simp [hi]
    · simp [hi]

/-! ### What a propagation leaves alone -/

/-- The graphs differ in marks only. -/
structure SameSkeleton (g g' : Graph) : Prop where
  root_eq : g'.root = g.root
  frontier_eq : g'.frontier = g.frontier
  nodes_eq : g'.nodes.map Node.unmark = g.nodes.map Node.unmark

namespace SameSkeleton

theorem refl (g : Graph) : SameSkeleton g g := ⟨rfl, rfl, rfl⟩

theorem trans {g'' : Graph} (h : SameSkeleton g g') (h' : SameSkeleton g' g'') :
    SameSkeleton g g'' :=
  ⟨h'.root_eq.trans h.root_eq, h'.frontier_eq.trans h.frontier_eq, h'.nodes_eq.trans h.nodes_eq⟩

theorem setMark (g : Graph) (n : ℕ) (m : Mark) :
    SameSkeleton g (g.modifyNode n (·.setMark m)) := by
  refine ⟨rfl, rfl, List.ext_getElem? fun i ↦ ?_⟩
  simp only [modifyNode, List.getElem?_map, List.getElem?_modify, Option.map_eq_map,
    Option.map_map]
  refine congrArg (Option.map · g.nodes[i]?) (funext fun node ↦ ?_)
  show Node.unmark (if n = i then node.setMark m else node) = node.unmark
  split_ifs
  · exact Node.unmark_setMark node m
  · rfl

variable (h : SameSkeleton g g')

include h in
theorem length_eq : g'.nodes.length = g.nodes.length := by
  have hlen := congrArg List.length h.nodes_eq
  simpa using hlen

include h in
theorem unmark_getNode (i : ℕ) : (g'.getNode i).unmark = (g.getNode i).unmark := by
  have hi := congrArg (fun l ↦ l.getD i (outside.unmark)) h.nodes_eq
  simpa only [getNode, List.getD_map] using hi

include h in
/-- Every field but the marks is read alike. -/
theorem congr_getNode {β : Type} (f : Node → β) (hf : ∀ node : Node, f node.unmark = f node)
    (i : ℕ) : f (g'.getNode i) = f (g.getNode i) := by
  rw [← hf, h.unmark_getNode, hf]

include h in
theorem children_eq (i : ℕ) : (g'.getNode i).children = (g.getNode i).children :=
  h.congr_getNode Node.children (fun _ ↦ rfl) i

include h in
theorem parent_eq (i : ℕ) : (g'.getNode i).parent = (g.getNode i).parent :=
  h.congr_getNode Node.parent (fun _ ↦ rfl) i

include h in
theorem root_flag_eq (i : ℕ) : (g'.getNode i).root = (g.getNode i).root :=
  h.congr_getNode Node.root (fun _ ↦ rfl) i

include h in
theorem type_eq (i : ℕ) : (g'.getNode i).type = (g.getNode i).type :=
  h.congr_getNode Node.type (fun _ ↦ rfl) i

include h in
theorem state_eq (i : ℕ) : (g'.getNode i).state = (g.getNode i).state :=
  h.congr_getNode Node.state (fun _ ↦ rfl) i

include h in
theorem id_eq (i : ℕ) : (g'.getNode i).id = (g.getNode i).id :=
  h.congr_getNode Node.id (fun _ ↦ rfl) i

include h in
theorem action_eq (i : ℕ) : (g'.getNode i).actionFromParent = (g.getNode i).actionFromParent :=
  h.congr_getNode Node.actionFromParent (fun _ ↦ rfl) i

end SameSkeleton

/-- Node ids are indices, the root is node 0, and parents and children refer to each other. -/
structure Linked (g : Graph) : Prop where
  /-- An id is a place. -/
  id_eq {i : ℕ} (hi : i < g.nodes.length) : (g.getNode i).id = i
  /-- The first node is the root, and no other one. -/
  root_iff {i : ℕ} (hi : i < g.nodes.length) : (g.getNode i).root = true ↔ i = 0
  /-- A parent is older than its children. -/
  parent_lt {i : ℕ} (hi : i < g.nodes.length) (h0 : i ≠ 0) : (g.getNode i).parent < i
  /-- A node is among the children of its parent. -/
  mem_children_parent {i : ℕ} (hi : i < g.nodes.length) (h0 : i ≠ 0) :
    i ∈ (g.getNode (g.getNode i).parent).children
  /-- A child has this node as its parent. -/
  child {i c : ℕ} (hi : i < g.nodes.length) (hc : c ∈ (g.getNode i).children) :
    c ≠ 0 ∧ (g.getNode c).parent = i
  /-- No child is listed twice. -/
  nodup_children {i : ℕ} (hi : i < g.nodes.length) : (g.getNode i).children.Nodup

theorem Linked.sameSkeleton (h : g.Linked) (hs : SameSkeleton g g') : g'.Linked where
  id_eq hi := by
    rw [hs.id_eq]
    exact h.id_eq (hs.length_eq ▸ hi)
  root_iff hi := by
    rw [hs.root_flag_eq]
    exact h.root_iff (hs.length_eq ▸ hi)
  parent_lt hi h0 := by
    rw [hs.parent_eq]
    exact h.parent_lt (hs.length_eq ▸ hi) h0
  mem_children_parent hi h0 := by
    rw [hs.parent_eq, hs.children_eq]
    exact h.mem_children_parent (hs.length_eq ▸ hi) h0
  child hi hc := by
    rw [hs.children_eq] at hc
    rw [hs.parent_eq]
    exact h.child (hs.length_eq ▸ hi) hc
  nodup_children hi := by
    rw [hs.children_eq]
    exact h.nodup_children (hs.length_eq ▸ hi)

/-! ### The test of one node -/

/-- What the children say is what is due in the tree. -/
theorem due_iff {m : Mark} {p : ℕ} :
    (if (g.getNode p).needsAll m then
        (g.getNode p).children.all fun c ↦ (g.getNode c).isMarked m
      else (g.getNode p).children.any fun c ↦ (g.getNode c).isMarked m) = true ↔
      g.tree.Due m p := by
  have hneeds : (g.getNode p).needsAll m = true ↔ g.tree.NeedsAll m p := by
    cases m <;> cases htype : (g.getNode p).type <;>
      simp [Node.needsAll, MarkedTree.NeedsAll, tree, htype]
  by_cases hall : g.tree.NeedsAll m p
  · rw [if_pos (hneeds.2 hall), List.all_eq_true]
    exact ⟨fun h ↦ ⟨fun _ ↦ h, fun hna ↦ absurd hall hna⟩, fun h ↦ h.1 hall⟩
  · rw [if_neg fun h ↦ hall (hneeds.1 h), List.any_eq_true]
    exact ⟨fun h ↦ ⟨fun hna ↦ absurd hna hall, fun _ ↦ h⟩, fun h ↦ h.2 hall⟩

/-- What a propagation of `m` from `n` has changed so far: `m` is on more nodes, which are `n` or
inner nodes. -/
structure Marking (m : Mark) (n : ℕ) (g₀ g : Graph) : Prop where
  skeleton : SameSkeleton g₀ g
  marked_of_marked {m' : Mark} {i : ℕ} (h : g₀.tree.marked m' i) : g.tree.marked m' i
  new {m' : Mark} {i : ℕ} (h : g.tree.marked m' i) :
    g₀.tree.marked m' i ∨ (m' = m ∧ (i = n ∨ (g₀.getNode i).children ≠ []))
  marked : g.tree.marked m n

/-- A leaf gets no other mark than `m`, and only if it is `n`. -/
theorem Marking.cases_of_leaf {m m' : Mark} {n i : ℕ} {g₀ : Graph} (h : Marking m n g₀ g)
    (hleaf : (g₀.getNode i).children = []) (hm : g.tree.marked m' i) :
    g₀.tree.marked m' i ∨ (m' = m ∧ i = n) :=
  (h.new hm).imp_right fun hnew ↦ ⟨hnew.1, hnew.2.resolve_right (not_not_intro hleaf)⟩

/-- Marking an inner node is a step of a propagation. -/
theorem Marking.setMark {m : Mark} {n p : ℕ} {g₀ : Graph} (h : Marking m n g₀ g)
    (hp : p < g.nodes.length) (hne : (g.getNode p).children ≠ []) :
    Marking m n g₀ (g.modifyNode p (·.setMark m)) := by
  have htree := tree_modifyNode_setMark hp m
  refine ⟨h.skeleton.trans (.setMark g p m), fun hm ↦ ?_, fun {m' i} hm ↦ ?_, ?_⟩
  · rw [htree]
    exact Or.inl (h.marked_of_marked hm)
  · rw [htree] at hm
    rcases hm with hm | ⟨rfl, rfl⟩
    · exact h.new hm
    · rw [h.skeleton.children_eq] at hne
      exact Or.inr ⟨rfl, Or.inr hne⟩
  · rw [htree]
    exact Or.inl h.marked

/-- **One test.** With the tested node excused, a negative answer leaves the tree exact, and a
positive one moves the excuse to its parents. -/
theorem checkIf_spec {m : Mark} {n p : ℕ} {g₀ : Graph} (hm : Marking m n g₀ g)
    (hc : g.tree.Coherent fun m' i ↦ m' = m ∧ i = p) (hp : p < g.nodes.length)
    (hne : (g.getNode p).children ≠ []) :
    (checkIf m g p = (false, g) ∧ g.tree.Exact) ∨
      ∃ g', checkIf m g p = (true, g') ∧ Marking m n g₀ g' ∧ SameSkeleton g g' ∧
        g'.tree.Coherent fun m' i ↦ m' = m ∧ p ∈ (g.getNode i).children := by
  by_cases hmark : (g.getNode p).isMarked m = true
  · have heq : checkIf m g p = (true, g) := by simp only [checkIf, if_pos hmark]
    exact Or.inr ⟨g, heq, hm, .refl g, (hc.settle (Or.inl hmark)).excuse⟩
  by_cases hother : (g.getNode p).isMarked m.other = true
  · have heq : checkIf m g p = (false, g) := by simp only [checkIf, if_neg hmark, if_pos hother]
    exact Or.inl ⟨heq, hc.settle (Or.inr (hc.not_due_of_marked_other hp hne hother))⟩
  by_cases hdue : g.tree.Due m p
  · have heq : checkIf m g p = (true, g.modifyNode p (·.setMark m)) := by
      simp only [checkIf, if_neg hmark, if_neg hother, if_pos (due_iff.2 hdue)]
    have hcoh := hc.setMark (fun _ _ ↦ id) hother fun _ ↦ hdue
    rw [← tree_modifyNode_setMark hp m] at hcoh
    exact Or.inr ⟨_, heq, hm.setMark hp hne, .setMark g p m, hcoh⟩
  · have heq : checkIf m g p = (false, g) := by
      simp only [checkIf, if_neg hmark, if_neg hother, if_neg fun h ↦ hdue (due_iff.1 h)]
    exact Or.inl ⟨heq, hc.settle (Or.inr hdue)⟩

/-! ### The climb -/

theorem lt_length_of_mem_children {i c : ℕ} (hc : c ∈ (g.getNode i).children) :
    i < g.nodes.length := by
  by_contra hge
  rw [getNode, List.getD_eq_default _ _ (Nat.le_of_not_lt hge)] at hc
  exact List.not_mem_nil hc

/-- The nodes that have `n` as a child: the parent of `n`, and nobody when `n` is the root. -/
theorem Linked.eq_parent_of_mem_children (hl : g.Linked) {n i : ℕ}
    (hc : n ∈ (g.getNode i).children) : n ≠ 0 ∧ i = (g.getNode n).parent := by
  obtain ⟨h0, hp⟩ := hl.child (lt_length_of_mem_children hc) hc
  exact ⟨h0, hp.symm⟩

/-- The parent of a node other than the root is an inner node. -/
theorem Linked.parent_inner (hl : g.Linked) {n : ℕ} (hn : n < g.nodes.length) (h0 : n ≠ 0) :
    (g.getNode n).parent < g.nodes.length ∧
      (g.getNode (g.getNode n).parent).children ≠ [] :=
  ⟨(hl.parent_lt hn h0).trans hn, List.ne_nil_of_mem (hl.mem_children_parent hn h0)⟩

/-- Fewer nodes are excused when the excuse has been moved to the parents of `n`. -/
theorem Linked.excuse_parent (hl : g.Linked) {m : Mark} {n : ℕ} {T : MarkedTree State}
    (h : T.Coherent fun m' i ↦ m' = m ∧ n ∈ (g.getNode i).children) :
    T.Coherent fun m' i ↦ m' = m ∧ i = (g.getNode n).parent :=
  { h with
    complete := fun hi hne he hd ↦ h.complete hi hne
      (fun hex ↦ he ⟨hex.1, (hl.eq_parent_of_mem_children hex.2).2⟩) hd }

/-- The root has no parent to excuse. -/
theorem Linked.exact_of_root (hl : g.Linked) {m : Mark} {T : MarkedTree State}
    (h : T.Coherent fun m' i ↦ m' = m ∧ 0 ∈ (g.getNode i).children) : T.Exact :=
  { h with
    complete := fun hi hne _ hd ↦ h.complete hi hne
      (fun hex ↦ (hl.eq_parent_of_mem_children hex.2).1 rfl) hd }

/-- **The climb** from an excused inner node ends in an exact tree. -/
theorem run_propogateStep_spec {m : Mark} {n p : ℕ} {g₀ : Graph} (hl : g₀.Linked)
    (hm : Marking m n g₀ g) (hc : g.tree.Coherent fun m' i ↦ m' = m ∧ i = p)
    (hp : p < g.nodes.length) (hne : (g.getNode p).children ≠ []) :
    ∃ g', BoundedLoop.run (propogateStep m) (g.nodes.length + 1) (g, p) = some g' ∧
      Marking m n g₀ g' ∧ g'.tree.Exact := by
  -- the one excuse climbs with the loop, and the measure is the id of the node it is at
  refine @BoundedLoop.run_total _ _ (propogateStep m)
    (fun st ↦ Marking m n g₀ st.1 ∧ (st.1.tree.Coherent fun m' i ↦ m' = m ∧ i = st.2) ∧
      st.2 < st.1.nodes.length ∧ (st.1.getNode st.2).children ≠ [])
    (fun g' ↦ Marking m n g₀ g' ∧ g'.tree.Exact) (fun st ↦ st.2) ?_ ?_ _ (g, p)
    ⟨hm, hc, hp, hne⟩ (by show p < g.nodes.length + 1; omega)
  · rintro ⟨g, p⟩ st' ⟨hm, hc, hp, hne⟩ hb
    simp only at hm hc hp hne
    have hlg := hl.sameSkeleton hm.skeleton
    rcases checkIf_spec hm hc hp hne with ⟨heq, -⟩ | ⟨g', heq, hm', hs, hc'⟩
    · simp [propogateStep, heq] at hb
    · -- the test succeeded below the root: the parent is tested next
      simp only [propogateStep, heq, if_true] at hb
      split_ifs at hb with hroot
      obtain rfl := Sum.inl.inj hb
      have h0 : p ≠ 0 := fun h0 ↦ by
        rw [hs.root_flag_eq] at hroot
        exact hroot ((hlg.root_iff hp).2 h0)
      obtain ⟨hlt, hinner⟩ := hlg.parent_inner hp h0
      simp only [hs.parent_eq, hs.children_eq, hs.length_eq]
      exact ⟨⟨hm', hlg.excuse_parent hc', hlt, hinner⟩, hlg.parent_lt hp h0⟩
  · rintro ⟨g, p⟩ r ⟨hm, hc, hp, hne⟩ hb
    simp only at hm hc hp hne
    have hlg := hl.sameSkeleton hm.skeleton
    rcases checkIf_spec hm hc hp hne with ⟨heq, hexact⟩ | ⟨g', heq, hm', hs, hc'⟩
    · -- the test failed, so nothing was due and the excuse was not needed
      simp only [propogateStep, heq, Bool.false_eq_true, if_false] at hb
      obtain rfl := Sum.inr.inj hb
      exact ⟨hm, hexact⟩
    · simp only [propogateStep, heq, if_true] at hb
      split_ifs at hb with hroot
      obtain rfl := Sum.inr.inj hb
      rw [hs.root_flag_eq, hlg.root_iff hp] at hroot
      subst hroot
      exact ⟨hm', hlg.exact_of_root hc'⟩

/-- **A propagation from an unmarked leaf** ends, keeps the tree exact and puts the mark on the leaf
and on inner nodes only. -/
theorem propogate_spec {n : ℕ} (m : Mark) (hl : g.Linked) (h : g.tree.Exact)
    (hn : n < g.nodes.length) (hleaf : (g.getNode n).children = []) (hu : g.tree.Unmarked n) :
    ∃ g', propogate m g n = some g' ∧ Marking m n g g' ∧ g'.tree.Exact := by
  have htree := tree_modifyNode_setMark hn m
  have hs := SameSkeleton.setMark g n m
  have hmark : Marking m n g (g.modifyNode n (·.setMark m)) := by
    refine ⟨hs, fun hm ↦ ?_, fun {m' i} hm ↦ ?_, ?_⟩
    · rw [htree]
      exact Or.inl hm
    · rw [htree] at hm
      exact hm.imp_right fun ⟨hmm, hin⟩ ↦ ⟨hmm, Or.inl hin⟩
    · rw [htree]
      exact Or.inr ⟨rfl, rfl⟩
  have hcoh := h.setMark (fun _ _ hf ↦ hf.elim) (hu m.other) fun hne ↦ absurd hleaf hne
  rw [← htree] at hcoh
  unfold propogate
  simp only [hs.root_flag_eq, hs.parent_eq]
  split_ifs with hroot
  · rw [hl.root_iff hn] at hroot
    subst hroot
    exact ⟨_, rfl, hmark, hl.exact_of_root hcoh⟩
  · have h0 : n ≠ 0 := fun h0 ↦ hroot ((hl.root_iff hn).2 h0)
    obtain ⟨hlt, hinner⟩ := hl.parent_inner hn h0
    refine run_propogateStep_spec hl hmark (hl.excuse_parent hcoh) ?_ ?_
    · rw [hs.length_eq]
      exact hlt
    · rw [hs.children_eq]
      exact hinner

end Graph

end Del
