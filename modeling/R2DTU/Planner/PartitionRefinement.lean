import R2DTU.Planner.Bisimulation
import Mathlib.Data.Fintype.Card

/-!
# What the in-place refinement keeps and where it stops

The refinement of `Bisimulation` is followed step by step, with three invariants.

* `Partition.Covers n pending`: the blocks are non-empty and hold exactly the worlds below `n`, each
  in the block `worldToBlock` names, apart from the `pending` worlds, which have been erased from
  their block and not yet been given a new one.
* `Partition.Pure S`: the worlds of a block are alike in the sense `S`, which the first partition
  establishes and splitting keeps.
* `Partition.Respects R`: related worlds are in one block. It survives although `worldToBlock` is
  half updated when the later comparisons are made, because every comparison is made against a
  partition that respects `R` at that moment: related worlds are then moved or kept together.

A pass either changes nothing, and then every block is uniform (`Partition.Uniform`), or makes at
least one more block. Non-empty disjoint blocks are at most as many as worlds, so the loop stops
within one pass more than there are worlds (`partitionIntoRelationsBlocks_spec`).
-/

namespace Del

/-! ### Sets of blocks -/

theorem mem_unique {x : ℕ} {l : List ℕ} : x ∈ unique l ↔ x ∈ l := by
  induction l using unique.induct with
  | case1 => simp [unique]
  | case2 a => simp [unique]
  | case3 b l ih => simp [unique, ih]
  | case4 a b l hne ih => simp [unique, hne, ih]

/-- On a sorted list `unique` leaves a strictly increasing one. -/
theorem pairwise_lt_unique {l : List ℕ} (h : l.Pairwise (· ≤ ·)) : (unique l).Pairwise (· < ·) := by
  induction l using unique.induct with
  | case1 => simp [unique]
  | case2 a => simp [unique]
  | case3 b l ih =>
    rw [unique, if_pos rfl]
    exact ih h.of_cons
  | case4 a b l hne ih =>
    rw [unique, if_neg hne]
    refine List.pairwise_cons.2 ⟨fun x hx ↦ ?_, ih h.of_cons⟩
    rw [mem_unique] at hx
    obtain ⟨ha, htail⟩ := List.pairwise_cons.1 h
    have hab : a ≤ b := ha b (List.mem_cons_self ..)
    rcases List.mem_cons.1 hx with rfl | hx
    · omega
    · have hbx := (List.pairwise_cons.1 htail).1 x hx
      omega

theorem mem_blockSet {f : ℕ → ℕ} {l : List ℕ} {x : ℕ} :
    x ∈ blockSet f l ↔ ∃ y ∈ l, f y = x := by
  rw [blockSet, mem_unique, List.mem_insertionSort, List.mem_map]

/-- The comparison of sorted vectors is the comparison of sets. -/
theorem blockSet_eq_of_mem_iff {f : ℕ → ℕ} {l l' : List ℕ}
    (h : ∀ x, (∃ y ∈ l, f y = x) ↔ ∃ y ∈ l', f y = x) : blockSet f l = blockSet f l' := by
  have hsorted : ∀ l : List ℕ, (blockSet f l).Pairwise (· < ·) := fun l ↦
    pairwise_lt_unique (List.pairwise_insertionSort _ _)
  refine (hsorted l).eq_of_mem_iff (hsorted l') fun x ↦ ?_
  rw [mem_blockSet, mem_blockSet]
  exact h x

section Differs

variable {rel : List (ℕ → List ℕ)} {f : ℕ → ℕ}

theorem differs_eq_false_iff {u v : ℕ} :
    differs rel f u v = false ↔ ∀ succ ∈ rel, blockSet f (succ u) = blockSet f (succ v) := by
  simp [differs, areRelationsEqual]

theorem differs_self (u : ℕ) : differs rel f u u = false :=
  differs_eq_false_iff.2 fun _ _ ↦ rfl

/-- Worlds that do not differ from each other compare alike with every third world. -/
theorem differs_congr {base u v : ℕ} (h : differs rel f u v = false) :
    differs rel f base u = differs rel f base v := by
  rw [differs_eq_false_iff] at h
  rw [Bool.eq_iff_iff, ← not_iff_not, Bool.not_eq_true, Bool.not_eq_true, differs_eq_false_iff,
    differs_eq_false_iff]
  exact forall₂_congr fun succ hs ↦ by rw [h succ hs]

end Differs

/-! ### The invariants -/

namespace Partition

/-- The `b`-th block. -/
def block (p : Partition) (b : ℕ) : List ℕ := p.blocks.getD b []

/-- The blocks partition the worlds below `n`, except for the pending ones. -/
structure Covers (p : Partition) (n : ℕ) (pending : List ℕ) : Prop where
  /-- Blocks have worlds below `n` only. -/
  lt_of_mem {b w : ℕ} (h : w ∈ p.block b) : w < n
  /-- A world knows its block. -/
  worldToBlock_eq {b w : ℕ} (h : w ∈ p.block b) : p.worldToBlock w = b
  /-- A world is in the block it knows, unless it is pending. -/
  mem_block {w : ℕ} (hw : w < n) (hp : w ∉ pending) : w ∈ p.block (p.worldToBlock w)
  /-- No block is empty. -/
  block_ne_nil {b : ℕ} (hb : b < p.blocks.length) : p.block b ≠ []
  /-- Pending worlds are below `n`. -/
  pending_lt {w : ℕ} (h : w ∈ pending) : w < n
  /-- Pending worlds are in no block. -/
  pending_not_mem {b w : ℕ} (h : w ∈ pending) : w ∉ p.block b

/-- Related worlds are in one block. -/
def Respects (p : Partition) (R : ℕ → ℕ → Prop) : Prop :=
  ∀ {u v : ℕ}, R u v → p.worldToBlock u = p.worldToBlock v

/-- The worlds of a block are alike. -/
def Pure (p : Partition) (S : ℕ → ℕ → Prop) : Prop :=
  ∀ {b u v : ℕ}, u ∈ p.block b → v ∈ p.block b → S u v

/-- No block has a world that differs from its first one. -/
def Uniform (p : Partition) (rel : List (ℕ → List ℕ)) (b : ℕ) : Prop :=
  ∀ base ∈ (p.block b).head?, ∀ w ∈ p.block b, differs rel p.worldToBlock base w = false

theorem block_of_length_le {p : Partition} {b : ℕ} (h : p.blocks.length ≤ b) : p.block b = [] :=
  List.getD_eq_default _ _ h

theorem lt_length_of_mem_block {p : Partition} {b w : ℕ} (h : w ∈ p.block b) :
    b < p.blocks.length := by
  by_contra hge
  rw [block_of_length_le (Nat.le_of_not_lt hge)] at h
  exact List.not_mem_nil h

/-- **Fewer blocks than worlds**: the first worlds of the blocks are distinct. -/
theorem Covers.length_le {p : Partition} {n : ℕ} {pending : List ℕ} (h : p.Covers n pending) :
    p.blocks.length ≤ n := by
  have hhead : ∀ b : Fin p.blocks.length, ∃ w : Fin n, (w : ℕ) ∈ p.block b := by
    intro b
    obtain ⟨w, hw⟩ := List.exists_mem_of_ne_nil _ (h.block_ne_nil b.2)
    exact ⟨⟨w, h.lt_of_mem hw⟩, hw⟩
  choose first hfirst using hhead
  have hinj : Function.Injective first := by
    intro b c hbc
    have hb := h.worldToBlock_eq (hfirst b)
    rw [hbc, h.worldToBlock_eq (hfirst c)] at hb
    exact Fin.ext hb.symm
  simpa using Fintype.card_le_of_injective first hinj

theorem worldToBlock_addBlock (p : Partition) (block : List ℕ) (w : ℕ) :
    (p.addBlock block).worldToBlock w =
      if w ∈ block then p.blocks.length else p.worldToBlock w := by
  have hfold : ∀ (ws : List ℕ) (m : ℕ → ℕ),
      ws.foldl (fun m w ↦ Function.update m w p.blocks.length) m w =
        if w ∈ ws then p.blocks.length else m w := by
    intro ws
    induction ws with
    | nil => simp
    | cons x ws ih =>
      intro m
      rw [List.foldl_cons, ih]
      by_cases hx : w = x <;> by_cases hw : w ∈ ws <;> simp [hx, hw]
  exact hfold block p.worldToBlock

theorem block_addBlock_of_lt (p : Partition) (block : List ℕ) {b : ℕ} (hb : b < p.blocks.length) :
    (p.addBlock block).block b = p.block b := by
  simp [Partition.block, addBlock, List.getElem?_append_left hb]

theorem block_addBlock_length (p : Partition) (block : List ℕ) :
    (p.addBlock block).block p.blocks.length = block := by
  simp [Partition.block, addBlock]

theorem length_addBlock (p : Partition) (block : List ℕ) :
    (p.addBlock block).blocks.length = p.blocks.length + 1 := by
  simp [addBlock]

/-- A world of a block of the grown partition is in the new block or in the old block of the same
number. -/
theorem mem_block_addBlock {p : Partition} {block : List ℕ} {b w : ℕ}
    (h : w ∈ (p.addBlock block).block b) :
    (b = p.blocks.length ∧ w ∈ block) ∨ (b < p.blocks.length ∧ w ∈ p.block b) := by
  have hb := lt_length_of_mem_block h
  rw [length_addBlock] at hb
  rcases Nat.lt_or_ge b p.blocks.length with hlt | hge
  · rw [block_addBlock_of_lt p block hlt] at h
    exact Or.inr ⟨hlt, h⟩
  · obtain rfl : b = p.blocks.length := by omega
    rw [block_addBlock_length] at h
    exact Or.inl ⟨rfl, h⟩

/-- Giving some of the pending worlds a new block leaves the others pending. -/
theorem Covers.addBlock {p : Partition} {n : ℕ} {pending new rest : List ℕ}
    (h : p.Covers n pending) (hne : new ≠ [])
    (hsplit : ∀ w, w ∈ pending ↔ w ∈ new ∨ w ∈ rest) (hdisj : ∀ w ∈ new, w ∉ rest) :
    (p.addBlock new).Covers n rest where
  lt_of_mem {b w} hw := by
    rcases mem_block_addBlock hw with ⟨-, hw⟩ | ⟨-, hw⟩
    · exact h.pending_lt ((hsplit w).2 (Or.inl hw))
    · exact h.lt_of_mem hw
  worldToBlock_eq {b w} hw := by
    rw [worldToBlock_addBlock]
    rcases mem_block_addBlock hw with ⟨rfl, hnew⟩ | ⟨-, hw⟩
    · rw [if_pos hnew]
    · have hnew : w ∉ new := fun hn ↦ h.pending_not_mem ((hsplit w).2 (Or.inl hn)) hw
      rw [if_neg hnew]
      exact h.worldToBlock_eq hw
  mem_block {w} hw hp := by
    rw [worldToBlock_addBlock]
    by_cases hnew : w ∈ new
    · rw [if_pos hnew, block_addBlock_length]
      exact hnew
    · have hold := h.mem_block hw fun hpend ↦ ((hsplit w).1 hpend).elim hnew hp
      rw [if_neg hnew, block_addBlock_of_lt p new (lt_length_of_mem_block hold)]
      exact hold
  block_ne_nil {b} hb := by
    rw [length_addBlock] at hb
    rcases Nat.lt_or_ge b p.blocks.length with hlt | hge
    · rw [block_addBlock_of_lt p new hlt]
      exact h.block_ne_nil hlt
    · obtain rfl : b = p.blocks.length := by omega
      rw [block_addBlock_length]
      exact hne
  pending_lt {w} hw := h.pending_lt ((hsplit w).2 (Or.inr hw))
  pending_not_mem {b w} hw hmem := by
    rcases mem_block_addBlock hmem with ⟨-, hnew⟩ | ⟨-, hold⟩
    · exact hdisj w hnew hw
    · exact h.pending_not_mem ((hsplit w).2 (Or.inr hw)) hold

end Partition

/-! ### Moving worlds to new blocks -/

section Refinement

variable {rel : List (ℕ → List ℕ)} {n : ℕ} {R S : ℕ → ℕ → Prop}

/-- A relation on the worlds below `n` that no comparison against a respecting partition separates;
bisimulations are the relations meant. -/
structure Inseparable (rel : List (ℕ → List ℕ)) (n : ℕ) (R : ℕ → ℕ → Prop) : Prop where
  lt {u v : ℕ} (h : R u v) : u < n ∧ v < n
  same {f : ℕ → ℕ} (hf : ∀ {u v : ℕ}, R u v → f u = f v) {u v : ℕ} (h : R u v) :
    differs rel f u v = false

/-- A list of worlds that has both or neither of two related worlds. -/
def Saturated (R : ℕ → ℕ → Prop) (worlds : List ℕ) : Prop :=
  ∀ {u v : ℕ}, R u v → (u ∈ worlds ↔ v ∈ worlds)

/-- What a call of `moveWorldsToNewBlock` starts from. -/
structure Moving (n : ℕ) (R S : ℕ → ℕ → Prop) (p : Partition) (worlds : List ℕ) : Prop where
  covers : p.Covers n worlds
  pure : p.Pure S
  alike {u v : ℕ} (hu : u ∈ worlds) (hv : v ∈ worlds) : S u v
  respects : p.Respects R
  saturated : Saturated R worlds

/-- **One call**: the worlds like the first one get a block, and the others can be moved next. -/
theorem Moving.addBlock (hR : Inseparable rel n R) {p : Partition} {base : ℕ} {rest : List ℕ}
    (h : Moving n R S p (base :: rest)) :
    Moving n R S
      (p.addBlock (base :: rest.filter fun w ↦ !differs rel p.worldToBlock base w))
      (rest.filter fun w ↦ differs rel p.worldToBlock base w) := by
  -- membership in the two parts is membership in the moved worlds plus the outcome of the test
  have hsame : ∀ w, w ∈ base :: rest.filter (fun w ↦ !differs rel p.worldToBlock base w) ↔
      w ∈ base :: rest ∧ differs rel p.worldToBlock base w = false := by
    intro w
    by_cases hw : w = base
    · simp [hw, differs_self]
    · simp [hw]
  have hdiff : ∀ w, w ∈ rest.filter (fun w ↦ differs rel p.worldToBlock base w) ↔
      w ∈ base :: rest ∧ differs rel p.worldToBlock base w = true := by
    intro w
    by_cases hw : w = base
    · simp [hw, differs_self]
    · simp [hw]
  have htest : ∀ {u v : ℕ}, R u v →
      differs rel p.worldToBlock base u = differs rel p.worldToBlock base v :=
    fun huv ↦ differs_congr (hR.same h.respects huv)
  refine ⟨h.covers.addBlock (List.cons_ne_nil _ _) (fun w ↦ ?_) fun w hw hw' ↦ ?_,
    fun {b u v} hu hv ↦ ?_, fun hu hv ↦ h.alike ((hdiff _).1 hu).1 ((hdiff _).1 hv).1, ?_, ?_⟩
  · rw [hsame, hdiff]
    cases differs rel p.worldToBlock base w <;> simp
  · exact absurd ((hdiff w).1 hw').2 (by simp [((hsame w).1 hw).2])
  · rcases Partition.mem_block_addBlock hu with ⟨rfl, hnew⟩ | ⟨hb, hold⟩
    · rw [Partition.block_addBlock_length] at hv
      exact h.alike ((hsame u).1 hnew).1 ((hsame v).1 hv).1
    · rw [Partition.block_addBlock_of_lt _ _ hb] at hv
      exact h.pure hold hv
  · intro u v huv
    rw [Partition.worldToBlock_addBlock, Partition.worldToBlock_addBlock, h.respects huv]
    refine if_congr ?_ rfl rfl
    rw [hsame, hsame, h.saturated huv, htest huv]
  · intro u v huv
    rw [hdiff, hdiff, h.saturated huv, htest huv]

theorem moveWorldsToNewBlock_spec (hR : Inseparable rel n R) {p : Partition} {worlds : List ℕ}
    (h : Moving n R S p worlds) (hne : worlds ≠ []) :
    (moveWorldsToNewBlock rel p worlds).Covers n [] ∧ (moveWorldsToNewBlock rel p worlds).Pure S ∧
      (moveWorldsToNewBlock rel p worlds).Respects R ∧
        p.blocks.length < (moveWorldsToNewBlock rel p worlds).blocks.length := by
  refine @BoundedLoop.run_induct _ _ (moveWorldsToNewBlockStep rel)
    (fun st ↦ Moving n R S st.1 st.2 ∧ st.2 ≠ [] ∧ p.blocks.length ≤ st.1.blocks.length)
    (fun q ↦ q.Covers n [] ∧ q.Pure S ∧ q.Respects R ∧ p.blocks.length < q.blocks.length) ?_ ?_ _
    (p, worlds) _ ⟨h, hne, le_rfl⟩ (Option.some_get _).symm
  · rintro ⟨q, worlds⟩ st' ⟨hm, hne, hlen⟩ hb
    cases worlds with
    | nil => exact absurd rfl hne
    | cons base rest =>
      simp only [moveWorldsToNewBlockStep] at hb
      split_ifs at hb with hempty
      obtain rfl := Sum.inl.inj hb
      refine ⟨hm.addBlock hR, by simpa using hempty, ?_⟩
      rw [Partition.length_addBlock]
      exact Nat.le_succ_of_le hlen
  · rintro ⟨q, worlds⟩ r ⟨hm, hne, hlen⟩ hb
    cases worlds with
    | nil => exact absurd rfl hne
    | cons base rest =>
      simp only [moveWorldsToNewBlockStep] at hb
      split_ifs at hb with hempty
      obtain rfl := Sum.inr.inj hb
      have hm' := hm.addBlock hR
      rw [List.isEmpty_iff.1 hempty] at hm'
      refine ⟨hm'.covers, hm'.pure, hm'.respects, ?_⟩
      rw [Partition.length_addBlock]
      exact Nat.lt_succ_of_le hlen

/-! ### Splitting one block -/

theorem Partition.block_setBlock {p : Partition} {b : ℕ} (hb : b < p.blocks.length)
    (kept : List ℕ) (c : ℕ) :
    (p.setBlock b kept).block c = if c = b then kept else p.block c := by
  by_cases hcb : c = b
  · simp [Partition.block, Partition.setBlock, hcb, hb]
  · simp [Partition.block, Partition.setBlock, hcb, List.getElem?_set_ne (Ne.symm hcb)]

/-- Shrinking a block gives no block a new world. -/
theorem Partition.mem_of_mem_setBlock {p : Partition} {b c w : ℕ} {kept : List ℕ}
    (hb : b < p.blocks.length) (hsub : kept ⊆ p.block b) (h : w ∈ (p.setBlock b kept).block c) :
    w ∈ p.block c := by
  rw [Partition.block_setBlock hb] at h
  split_ifs at h with hcb
  · exact hcb ▸ hsub h
  · exact h

/-- Erasing some worlds of a block, but not all, makes them pending. -/
theorem Partition.Covers.erase {p : Partition} {b : ℕ} {kept moved : List ℕ}
    (h : p.Covers n []) (hb : b < p.blocks.length) (hne : kept ≠ [])
    (hsplit : ∀ w, w ∈ p.block b ↔ w ∈ kept ∨ w ∈ moved) (hdisj : ∀ w ∈ kept, w ∉ moved) :
    (p.setBlock b kept).Covers n moved := by
  have hblock := Partition.block_setBlock hb kept
  have hsub : ∀ {c w : ℕ}, w ∈ (p.setBlock b kept).block c → w ∈ p.block c :=
    Partition.mem_of_mem_setBlock hb fun w hw ↦ (hsplit w).2 (Or.inl hw)
  refine ⟨fun hw ↦ h.lt_of_mem (hsub hw), fun hw ↦ h.worldToBlock_eq (hsub hw),
    fun {w} hw hp ↦ ?_, fun {c} hc ↦ ?_, fun {w} hw ↦ h.lt_of_mem ((hsplit w).2 (Or.inr hw)),
    fun {c w} hw hmem ↦ ?_⟩
  · have hmem := h.mem_block hw List.not_mem_nil
    rw [hblock]
    split_ifs with hcb
    · change p.worldToBlock w = b at hcb
      rw [hcb] at hmem
      exact ((hsplit w).1 hmem).resolve_right hp
    · exact hmem
  · rw [hblock]
    split_ifs with hcb
    · exact hne
    · exact h.block_ne_nil (by simpa [Partition.setBlock] using hc)
  · have hcb : c = b := by
      rw [← h.worldToBlock_eq (hsub hmem), ← h.worldToBlock_eq ((hsplit w).2 (Or.inr hw))]
    rw [hblock, if_pos hcb] at hmem
    exact hdisj w hmem hw

/-- What holds of the partition and the change flag while a pass that started from `p₀` is under
way: blocks numbered below `k` have been visited. -/
structure Refining (rel : List (ℕ → List ℕ)) (n : ℕ) (R S : ℕ → ℕ → Prop) (p₀ : Partition) (k : ℕ)
    (st : Partition × Bool) : Prop where
  covers : st.1.Covers n []
  pure : st.1.Pure S
  respects : st.1.Respects R
  length_le : p₀.blocks.length ≤ st.1.blocks.length
  length_lt (h : st.2 = true) : p₀.blocks.length < st.1.blocks.length
  unchanged (h : st.2 = false) : st.1 = p₀
  uniform (h : st.2 = false) {b : ℕ} (hb : b < k) : p₀.Uniform rel b

/-- The worlds that differ from the first one of their block can be taken out of it: two related
worlds are in one block, and pass or fail the test together. -/
theorem moving_setBlock (hR : Inseparable rel n R) {p : Partition} (hcov : p.Covers n [])
    (hpure : p.Pure S) (hresp : p.Respects R) {k base : ℕ} {rest : List ℕ}
    (hblock : p.block k = base :: rest) :
    Moving n R S
      (p.setBlock k ((base :: rest).filter fun w ↦ !differs rel p.worldToBlock base w))
      ((base :: rest).filter fun w ↦ differs rel p.worldToBlock base w) := by
  have hk : k < p.blocks.length := by
    by_contra hge
    rw [Partition.block_of_length_le (Nat.le_of_not_lt hge)] at hblock
    exact List.cons_ne_nil _ _ hblock.symm
  refine ⟨hcov.erase hk ?_ (fun w ↦ ?_) fun w hw hw' ↦ ?_, fun {b u v} hu hv ↦ ?_,
    fun {u v} hu hv ↦ ?_, hresp, fun {u v} huv ↦ ?_⟩
  · refine List.ne_nil_of_mem (a := base) ?_
    simp [differs_self]
  · rw [hblock, List.mem_filter, List.mem_filter]
    cases differs rel p.worldToBlock base w <;> simp
  · rw [List.mem_filter] at hw hw'
    simp [hw'.2] at hw
  · have hsub : (base :: rest).filter (fun w ↦ !differs rel p.worldToBlock base w) ⊆
        p.block k := by
      rw [hblock]
      exact List.filter_subset_self _
    exact hpure (Partition.mem_of_mem_setBlock hk hsub hu)
      (Partition.mem_of_mem_setBlock hk hsub hv)
  · exact hpure (hblock ▸ List.mem_of_mem_filter hu) (hblock ▸ List.mem_of_mem_filter hv)
  · have hmem : ∀ {u v : ℕ}, p.worldToBlock u = p.worldToBlock v → v < n →
        u ∈ p.block k → v ∈ p.block k := by
      intro u v he hv hu
      have hv' := hcov.mem_block hv List.not_mem_nil
      rwa [← he, hcov.worldToBlock_eq hu] at hv'
    have hiff : u ∈ base :: rest ↔ v ∈ base :: rest := by
      rw [← hblock]
      exact ⟨hmem (hresp huv) (hR.lt huv).2, hmem (hresp huv).symm (hR.lt huv).1⟩
    rw [List.mem_filter, List.mem_filter, hiff, differs_congr (hR.same hresp huv)]

/-- **One block**: either the pass is still quiet and the block is uniform, or there is a new block
and related worlds are still together. -/
theorem Refining.splitBlock (hR : Inseparable rel n R) {p₀ : Partition} {k : ℕ}
    {st : Partition × Bool} (h : Refining rel n R S p₀ k st) :
    Refining rel n R S p₀ (k + 1) (splitBlock rel st k) := by
  obtain ⟨p, changed⟩ := st
  obtain ⟨hcov, hpure, hresp, hle, hlt, hunch, hunif⟩ := h
  -- a quiet visit of block `k` settles its uniformity
  have hquiet : (changed = false → p₀.Uniform rel k) →
      Refining rel n R S p₀ (k + 1) (p, changed) := fun hk ↦
    ⟨hcov, hpure, hresp, hle, hlt, hunch, fun hc b hb ↦ by
      rcases Nat.lt_or_ge b k with hbk | hbk
      · exact hunif hc hbk
      · obtain rfl : b = k := by omega
        exact hk hc⟩
  have hcase : p.blocks.getD k [] = p.block k := rfl
  unfold Del.splitBlock
  rw [hcase]
  cases hblock : p.block k with
  | nil =>
    refine hquiet fun hc ↦ ?_
    obtain rfl : p = p₀ := hunch hc
    intro base hbase
    simp [hblock] at hbase
  | cons base rest =>
    simp only
    split_ifs with hempty
    · refine hquiet fun hc ↦ ?_
      obtain rfl : p = p₀ := hunch hc
      intro base' hbase' w hw
      rw [hblock, List.head?_cons, Option.mem_some_iff] at hbase'
      subst hbase'
      have hnone := List.filter_eq_nil_iff.1 (List.isEmpty_iff.1 hempty) w (hblock ▸ hw)
      simpa using hnone
    · obtain ⟨hcov', hpure', hresp', hgrow⟩ := moveWorldsToNewBlock_spec hR
        (moving_setBlock hR hcov hpure hresp hblock) (by simpa using hempty)
      rw [show (p.setBlock k _).blocks.length = p.blocks.length from List.length_set] at hgrow
      exact ⟨hcov', hpure', hresp', hle.trans hgrow.le, fun _ ↦ hle.trans_lt hgrow,
        by simp, by simp⟩

/-! ### Passes -/

theorem refining_refinePass (hR : Inseparable rel n R) {p : Partition} (hcov : p.Covers n [])
    (hpure : p.Pure S) (hresp : p.Respects R) :
    Refining rel n R S p p.blocks.length (refinePass rel p) := by
  have hfold : ∀ k, Refining rel n R S p k ((List.range k).foldl (splitBlock rel) (p, false)) := by
    intro k
    induction k with
    | zero =>
      exact ⟨hcov, hpure, hresp, le_rfl, by simp, fun _ ↦ rfl,
        fun _ b hb ↦ absurd hb (Nat.not_lt_zero b)⟩
    | succ k ih =>
      rw [List.range_succ, List.foldl_append]
      exact ih.splitBlock hR
  exact hfold p.blocks.length

/-- **The refinement stops**, within one pass more than there are worlds, at a partition into
uniform blocks that has separated no related worlds. -/
theorem partitionIntoRelationsBlocks_spec (hR : Inseparable rel n R) {p : Partition}
    (hcov : p.Covers n []) (hpure : p.Pure S) (hresp : p.Respects R) :
    ∃ q, partitionIntoRelationsBlocks rel (n + 1) p = some q ∧ q.Covers n [] ∧ q.Pure S ∧
      q.Respects R ∧ ∀ b, q.Uniform rel b := by
  refine @BoundedLoop.run_total _ _ (refineStep rel)
    (fun p ↦ p.Covers n [] ∧ p.Pure S ∧ p.Respects R)
    (fun q ↦ q.Covers n [] ∧ q.Pure S ∧ q.Respects R ∧ ∀ b, q.Uniform rel b)
    (fun p ↦ n - p.blocks.length) ?_ ?_ _ p ⟨hcov, hpure, hresp⟩ (by omega)
  · rintro p p' ⟨hcov, hpure, hresp⟩ hb
    have hpass := refining_refinePass hR hcov hpure hresp
    unfold refineStep at hb
    split_ifs at hb with hchanged
    obtain rfl := Sum.inl.inj hb
    have hgrow := hpass.length_lt hchanged
    have hbound := hpass.covers.length_le
    exact ⟨⟨hpass.covers, hpass.pure, hpass.respects⟩, by omega⟩
  · rintro p q ⟨hcov, hpure, hresp⟩ hb
    have hpass := refining_refinePass hR hcov hpure hresp
    unfold refineStep at hb
    split_ifs at hb with hchanged
    obtain rfl := Sum.inr.inj hb
    have hq : (refinePass rel p).2 = false := by simpa using hchanged
    have hsame := hpass.unchanged hq
    refine ⟨hpass.covers, hpass.pure, hpass.respects, fun b ↦ ?_⟩
    rw [hsame]
    rcases Nat.lt_or_ge b p.blocks.length with hlt | hge
    · exact hpass.uniform hq hlt
    · intro base hbase
      rw [Partition.block_of_length_le hge] at hbase
      simp at hbase

end Refinement

end Del
