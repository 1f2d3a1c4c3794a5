import R2DTU.Library.Kripke
import R2DTU.Planner.PartitionRefinement

/-!
# What the bisimilarity check decides

The states are read as Kripke models (`State.model`), with the valuation of a world passed through a
function of its propositions: the identity, or the key the check compares. World `u` of the first
state is merged world `u`, and world `v` of the second is merged world `s₁.worlds.length + v`.

* A bisimulation of the two models is inseparable for the merged relations (`inseparable_merged`),
  so the refinement keeps its worlds together and the final labelling meets
  (`Kripke.Label.Respects.meets`).
* The uniform blocks of the final partition are a stable labelling (`stable_label`), so when they
  are balanced the models are bisimilar (`Kripke.Label.Stable.bisimilar`).

`isBisimilar` is `isBisimilar?` with its termination discharged.
-/

namespace Del

/-- A state as a Kripke model over the agents. Valuations are compared through `val`. -/
def State.model {V : Type} (s : State) (val : Finset String → V) : Kripke.Model ℕ ℕ V where
  worlds := {w | w < s.worlds.length}
  rel := fun agent u v ↦ ⟨u, v⟩ ∈ s.getIndistinguishabilityRelations agent
  val := fun w ↦ val (s.getWorld w).truePropositions
  designated := {w | w ∈ s.designatedWorlds}

/-! ### The first partition -/

section FirstPartition

variable {order : HashOrder} {ctx : BisimulationContext}

theorem nodup_valuationKeys : (ctx.valuationKeys order).Nodup := by
  rw [BisimulationContext.valuationKeys, (order.keys_perm _).nodup_iff, List.nodup_reverse]
  exact List.nodup_dedup _

theorem mem_valuationKeys {k : String} :
    k ∈ ctx.valuationKeys order ↔ ∃ w < ctx.worlds.length, ctx.key w = k := by
  rw [BisimulationContext.valuationKeys, (order.keys_perm _).mem_iff, List.mem_reverse,
    List.mem_dedup, List.mem_reverse]
  simp

/-- The worlds of the `b`-th block are those whose key is the `b`-th one. -/
theorem mem_block_partitionIntoValuationBlocks {b w : ℕ} :
    w ∈ (partitionIntoValuationBlocks order ctx).block b ↔
      w < ctx.worlds.length ∧ (ctx.valuationKeys order)[b]? = some (ctx.key w) := by
  rw [Partition.block, partitionIntoValuationBlocks, List.getD_eq_getElem?_getD, List.getElem?_map]
  cases hb : (ctx.valuationKeys order)[b]? with
  | none => simp
  | some k => simp [eq_comm]

theorem covers_partitionIntoValuationBlocks :
    (partitionIntoValuationBlocks order ctx).Covers ctx.worlds.length [] where
  lt_of_mem h := (mem_block_partitionIntoValuationBlocks.1 h).1
  worldToBlock_eq {b w} h := by
    obtain ⟨hw, hb⟩ := mem_block_partitionIntoValuationBlocks.1 h
    obtain ⟨hlt, hget⟩ := List.getElem?_eq_some_iff.1 hb
    simp only [partitionIntoValuationBlocks, if_pos hw]
    rw [← hget]
    exact nodup_valuationKeys.idxOf_getElem b hlt
  mem_block {w} hw _ := by
    refine mem_block_partitionIntoValuationBlocks.2 ⟨hw, ?_⟩
    simp only [partitionIntoValuationBlocks, if_pos hw]
    exact List.getElem?_idxOf (mem_valuationKeys.2 ⟨w, hw, rfl⟩)
  block_ne_nil {b} hb := by
    have hb' : b < (ctx.valuationKeys order).length := by
      simpa [partitionIntoValuationBlocks] using hb
    obtain ⟨w, hw, hkey⟩ := mem_valuationKeys.1 (List.getElem_mem hb')
    refine List.ne_nil_of_mem (a := w) (mem_block_partitionIntoValuationBlocks.2 ⟨hw, ?_⟩)
    rw [hkey]
    exact List.getElem?_eq_getElem hb'
  pending_lt h := absurd h List.not_mem_nil
  pending_not_mem h := absurd h List.not_mem_nil

/-- Worlds of one block of the first partition have one key. -/
theorem pure_partitionIntoValuationBlocks :
    (partitionIntoValuationBlocks order ctx).Pure fun u v ↦ ctx.key u = ctx.key v := by
  intro b u v hu hv
  have hu' := (mem_block_partitionIntoValuationBlocks.1 hu).2
  have hv' := (mem_block_partitionIntoValuationBlocks.1 hv).2
  exact Option.some.inj (hu'.symm.trans hv')

/-- Worlds with one key are in one block of the first partition. -/
theorem respects_partitionIntoValuationBlocks {R : ℕ → ℕ → Prop}
    (hlt : ∀ {u v}, R u v → u < ctx.worlds.length ∧ v < ctx.worlds.length)
    (hkey : ∀ {u v}, R u v → ctx.key u = ctx.key v) :
    (partitionIntoValuationBlocks order ctx).Respects R := by
  intro u v huv
  simp only [partitionIntoValuationBlocks, if_pos (hlt huv).1, if_pos (hlt huv).2, hkey huv]

end FirstPartition

/-! ### Uniform blocks -/

/-- In a partition into uniform blocks, worlds of one block lead to the same blocks. -/
theorem Partition.Covers.differs_eq_false {rel : List (ℕ → List ℕ)} {n : ℕ} {p : Partition}
    (hcov : p.Covers n []) (hunif : ∀ b, p.Uniform rel b) {u v : ℕ} (hu : u < n) (hv : v < n)
    (h : p.worldToBlock u = p.worldToBlock v) : differs rel p.worldToBlock u v = false := by
  have hmu := hcov.mem_block hu List.not_mem_nil
  have hmv := hcov.mem_block hv List.not_mem_nil
  rw [← h] at hmv
  obtain ⟨base, hbase⟩ : ∃ base, base ∈ (p.block (p.worldToBlock u)).head? := by
    cases hb : p.block (p.worldToBlock u) with
    | nil => rw [hb] at hmu; exact absurd hmu List.not_mem_nil
    | cons base rest => exact ⟨base, rfl⟩
  have hu' := differs_eq_false_iff.1 (hunif _ base hbase u hmu)
  have hv' := differs_eq_false_iff.1 (hunif _ base hbase v hmv)
  exact differs_eq_false_iff.2 fun succ hs ↦ (hu' succ hs).symm.trans (hv' succ hs)

/-! ### Merged worlds -/

/-- When world `k` has id `k`, the renumbering adds the offset. -/
theorem oldToNewWorld_eq {worlds : List World} (offset : ℕ)
    (hid : ∀ {k : ℕ} {w : World}, worlds[k]? = some w → w.id = k) {k : ℕ}
    (hk : k < worlds.length) : oldToNewWorld worlds offset k = offset + k := by
  -- the map is filled from the front, so the induction takes worlds off the end
  induction worlds using List.reverseRecOn with
  | nil => exact absurd hk (Nat.not_lt_zero k)
  | append_singleton worlds w ih =>
    have hlast : w.id = worlds.length := hid (by simp)
    have hinit : ∀ {k : ℕ} {w' : World}, worlds[k]? = some w' → w'.id = k := fun {k w'} h ↦
      hid (by rwa [List.getElem?_append_left (List.getElem?_eq_some_iff.1 h).1])
    have hstep : oldToNewWorld (worlds ++ [w]) offset =
        Function.update (oldToNewWorld worlds offset) w.id (offset + worlds.length) := by
      simp [oldToNewWorld, List.zipIdx_append]
    rw [hstep, hlast]
    rcases Nat.lt_or_ge k worlds.length with hlt | hge
    · rw [Function.update_of_ne (Nat.ne_of_lt hlt)]
      exact ih hinit hlt
    · obtain rfl : k = worlds.length := by
        rw [List.length_append, List.length_singleton] at hk
        omega
      rw [Function.update_self]

section Merged

variable {s₁ s₂ : State}

theorem length_worlds_create :
    (BisimulationContext.create s₁ s₂).worlds.length = s₁.worlds.length + s₂.worlds.length := by
  simp [BisimulationContext.create]

theorem key_create_left {u : ℕ} (hu : u < s₁.worlds.length) :
    (BisimulationContext.create s₁ s₂).key u =
      convertPropositionsToString (s₁.getWorld u).truePropositions := by
  simp only [BisimulationContext.key, BisimulationContext.create, State.getWorld,
    List.getD_eq_getElem?_getD, List.getElem?_mapIdx, List.getElem?_append_left hu,
    List.getElem?_eq_getElem hu, Option.map_some, Option.getD_some]

theorem key_create_right {v : ℕ} (hv : v < s₂.worlds.length) :
    (BisimulationContext.create s₁ s₂).key (s₁.worlds.length + v) =
      convertPropositionsToString (s₂.getWorld v).truePropositions := by
  simp only [BisimulationContext.key, BisimulationContext.create, State.getWorld,
    List.getD_eq_getElem?_getD, List.getElem?_mapIdx,
    List.getElem?_append_right (Nat.le_add_right _ _), Nat.add_sub_cancel_left,
    List.getElem?_eq_getElem hv, Option.map_some, Option.getD_some]

variable (h₁ : s₁.WellFormed) (h₂ : s₂.WellFormed)

include h₁ in
theorem oldToNewWorld_left {u : ℕ} (hu : u < s₁.worlds.length) :
    oldToNewWorld s₁.worlds 0 u = u := by
  rw [oldToNewWorld_eq 0 h₁.id_eq hu, Nat.zero_add]

include h₂ in
theorem oldToNewWorld_right {v : ℕ} (hv : v < s₂.worlds.length) :
    oldToNewWorld s₂.worlds s₁.worlds.length v = s₁.worlds.length + v :=
  oldToNewWorld_eq _ h₂.id_eq hv

include h₁ h₂ in
theorem isWorldDesignated_create_left {u : ℕ} (hu : u < s₁.worlds.length) :
    (BisimulationContext.create s₁ s₂).isWorldDesignated u = true ↔ u ∈ s₁.designatedWorlds := by
  simp only [BisimulationContext.create, Bool.or_eq_true, List.any_eq_true, beq_iff_eq]
  constructor
  · rintro (⟨d, hd, he⟩ | ⟨d, hd, he⟩)
    · rw [oldToNewWorld_left h₁ (h₁.designated_lt hd)] at he
      exact he ▸ hd
    · rw [oldToNewWorld_right h₂ (h₂.designated_lt hd)] at he
      omega
  · exact fun hd ↦ Or.inl ⟨u, hd, oldToNewWorld_left h₁ hu⟩

include h₁ h₂ in
theorem isWorldDesignated_create_right {v : ℕ} (hv : v < s₂.worlds.length) :
    (BisimulationContext.create s₁ s₂).isWorldDesignated (s₁.worlds.length + v) = true ↔
      v ∈ s₂.designatedWorlds := by
  simp only [BisimulationContext.create, Bool.or_eq_true, List.any_eq_true, beq_iff_eq]
  constructor
  · rintro (⟨d, hd, he⟩ | ⟨d, hd, he⟩)
    · have hlt := h₁.designated_lt hd
      rw [oldToNewWorld_left h₁ hlt] at he
      omega
    · rw [oldToNewWorld_right h₂ (h₂.designated_lt hd)] at he
      obtain rfl : d = v := by omega
      exact hd
  · exact fun hd ↦ Or.inr ⟨v, hd, oldToNewWorld_right h₂ hv⟩

/-- The merged successors of an agent. -/
def mergedSuccessors (s₁ s₂ : State) (agent : ℕ) : ℕ → List ℕ :=
  successorsIn
    (renumber (oldToNewWorld s₁.worlds 0) (s₁.getIndistinguishabilityRelations agent) ++
      renumber (oldToNewWorld s₂.worlds s₁.worlds.length)
        (s₂.getIndistinguishabilityRelations agent))

theorem mem_indistinguishabilityRelation_create {succ : ℕ → List ℕ} :
    succ ∈ (BisimulationContext.create s₁ s₂).indistinguishabilityRelation ↔
      ∃ agent < s₁.numberOfAgents, mergedSuccessors s₁ s₂ agent = succ := by
  simp [BisimulationContext.create, mergedSuccessors]

theorem mem_mergedSuccessors {agent x y : ℕ} :
    y ∈ mergedSuccessors s₁ s₂ agent x ↔
      (∃ r ∈ s₁.getIndistinguishabilityRelations agent, oldToNewWorld s₁.worlds 0 r.worldFrom = x ∧
          oldToNewWorld s₁.worlds 0 r.worldTo = y) ∨
        ∃ r ∈ s₂.getIndistinguishabilityRelations agent,
          oldToNewWorld s₂.worlds s₁.worlds.length r.worldFrom = x ∧
            oldToNewWorld s₂.worlds s₁.worlds.length r.worldTo = y := by
  simp [mergedSuccessors, mem_successorsIn, renumber]

include h₁ h₂ in
theorem mem_mergedSuccessors_left {agent u y : ℕ} (hu : u < s₁.worlds.length) :
    y ∈ mergedSuccessors s₁ s₂ agent u ↔
      ⟨u, y⟩ ∈ s₁.getIndistinguishabilityRelations agent := by
  rw [mem_mergedSuccessors]
  constructor
  · rintro (⟨⟨a, b⟩, hr, ha, hb⟩ | ⟨⟨a, b⟩, hr, ha, -⟩)
    · obtain ⟨hla, hlb⟩ := h₁.relation_lt hr
      rw [oldToNewWorld_left h₁ hla] at ha
      rw [oldToNewWorld_left h₁ hlb] at hb
      exact ha ▸ hb ▸ hr
    · rw [oldToNewWorld_right h₂ (h₂.relation_lt hr).1] at ha
      simp only at ha
      omega
  · intro hr
    obtain ⟨hlu, hly⟩ := h₁.relation_lt hr
    exact Or.inl ⟨_, hr, oldToNewWorld_left h₁ hlu, oldToNewWorld_left h₁ hly⟩

include h₁ h₂ in
theorem mem_mergedSuccessors_right {agent v y : ℕ} :
    y ∈ mergedSuccessors s₁ s₂ agent (s₁.worlds.length + v) ↔
      ∃ v', ⟨v, v'⟩ ∈ s₂.getIndistinguishabilityRelations agent ∧
        s₁.worlds.length + v' = y := by
  rw [mem_mergedSuccessors]
  constructor
  · rintro (⟨⟨a, b⟩, hr, ha, -⟩ | ⟨⟨a, b⟩, hr, ha, hb⟩)
    · have hla := (h₁.relation_lt hr).1
      rw [oldToNewWorld_left h₁ hla] at ha
      simp only at ha hla
      omega
    · obtain ⟨hla, hlb⟩ := h₂.relation_lt hr
      rw [oldToNewWorld_right h₂ hla] at ha
      rw [oldToNewWorld_right h₂ hlb] at hb
      obtain rfl : a = v := by simp only at ha; omega
      exact ⟨b, hr, hb⟩
  · rintro ⟨v', hr, rfl⟩
    obtain ⟨hlv, hlv'⟩ := h₂.relation_lt hr
    exact Or.inr ⟨_, hr, oldToNewWorld_right h₂ hlv, oldToNewWorld_right h₂ hlv'⟩

/-! ### Bisimulations and the final partition -/

/-- A relation between the worlds of the two states, as a relation between merged worlds. -/
def merged (s₁ : State) (Z : ℕ → ℕ → Prop) (x y : ℕ) : Prop :=
  ∃ v, y = s₁.worlds.length + v ∧ Z x v

/-- The numbering of the final blocks, read as a labelling of the two states. -/
def Partition.label (p : Partition) (s₁ : State) : Kripke.Label ℕ ℕ where
  left := p.worldToBlock
  right := fun v ↦ p.worldToBlock (s₁.worlds.length + v)

variable {V : Type} {val : Finset String → V}

include h₁ h₂ in
/-- **No comparison separates bisimilar worlds**: forth and back give the two inclusions between
the sets of blocks. -/
theorem inseparable_merged {Z : ℕ → ℕ → Prop}
    (hZ : Kripke.IsBisimulation (s₁.model val) (s₂.model val) Z) :
    Inseparable (BisimulationContext.create s₁ s₂).indistinguishabilityRelation
      (s₁.worlds.length + s₂.worlds.length) (merged s₁ Z) where
  lt := by
    rintro x _ ⟨v, rfl, hz⟩
    obtain ⟨hx, hv⟩ := hZ.mem hz
    change x < s₁.worlds.length at hx
    change v < s₂.worlds.length at hv
    omega
  same {f} hf := by
    rintro x _ ⟨v, rfl, hz⟩
    obtain ⟨hx, -⟩ := hZ.mem hz
    refine differs_eq_false_iff.2 fun succ hs ↦ blockSet_eq_of_mem_iff fun b ↦ ?_
    obtain ⟨agent, -, rfl⟩ := mem_indistinguishabilityRelation_create.1 hs
    constructor
    · rintro ⟨x', hx', rfl⟩
      obtain ⟨v', hr, hz'⟩ := hZ.forth hz ((mem_mergedSuccessors_left h₁ h₂ hx).1 hx')
      exact ⟨_, (mem_mergedSuccessors_right h₁ h₂).2 ⟨v', hr, rfl⟩, (hf ⟨v', rfl, hz'⟩).symm⟩
    · rintro ⟨y', hy', rfl⟩
      obtain ⟨v', hr, rfl⟩ := (mem_mergedSuccessors_right h₁ h₂).1 hy'
      obtain ⟨x', hr', hz'⟩ := hZ.back hz hr
      exact ⟨x', (mem_mergedSuccessors_left h₁ h₂ hx).2 hr', hf ⟨v', rfl, hz'⟩⟩

include h₁ h₂ in
/-- **The final blocks are a stable labelling.** -/
theorem stable_label {p : Partition} (hagents : s₁.numberOfAgents = s₂.numberOfAgents)
    (hcov : p.Covers (s₁.worlds.length + s₂.worlds.length) [])
    (hpure : p.Pure fun u v ↦ (BisimulationContext.create s₁ s₂).key u =
      (BisimulationContext.create s₁ s₂).key v)
    (hunif : ∀ b, p.Uniform (BisimulationContext.create s₁ s₂).indistinguishabilityRelation b) :
    (p.label s₁).Stable (s₁.model convertPropositionsToString)
      (s₂.model convertPropositionsToString) := by
  -- worlds with one label lead to the same blocks under every agent that has pairs at all
  have hblocks : ∀ {agent u v : ℕ}, agent < s₁.numberOfAgents → u < s₁.worlds.length →
      v < s₂.worlds.length → p.worldToBlock u = p.worldToBlock (s₁.worlds.length + v) →
      ∀ b, b ∈ blockSet p.worldToBlock (mergedSuccessors s₁ s₂ agent u) ↔
        b ∈ blockSet p.worldToBlock (mergedSuccessors s₁ s₂ agent (s₁.worlds.length + v)) := by
    intro agent u v ha hu hv he b
    have hsame := hcov.differs_eq_false hunif (show u < _ by omega)
      (show s₁.worlds.length + v < _ by omega) he
    rw [differs_eq_false_iff.1 hsame _ (mem_indistinguishabilityRelation_create.2 ⟨agent, ha, rfl⟩)]
  refine ⟨fun {u v} hu hv he ↦ ?_, fun {agent u u' v} hu hv he hr ↦ ?_,
    fun {agent u v v'} hu hv he hr ↦ ?_⟩
  · change u < s₁.worlds.length at hu
    change v < s₂.worlds.length at hv
    change p.worldToBlock u = p.worldToBlock (s₁.worlds.length + v) at he
    have hmu := hcov.mem_block (show u < _ by omega) List.not_mem_nil
    have hmv := hcov.mem_block (show s₁.worlds.length + v < _ by omega) List.not_mem_nil
    have hkey : (BisimulationContext.create s₁ s₂).key u =
        (BisimulationContext.create s₁ s₂).key (s₁.worlds.length + v) := hpure hmu (he ▸ hmv)
    rwa [key_create_left hu, key_create_right hv] at hkey
  · have hmem := (hblocks (h₁.agent_lt hr) hu hv he (p.worldToBlock u')).1
      (mem_blockSet.2 ⟨u', (mem_mergedSuccessors_left h₁ h₂ hu).2 hr, rfl⟩)
    obtain ⟨y, hy, hey⟩ := mem_blockSet.1 hmem
    obtain ⟨v', hr', rfl⟩ := (mem_mergedSuccessors_right h₁ h₂).1 hy
    exact ⟨v', hr', hey.symm⟩
  · have hmem := (hblocks (hagents ▸ h₂.agent_lt hr) hu hv he
      (p.worldToBlock (s₁.worlds.length + v'))).2
      (mem_blockSet.2 ⟨_, (mem_mergedSuccessors_right h₁ h₂).2 ⟨v', hr, rfl⟩, rfl⟩)
    obtain ⟨u', hu', heu⟩ := mem_blockSet.1 hmem
    exact ⟨u', (mem_mergedSuccessors_left h₁ h₂ hu).1 hu', heu⟩

/-- The test on a block, in terms of its worlds. -/
theorem isBalanced_iff {ctx : BisimulationContext} {block : List ℕ} :
    ctx.isBalanced block = true ↔
      (∃ x ∈ block, ctx.isWorldFromState1 x = true) ∧
        (∃ y ∈ block, ctx.isWorldFromState1 y = false) ∧
          ((∃ x ∈ block, ctx.isWorldFromState1 x = true ∧ ctx.isWorldDesignated x = true) ↔
            ∃ y ∈ block, ctx.isWorldFromState1 y = false ∧ ctx.isWorldDesignated y = true) := by
  have hne : ∀ q : ℕ → Bool, (!(block.filter q).isEmpty) = true ↔ ∃ x ∈ block, q x = true := by
    simp
  have hany : ∀ q : ℕ → Bool, (block.filter q).any ctx.isWorldDesignated = true ↔
      ∃ x ∈ block, q x = true ∧ ctx.isWorldDesignated x = true := by
    simp
  rw [BisimulationContext.isBalanced, Bool.and_eq_true, Bool.and_eq_true, hne, hne, beq_iff_eq,
    Bool.eq_iff_iff, hany, hany, and_assoc]
  simp only [Bool.not_eq_true']

/-- A block has a world of the first state when it has a label of the first state, and so on. -/
theorem exists_mem_block_left {p : Partition}
    (hcov : p.Covers (s₁.worlds.length + s₂.worlds.length) []) {b : ℕ} {Q : ℕ → Prop} :
    (∃ x ∈ p.block b, (BisimulationContext.create s₁ s₂).isWorldFromState1 x = true ∧ Q x) ↔
      ∃ u < s₁.worlds.length, (p.label s₁).left u = b ∧ Q u := by
  simp only [BisimulationContext.create, decide_eq_true_eq]
  constructor
  · rintro ⟨x, hx, hlt, hq⟩
    exact ⟨x, hlt, hcov.worldToBlock_eq hx, hq⟩
  · rintro ⟨u, hlt, rfl, hq⟩
    exact ⟨u, hcov.mem_block (by omega) List.not_mem_nil, hlt, hq⟩

theorem exists_mem_block_right {p : Partition}
    (hcov : p.Covers (s₁.worlds.length + s₂.worlds.length) []) {b : ℕ} {Q : ℕ → Prop} :
    (∃ y ∈ p.block b, (BisimulationContext.create s₁ s₂).isWorldFromState1 y = false ∧ Q y) ↔
      ∃ v < s₂.worlds.length, (p.label s₁).right v = b ∧ Q (s₁.worlds.length + v) := by
  simp only [BisimulationContext.create, decide_eq_false_iff_not, Nat.not_lt]
  constructor
  · rintro ⟨y, hy, hle, hq⟩
    obtain ⟨v, rfl⟩ := Nat.exists_eq_add_of_le hle
    have hlt := hcov.lt_of_mem hy
    exact ⟨v, by omega, hcov.worldToBlock_eq hy, hq⟩
  · rintro ⟨v, hlt, rfl, hq⟩
    exact ⟨_, hcov.mem_block (by omega) List.not_mem_nil, Nat.le_add_right _ _, hq⟩

include h₁ h₂ in
/-- The test on a block of the final partition, in terms of labels. -/
theorem isBalanced_block_iff {p : Partition}
    (hcov : p.Covers (s₁.worlds.length + s₂.worlds.length) []) {b : ℕ} :
    (BisimulationContext.create s₁ s₂).isBalanced (p.block b) = true ↔
      (∃ u < s₁.worlds.length, (p.label s₁).left u = b) ∧
        (∃ v < s₂.worlds.length, (p.label s₁).right v = b) ∧
          ((∃ u ∈ s₁.designatedWorlds, (p.label s₁).left u = b) ↔
            ∃ v ∈ s₂.designatedWorlds, (p.label s₁).right v = b) := by
  have hleft := @exists_mem_block_left s₁ s₂ p hcov b fun _ ↦ True
  have hright := @exists_mem_block_right s₁ s₂ p hcov b fun _ ↦ True
  simp only [and_true] at hleft hright
  have hdes₁ : (∃ u < s₁.worlds.length, (p.label s₁).left u = b ∧
      (BisimulationContext.create s₁ s₂).isWorldDesignated u = true) ↔
        ∃ u ∈ s₁.designatedWorlds, (p.label s₁).left u = b := by
    constructor
    · rintro ⟨u, hu, hb, hd⟩
      exact ⟨u, (isWorldDesignated_create_left h₁ h₂ hu).1 hd, hb⟩
    · rintro ⟨u, hd, hb⟩
      have hu := h₁.designated_lt hd
      exact ⟨u, hu, hb, (isWorldDesignated_create_left h₁ h₂ hu).2 hd⟩
  have hdes₂ : (∃ v < s₂.worlds.length, (p.label s₁).right v = b ∧
      (BisimulationContext.create s₁ s₂).isWorldDesignated (s₁.worlds.length + v) = true) ↔
        ∃ v ∈ s₂.designatedWorlds, (p.label s₁).right v = b := by
    constructor
    · rintro ⟨v, hv, hb, hd⟩
      exact ⟨v, (isWorldDesignated_create_right h₁ h₂ hv).1 hd, hb⟩
    · rintro ⟨v, hd, hb⟩
      have hv := h₂.designated_lt hd
      exact ⟨v, hv, hb, (isWorldDesignated_create_right h₁ h₂ hv).2 hd⟩
  rw [isBalanced_iff, hleft, hright, exists_mem_block_left hcov, exists_mem_block_right hcov, hdes₁,
    hdes₂]

include h₁ h₂ in
/-- **All blocks are balanced exactly when the labelling meets.** -/
theorem all_isBalanced_iff_meets {p : Partition}
    (hcov : p.Covers (s₁.worlds.length + s₂.worlds.length) []) :
    p.blocks.all (BisimulationContext.create s₁ s₂).isBalanced = true ↔
      (p.label s₁).Meets (s₁.model val) (s₂.model val) := by
  have hall : p.blocks.all (BisimulationContext.create s₁ s₂).isBalanced = true ↔
      ∀ b < p.blocks.length, (BisimulationContext.create s₁ s₂).isBalanced (p.block b) = true := by
    rw [List.all_eq_true, List.forall_mem_iff_forall_getElem]
    refine forall₂_congr fun b hb ↦ ?_
    rw [Partition.block, List.getD_eq_getElem _ _ hb]
  have hleft : ∀ {u}, u < s₁.worlds.length → (p.label s₁).left u < p.blocks.length := fun hu ↦
    Partition.lt_length_of_mem_block (hcov.mem_block (by omega) List.not_mem_nil)
  have hright : ∀ {v}, v < s₂.worlds.length → (p.label s₁).right v < p.blocks.length := fun hv ↦
    Partition.lt_length_of_mem_block (hcov.mem_block (by omega) List.not_mem_nil)
  rw [hall]
  constructor
  · intro h
    refine ⟨fun {u} hu ↦ ?_, fun {v} hv ↦ ?_, fun {u} hu ↦ ?_, fun {v} hv ↦ ?_⟩
    · obtain ⟨-, ⟨v, hv, he⟩, -⟩ := (isBalanced_block_iff h₁ h₂ hcov).1 (h _ (hleft hu))
      exact ⟨v, hv, he.symm⟩
    · obtain ⟨⟨u, hu, he⟩, -, -⟩ := (isBalanced_block_iff h₁ h₂ hcov).1 (h _ (hright hv))
      exact ⟨u, hu, he⟩
    · obtain ⟨-, -, hdes⟩ := (isBalanced_block_iff h₁ h₂ hcov).1
        (h _ (hleft (h₁.designated_lt hu)))
      obtain ⟨v, hv, he⟩ := hdes.1 ⟨u, hu, rfl⟩
      exact ⟨v, hv, he.symm⟩
    · obtain ⟨-, -, hdes⟩ := (isBalanced_block_iff h₁ h₂ hcov).1
        (h _ (hright (h₂.designated_lt hv)))
      obtain ⟨u, hu, he⟩ := hdes.2 ⟨v, hv, rfl⟩
      exact ⟨u, hu, he⟩
  · intro hm b hb
    -- a block has some world, which has a partner with its label in the other state
    have hboth : (∃ u < s₁.worlds.length, (p.label s₁).left u = b) ∧
        ∃ v < s₂.worlds.length, (p.label s₁).right v = b := by
      obtain ⟨x, hx⟩ := List.exists_mem_of_ne_nil _ (hcov.block_ne_nil hb)
      have hxb := hcov.worldToBlock_eq hx
      rcases Nat.lt_or_ge x s₁.worlds.length with hlt | hge
      · obtain ⟨v, hv, he⟩ := hm.left hlt
        exact ⟨⟨x, hlt, hxb⟩, v, hv, he.symm.trans hxb⟩
      · obtain ⟨v, rfl⟩ := Nat.exists_eq_add_of_le hge
        have hv : v < s₂.worlds.length := by
          have := hcov.lt_of_mem hx
          omega
        obtain ⟨u, hu, he⟩ := hm.right hv
        exact ⟨⟨u, hu, he.trans hxb⟩, v, hv, hxb⟩
    refine (isBalanced_block_iff h₁ h₂ hcov).2 ⟨hboth.1, hboth.2, ?_, ?_⟩
    · rintro ⟨u, hu, rfl⟩
      obtain ⟨v, hv, he⟩ := hm.designated_left hu
      exact ⟨v, hv, he.symm⟩
    · rintro ⟨v, hv, rfl⟩
      obtain ⟨u, hu, he⟩ := hm.designated_right hv
      exact ⟨u, hu, he⟩

end Merged

/-! ### The decision -/

/-- The final partition of the check, for any inseparable relation that refines the keys. -/
theorem finalPartition_spec (order : HashOrder) (s₁ s₂ : State) {R : ℕ → ℕ → Prop}
    (hR : Inseparable (BisimulationContext.create s₁ s₂).indistinguishabilityRelation
      (s₁.worlds.length + s₂.worlds.length) R)
    (hkey : ∀ {u v}, R u v →
      (BisimulationContext.create s₁ s₂).key u = (BisimulationContext.create s₁ s₂).key v) :
    ∃ q, partitionIntoRelationsBlocks
        (BisimulationContext.create s₁ s₂).indistinguishabilityRelation
        ((BisimulationContext.create s₁ s₂).worlds.length + 1)
        (partitionIntoValuationBlocks order (BisimulationContext.create s₁ s₂)) = some q ∧
      q.Covers (s₁.worlds.length + s₂.worlds.length) [] ∧
      (q.Pure fun u v ↦
        (BisimulationContext.create s₁ s₂).key u = (BisimulationContext.create s₁ s₂).key v) ∧
      q.Respects R ∧
      ∀ b, q.Uniform (BisimulationContext.create s₁ s₂).indistinguishabilityRelation b := by
  have hcov := @covers_partitionIntoValuationBlocks order (BisimulationContext.create s₁ s₂)
  rw [length_worlds_create] at hcov ⊢
  refine partitionIntoRelationsBlocks_spec hR hcov pure_partitionIntoValuationBlocks
    (respects_partitionIntoValuationBlocks (fun huv ↦ ?_) hkey)
  rw [length_worlds_create]
  exact hR.lt huv

/-- **The check always ends.** -/
theorem isBisimilar?_isSome (order : HashOrder) (s₁ s₂ : State) :
    (isBisimilar? order s₁ s₂).isSome := by
  unfold isBisimilar?
  split_ifs
  · rfl
  · obtain ⟨q, hq, -⟩ := @finalPartition_spec order s₁ s₂ (fun _ _ ↦ False)
      ⟨False.elim, fun _ _ _ h ↦ h.elim⟩ False.elim
    simp [hq]

/-- `is_bisimilar`: the worlds of both states are split into blocks until nothing changes, and every
block has to have worlds of both, with designated ones of both or of neither. -/
def isBisimilar (order : HashOrder) (s₁ s₂ : State) : Bool :=
  (isBisimilar? order s₁ s₂).get (isBisimilar?_isSome order s₁ s₂)

/-- `are_states_bisimilar`: what a policy asks of a state and its entries. -/
def areStatesBisimilar (order : HashOrder) (s₁ s₂ : State) : Bool := isBisimilar order s₁ s₂

theorem isBisimilar_eq_true_iff (order : HashOrder) {s₁ s₂ : State} (h₁ : s₁.WellFormed)
    (h₂ : s₂.WellFormed) :
    isBisimilar order s₁ s₂ = true ↔ s₁.numberOfAgents = s₂.numberOfAgents ∧
      Kripke.Bisimilar (s₁.model convertPropositionsToString)
        (s₂.model convertPropositionsToString) := by
  -- the value of the check is read off whichever final partition the refinement returns
  have hvalue : ∀ {q : Partition}, s₁.numberOfAgents = s₂.numberOfAgents →
      partitionIntoRelationsBlocks (BisimulationContext.create s₁ s₂).indistinguishabilityRelation
        ((BisimulationContext.create s₁ s₂).worlds.length + 1)
        (partitionIntoValuationBlocks order (BisimulationContext.create s₁ s₂)) = some q →
      isBisimilar order s₁ s₂ = q.blocks.all (BisimulationContext.create s₁ s₂).isBalanced := by
    intro q hagents hq
    refine Option.get_of_eq_some _ ?_
    rw [isBisimilar?, if_neg (not_not.2 hagents)]
    simp only [hq, Option.map_some]
  constructor
  · intro h
    have hagents : s₁.numberOfAgents = s₂.numberOfAgents := by
      by_contra hne
      have hfalse : isBisimilar order s₁ s₂ = false :=
        Option.get_of_eq_some _ (by rw [isBisimilar?, if_pos hne])
      rw [hfalse] at h
      exact Bool.false_ne_true h
    obtain ⟨q, hq, hcov, hpure, -, hunif⟩ := @finalPartition_spec order s₁ s₂ (fun _ _ ↦ False)
      ⟨False.elim, fun _ _ _ h ↦ h.elim⟩ False.elim
    rw [hvalue hagents hq] at h
    have hmeets : (q.label s₁).Meets (s₁.model convertPropositionsToString)
        (s₂.model convertPropositionsToString) := (all_isBalanced_iff_meets h₁ h₂ hcov).1 h
    have hstable := stable_label h₁ h₂ hagents hcov hpure hunif
    exact ⟨hagents, hstable.bisimilar hmeets (fun hr ↦ (h₁.relation_lt hr).2)
      (fun hr ↦ (h₂.relation_lt hr).2) (fun _ ↦ h₁.designated_lt) fun _ ↦ h₂.designated_lt⟩
  · rintro ⟨hagents, Z, hZ⟩
    obtain ⟨q, hq, hcov, -, hresp, -⟩ := finalPartition_spec order s₁ s₂
      (inseparable_merged h₁ h₂ hZ) (by
        rintro u _ ⟨v, rfl, hz⟩
        obtain ⟨hu, hv⟩ := hZ.mem hz
        rw [key_create_left hu, key_create_right hv]
        exact hZ.val_eq hz)
    have hlabel : (q.label s₁).Respects Z := fun {u v} hz ↦ hresp ⟨v, rfl, hz⟩
    rw [hvalue hagents hq]
    exact (all_isBalanced_iff_meets h₁ h₂ hcov).2 (hlabel.meets hZ)

/-- **The check decides bisimilarity**: on well-formed states it ends, within the bound on its
passes, and answers whether the agents are as many and the models, with worlds compared by their
keys, are related by a total bisimulation that matches designated worlds. -/
theorem isBisimilar_decides_bisimilar (order : HashOrder) {s₁ s₂ : State} (h₁ : s₁.WellFormed)
    (h₂ : s₂.WellFormed) :
    ∃ b, isBisimilar? order s₁ s₂ = some b ∧
      (b = true ↔ s₁.numberOfAgents = s₂.numberOfAgents ∧
        Kripke.Bisimilar (s₁.model convertPropositionsToString)
          (s₂.model convertPropositionsToString)) :=
  ⟨isBisimilar order s₁ s₂, (Option.some_get _).symm, isBisimilar_eq_true_iff order h₁ h₂⟩

/-- The eight-world state of the repository's bisimulation tests. -/
def testState1 (designatedWorlds : List ℕ) : State where
  numberOfAgents := 1
  worlds := [⟨0, ∅⟩, ⟨1, {"q"}⟩, ⟨2, {"p"}⟩, ⟨3, {"p", "q"}⟩, ⟨4, ∅⟩, ⟨5, {"q"}⟩, ⟨6, {"p"}⟩,
    ⟨7, {"p", "q"}⟩]
  designatedWorlds := designatedWorlds
  indistinguishabilityRelation := [(List.range' 1 7).flatMap fun i ↦ [⟨0, i⟩, ⟨i, i⟩]]

/-- The five-world state of the repository's bisimulation tests. -/
def testState2 : State where
  numberOfAgents := 1
  worlds := [⟨0, ∅⟩, ⟨1, ∅⟩, ⟨2, {"q"}⟩, ⟨3, {"p"}⟩, ⟨4, {"p", "q"}⟩]
  designatedWorlds := [0, 1, 4]
  indistinguishabilityRelation := [(List.range' 1 4).flatMap fun i ↦ [⟨0, i⟩, ⟨i, i⟩]]

theorem isBisimilar_decides_testStates :
    (testState1 [0, 3, 4, 7]).WellFormed ∧ testState2.WellFormed ∧
      ∃ b, isBisimilar? HashOrder.insertion (testState1 [0, 3, 4, 7]) testState2 = some b ∧
        (b = true ↔ (testState1 [0, 3, 4, 7]).numberOfAgents = testState2.numberOfAgents ∧
          Kripke.Bisimilar ((testState1 [0, 3, 4, 7]).model convertPropositionsToString)
            (testState2.model convertPropositionsToString)) :=
  ⟨by decide, by decide, isBisimilar_decides_bisimilar _ (by decide) (by decide)⟩

example : isBisimilar? HashOrder.insertion (testState1 [0, 3, 4, 7]) testState2 = some true := by
  decide +kernel

example :
    isBisimilar? HashOrder.insertion (testState1 [0, 3, 4, 5, 7]) testState2 = some false := by
  decide +kernel

/-- Every well-formed state is found bisimilar to itself. -/
theorem areStatesBisimilar_self (order : HashOrder) {s : State} (h : s.WellFormed) :
    areStatesBisimilar order s s = true :=
  (isBisimilar_eq_true_iff order h h).2
    ⟨rfl, Kripke.Bisimilar.refl h.relation_lt fun _ ↦ h.designated_lt⟩

end Del
