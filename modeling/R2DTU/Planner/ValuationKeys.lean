import R2DTU.Planner.BisimulationDecision

/-!
# Keys and valuations

The check compares worlds by a key, the sorted names of their true propositions one after the other.
Names have no separator, so different sets can have one key: `{"ab"}` and `{"a", "b"}`.

`DistinctKeys` is the condition that this does not happen among the worlds at hand. Under it the key
can be replaced by the valuation itself, and states found bisimilar agree on every formula
(`valuate_eq_of_areStatesBisimilar`). It is also necessary for the first partition to hold only
worlds with one valuation in a block, which is what `areStatesBisimilar_agree_iff` states.
-/

namespace Del

/-- No two worlds of the states have different sets of true propositions whose names, sorted and
written one after the other, give the same text. -/
def DistinctKeys (s₁ s₂ : State) : Prop :=
  ∀ w ∈ s₁.worlds ++ s₂.worlds, ∀ w' ∈ s₁.worlds ++ s₂.worlds,
    convertPropositionsToString w.truePropositions =
      convertPropositionsToString w'.truePropositions →
    w.truePropositions = w'.truePropositions

instance (s₁ s₂ : State) : Decidable (DistinctKeys s₁ s₂) :=
  inferInstanceAs (Decidable (∀ w ∈ s₁.worlds ++ s₂.worlds, ∀ w' ∈ s₁.worlds ++ s₂.worlds, _ → _))

/-- Every block of the first partition has worlds of one valuation only. -/
def BlocksHaveOneValuation (order : HashOrder) (s₁ s₂ : State) : Prop :=
  ∀ block ∈ (partitionIntoValuationBlocks order (BisimulationContext.create s₁ s₂)).blocks,
    ∀ u ∈ block, ∀ v ∈ block,
      ((BisimulationContext.create s₁ s₂).worlds.getD u ⟨u, ∅⟩).truePropositions =
        ((BisimulationContext.create s₁ s₂).worlds.getD v ⟨v, ∅⟩).truePropositions

variable {s₁ s₂ : State}

theorem State.getWorld_mem {s : State} {k : ℕ} (hk : k < s.worlds.length) :
    s.getWorld k ∈ s.worlds := by
  rw [State.getWorld, List.getD_eq_getElem _ _ hk]
  exact List.getElem_mem hk

/-- The propositions of a merged world are those of the world it was copied from. -/
theorem truePropositions_create {k : ℕ} (hk : k < (s₁.worlds ++ s₂.worlds).length) :
    ((BisimulationContext.create s₁ s₂).worlds.getD k ⟨k, ∅⟩).truePropositions =
      (s₁.worlds ++ s₂.worlds)[k].truePropositions := by
  rw [List.getD_eq_getElem _ _ (by simpa [BisimulationContext.create] using hk)]
  simp only [BisimulationContext.create, List.getElem_mapIdx]

/-- **Distinct keys are exactly what the first partition needs.** -/
theorem blocksHaveOneValuation_iff (order : HashOrder) :
    BlocksHaveOneValuation order s₁ s₂ ↔ DistinctKeys s₁ s₂ := by
  have hlen : (BisimulationContext.create s₁ s₂).worlds.length =
      (s₁.worlds ++ s₂.worlds).length := by simp [BisimulationContext.create]
  have hcov := @covers_partitionIntoValuationBlocks order (BisimulationContext.create s₁ s₂)
  constructor
  · intro h w hw w' hw' hkey
    obtain ⟨i, hi, rfl⟩ := List.getElem_of_mem hw
    obtain ⟨j, hj, rfl⟩ := List.getElem_of_mem hw'
    rw [← truePropositions_create hi, ← truePropositions_create hj] at hkey ⊢
    -- equal keys put the two worlds in the block numbered by the position of the key
    have hmi := hcov.mem_block (hlen ▸ hi) List.not_mem_nil
    have hmj := hcov.mem_block (hlen ▸ hj) List.not_mem_nil
    have hsame := (mem_block_partitionIntoValuationBlocks.1 hmi).2
    rw [show (BisimulationContext.create s₁ s₂).key i =
      (BisimulationContext.create s₁ s₂).key j from hkey] at hsame
    have hmj' := mem_block_partitionIntoValuationBlocks.2 ⟨hlen ▸ hj, hsame⟩
    have hb := Partition.lt_length_of_mem_block hmi
    rw [Partition.block, List.getD_eq_getElem _ _ hb] at hmi hmj'
    exact h _ (List.getElem_mem hb) i hmi j hmj'
  · intro h block hblock u hu v hv
    obtain ⟨b, hb, rfl⟩ := List.getElem_of_mem hblock
    have hmem : ∀ {x}, x ∈ (partitionIntoValuationBlocks order
        (BisimulationContext.create s₁ s₂)).blocks[b] →
        x ∈ (partitionIntoValuationBlocks order (BisimulationContext.create s₁ s₂)).block b := by
      intro x hx
      rwa [Partition.block, List.getD_eq_getElem _ _ hb]
    have hkey :
        (BisimulationContext.create s₁ s₂).key u = (BisimulationContext.create s₁ s₂).key v :=
      pure_partitionIntoValuationBlocks (hmem hu) (hmem hv)
    have hlu : u < (s₁.worlds ++ s₂.worlds).length := hlen ▸ hcov.lt_of_mem (hmem hu)
    have hlv : v < (s₁.worlds ++ s₂.worlds).length := hlen ▸ hcov.lt_of_mem (hmem hv)
    rw [BisimulationContext.key, BisimulationContext.key, truePropositions_create hlu,
      truePropositions_create hlv] at hkey
    rw [truePropositions_create hlu, truePropositions_create hlv]
    exact h _ (List.getElem_mem hlu) _ (List.getElem_mem hlv) hkey

/-- A bisimulation that respects valuations carries the truth of a formula in all designated worlds
from one state to the other. -/
theorem valuate_of_designated {Z : ℕ → ℕ → Prop} {f : BuiltFormula}
    (hback : ∀ v ∈ s₂.designatedWorlds, ∃ u ∈ s₁.designatedWorlds, Z u v)
    (hval : ∀ {u v}, Z u v → (s₁.getWorld u).truePropositions = (s₂.getWorld v).truePropositions)
    (h : s₁.valuate f = true) : s₂.valuate f = true := by
  rw [State.valuate, List.all_eq_true] at h ⊢
  intro v hv
  obtain ⟨u, hu, hz⟩ := hback v hv
  have hu' := h u hu
  rwa [World.valuate, hval hz] at hu'

/-- States that are bisimilar are found so, whatever their keys. -/
theorem areStatesBisimilar_of_bisimilar (order : HashOrder) (h₁ : s₁.WellFormed)
    (h₂ : s₂.WellFormed) (hn : s₁.numberOfAgents = s₂.numberOfAgents)
    (h : Kripke.Bisimilar (s₁.model id) (s₂.model id)) : areStatesBisimilar order s₁ s₂ = true :=
  (isBisimilar_eq_true_iff order h₁ h₂).2 ⟨hn, h.map_val convertPropositionsToString⟩

/-- **With distinct keys, states found bisimilar are bisimilar.** -/
theorem bisimilar_of_areStatesBisimilar {order : HashOrder} (h₁ : s₁.WellFormed)
    (h₂ : s₂.WellFormed) (hkeys : DistinctKeys s₁ s₂)
    (h : areStatesBisimilar order s₁ s₂ = true) :
    Kripke.Bisimilar (s₁.model id) (s₂.model id) := by
  obtain ⟨-, Z, hZ⟩ := (isBisimilar_eq_true_iff order h₁ h₂).1 h
  refine ⟨Z, hZ.mem, hZ.total_left, hZ.total_right, fun {u v} hz ↦ ?_, hZ.forth, hZ.back,
    hZ.designated_left, hZ.designated_right⟩
  obtain ⟨hu, hv⟩ := hZ.mem hz
  exact hkeys _ (List.mem_append_left _ (State.getWorld_mem hu)) _
    (List.mem_append_right _ (State.getWorld_mem hv)) (hZ.val_eq hz)

/-- **With distinct keys, states found bisimilar agree on every formula.** -/
theorem valuate_eq_of_areStatesBisimilar {order : HashOrder} (h₁ : s₁.WellFormed)
    (h₂ : s₂.WellFormed) (hkeys : DistinctKeys s₁ s₂) (h : areStatesBisimilar order s₁ s₂ = true)
    (f : BuiltFormula) : s₁.valuate f = s₂.valuate f := by
  obtain ⟨Z, hZ⟩ := bisimilar_of_areStatesBisimilar h₁ h₂ hkeys h
  rw [Bool.eq_iff_iff]
  constructor
  · exact valuate_of_designated (fun v hv ↦ hZ.designated_right hv) fun hz ↦ hZ.val_eq hz
  · refine valuate_of_designated (Z := fun v u ↦ Z u v) (fun u hu ↦ ?_) fun hz ↦ (hZ.val_eq hz).symm
    exact hZ.designated_left hu

/-- **When bisimilar states agree**: both halves hold, for states found bisimilar and for the blocks
of the first partition, exactly when the keys of the worlds are distinct. -/
theorem areStatesBisimilar_agree_iff (order : HashOrder) (h₁ : s₁.WellFormed)
    (h₂ : s₂.WellFormed) :
    ((areStatesBisimilar order s₁ s₂ = true → ∀ f : BuiltFormula, s₁.valuate f = s₂.valuate f) ∧
        BlocksHaveOneValuation order s₁ s₂) ↔ DistinctKeys s₁ s₂ := by
  constructor
  · exact fun h ↦ (blocksHaveOneValuation_iff order).1 h.2
  · intro hkeys
    exact ⟨fun hb f ↦ valuate_eq_of_areStatesBisimilar h₁ h₂ hkeys hb f,
      (blocksHaveOneValuation_iff order).2 hkeys⟩

theorem areStatesBisimilar_agree_iff_ofPropositions :
    ((areStatesBisimilar HashOrder.insertion (State.ofPropositions {"a"})
          (State.ofPropositions {"b"}) = true →
        ∀ f : BuiltFormula,
          (State.ofPropositions {"a"}).valuate f = (State.ofPropositions {"b"}).valuate f) ∧
      BlocksHaveOneValuation HashOrder.insertion (State.ofPropositions {"a"})
        (State.ofPropositions {"b"})) ↔
      DistinctKeys (State.ofPropositions {"a"}) (State.ofPropositions {"b"}) :=
  areStatesBisimilar_agree_iff HashOrder.insertion (by decide) (by decide)

/-- `{"ab"}` and `{"a", "b"}` have one key, and the proposition `ab` tells the states apart. -/
theorem areStatesBisimilar_ab_disagree :
    ¬ ((areStatesBisimilar HashOrder.insertion (State.ofPropositions {"ab"})
          (State.ofPropositions {"a", "b"}) = true →
        ∀ f : BuiltFormula,
          (State.ofPropositions {"ab"}).valuate f = (State.ofPropositions {"a", "b"}).valuate f) ∧
      BlocksHaveOneValuation HashOrder.insertion (State.ofPropositions {"ab"})
        (State.ofPropositions {"a", "b"})) := by
  rintro ⟨hagree, -⟩
  have hbisim : areStatesBisimilar HashOrder.insertion (State.ofPropositions {"ab"})
      (State.ofPropositions {"a", "b"}) = true := by decide +kernel
  have hf := hagree hbisim (BuiltFormula.prop "ab")
  exact absurd hf (by decide)

end Del
