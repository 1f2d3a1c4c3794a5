import R2DTU.Planner.Operations
import Mathlib.Data.List.Sort
import Mathlib.Data.String.Basic
import Mathlib.Logic.Function.Basic

/-!
# The bisimilarity check

`Bisimulation_Context` merges the worlds of two states into one numbered list, partitions it by
valuation keys and then refines the partition until no block has two worlds that lead to different
sets of blocks. The states are declared bisimilar when every block has worlds of both states, and
designated worlds of both or of neither.

The refinement works **in place**. A pass goes through the blocks present when it starts; a block is
split against its first world, the worlds that differ are moved to new blocks by
`moveWorldsToNewBlock`, and `worldToBlock` changes while the pass is still walking. Both loops are
written with `BoundedLoop.run`. The recursion of `moveWorldsToNewBlock` shortens its list, so it is
a total function here; that the passes end is shown in `PartitionRefinement`.
-/

namespace Del

/-! ### Valuation keys -/

/-- The propositions of a set in increasing order, as `std::sort` leaves them. -/
def sortPropositions (propositions : Finset String) : List String :=
  Quot.liftOn propositions.val (List.insertionSort (· ≤ ·)) fun _ _ h ↦
    (((List.perm_insertionSort _ _).trans h).trans
        (List.perm_insertionSort _ _).symm).eq_of_pairwise'
      (List.pairwise_insertionSort _ _) (List.pairwise_insertionSort _ _)

/-- `convert_propositions_to_string`: the sorted names, one after the other. -/
def convertPropositionsToString (propositions : Finset String) : String :=
  (sortPropositions propositions).foldl (· ++ ·) ""

/-! ### Merged worlds and relations -/

/-- `old_to_new_world`: the merged id of each world id, counting from `offset`; an id that was never
stored reads as zero. -/
def oldToNewWorld (worlds : List World) (offset : ℕ) : ℕ → ℕ :=
  (worlds.zipIdx offset).foldl (fun m p ↦ Function.update m p.1.id p.2) fun _ ↦ 0

/-- The merged worlds, their origin, their designation and, for each agent, the map from a world to
its successors; a missing key reads as the empty list. -/
structure BisimulationContext where
  /-- The worlds of the first state, and behind them those of the second. -/
  worlds : List World
  /-- Which state a world is of. -/
  isWorldFromState1 : ℕ → Bool
  /-- Whether it may be the actual one there. -/
  isWorldDesignated : ℕ → Bool
  /-- For each agent, the worlds it confuses with one. -/
  indistinguishabilityRelation : List (ℕ → List ℕ)

/-- The pairs of an agent with their endpoints renumbered. -/
def renumber (newId : ℕ → ℕ) (relations : List WorldRelation) : List WorldRelation :=
  relations.map fun r ↦ ⟨newId r.worldFrom, newId r.worldTo⟩

/-- `create_merged_worlds_list` and `create_merged_relations_list`. -/
def BisimulationContext.create (s₁ s₂ : State) : BisimulationContext where
  worlds := (s₁.worlds ++ s₂.worlds).mapIdx fun k w ↦ ⟨k, w.truePropositions⟩
  isWorldFromState1 := fun w ↦ decide (w < s₁.worlds.length)
  isWorldDesignated := fun w ↦
    s₁.designatedWorlds.any (fun d ↦ oldToNewWorld s₁.worlds 0 d == w) ||
      s₂.designatedWorlds.any (fun d ↦ oldToNewWorld s₂.worlds s₁.worlds.length d == w)
  indistinguishabilityRelation := (List.range s₁.numberOfAgents).map fun agent ↦
    successorsIn
      (renumber (oldToNewWorld s₁.worlds 0) (s₁.getIndistinguishabilityRelations agent) ++
        renumber (oldToNewWorld s₂.worlds s₁.worlds.length)
          (s₂.getIndistinguishabilityRelations agent))

/-- The valuation key of a merged world. -/
def BisimulationContext.key (ctx : BisimulationContext) (world : ℕ) : String :=
  convertPropositionsToString (ctx.worlds.getD world ⟨world, ∅⟩).truePropositions

/-! ### The partition -/

/-- `blocks` and `world_to_block`. -/
structure Partition where
  /-- The number of the block of a world. -/
  worldToBlock : ℕ → ℕ
  /-- The blocks. -/
  blocks : List (List ℕ)

/-- The distinct keys of the merged worlds in the order the map iterates them. -/
def BisimulationContext.valuationKeys (ctx : BisimulationContext) (order : HashOrder) :
    List String :=
  order.keys ((List.range ctx.worlds.length).map ctx.key).reverse.dedup.reverse

/-- `partition_into_valuation_blocks`: one block per key, worlds in increasing order. -/
def partitionIntoValuationBlocks (order : HashOrder) (ctx : BisimulationContext) : Partition where
  worldToBlock := fun w ↦
    if w < ctx.worlds.length then (ctx.valuationKeys order).idxOf (ctx.key w) else 0
  blocks := (ctx.valuationKeys order).map fun k ↦
    (List.range ctx.worlds.length).filter fun w ↦ ctx.key w = k

/-- `std::unique` on a sorted vector. -/
def unique : List ℕ → List ℕ
  | [] => []
  | [a] => [a]
  | a :: b :: l => if a = b then unique (b :: l) else a :: unique (b :: l)

/-- The blocks of the listed worlds, sorted and without repetitions. -/
def blockSet (worldToBlock : ℕ → ℕ) (worlds : List ℕ) : List ℕ :=
  unique ((worlds.map worldToBlock).insertionSort (· ≤ ·))

/-- `are_relations_equal`: equal length, then equal entries. -/
def areRelationsEqual (worldToBlock : ℕ → ℕ) (relations₁ relations₂ : List ℕ) : Bool :=
  blockSet worldToBlock relations₁ == blockSet worldToBlock relations₂

/-- Some agent leads from the two worlds to different sets of blocks. -/
def differs (rel : List (ℕ → List ℕ)) (worldToBlock : ℕ → ℕ) (base world : ℕ) : Bool :=
  rel.any fun successors ↦
    !areRelationsEqual worldToBlock (successors base) (successors world)

/-- Append a block and point its worlds to it. -/
def Partition.addBlock (p : Partition) (block : List ℕ) : Partition where
  worldToBlock := block.foldl (fun m w ↦ Function.update m w p.blocks.length) p.worldToBlock
  blocks := p.blocks ++ [block]

/-- Replace the worlds of a block. -/
def Partition.setBlock (p : Partition) (b : ℕ) (block : List ℕ) : Partition :=
  { p with blocks := p.blocks.set b block }

/-- One call of `move_worlds_to_new_block`: a new block for the worlds like the first one, and the
recursive call on the others, which compares against the partition just updated. -/
def moveWorldsToNewBlockStep (rel : List (ℕ → List ℕ)) (st : Partition × List ℕ) :
    (Partition × List ℕ) ⊕ Partition :=
  match st.2 with
  | [] => Sum.inr st.1
  | base :: rest =>
    let worldsDifferentThanBase := rest.filter fun w ↦ differs rel st.1.worldToBlock base w
    let worldsSameAsBase := base :: rest.filter fun w ↦ !differs rel st.1.worldToBlock base w
    let p := st.1.addBlock worldsSameAsBase
    if worldsDifferentThanBase.isEmpty then Sum.inr p else Sum.inl (p, worldsDifferentThanBase)

theorem length_lt_of_moveWorldsToNewBlockStep {rel : List (ℕ → List ℕ)}
    {st st' : Partition × List ℕ} (h : moveWorldsToNewBlockStep rel st = Sum.inl st') :
    st'.2.length < st.2.length := by
  obtain ⟨p, worlds⟩ := st
  cases worlds with
  | nil => simp [moveWorldsToNewBlockStep] at h
  | cons base rest =>
    simp only [moveWorldsToNewBlockStep] at h
    split_ifs at h
    obtain rfl := Sum.inl.inj h
    exact Nat.lt_succ_of_le (List.length_filter_le _ rest)

/-- `move_worlds_to_new_block`: worlds that have left their block go to new ones, those that lead to
the same blocks together. -/
def moveWorldsToNewBlock (rel : List (ℕ → List ℕ)) (p : Partition) (worldsToBeMoved : List ℕ) :
    Partition :=
  (BoundedLoop.run (moveWorldsToNewBlockStep rel) (worldsToBeMoved.length + 1)
      (p, worldsToBeMoved)).get
    (BoundedLoop.run_isSome (fun st ↦ st.2.length) length_lt_of_moveWorldsToNewBlockStep
      (Nat.lt_succ_self _))

/-- The body of the loop over the blocks: the worlds of block `b` that differ from its first world
are erased from it and moved to new blocks. The flag is `blocks_changed`. -/
def splitBlock (rel : List (ℕ → List ℕ)) (st : Partition × Bool) (b : ℕ) : Partition × Bool :=
  match st.1.blocks.getD b [] with
  | [] => st
  | base :: rest =>
    let worldsToBeMoved := (base :: rest).filter fun w ↦ differs rel st.1.worldToBlock base w
    let kept := (base :: rest).filter fun w ↦ !differs rel st.1.worldToBlock base w
    if worldsToBeMoved.isEmpty then st
    else (moveWorldsToNewBlock rel (st.1.setBlock b kept) worldsToBeMoved, true)

/-- One pass of `partition_into_relations_blocks` over the blocks present at its start. -/
def refinePass (rel : List (ℕ → List ℕ)) (p : Partition) : Partition × Bool :=
  (List.range p.blocks.length).foldl (splitBlock rel) (p, false)

/-- A pass, and the recursive call when it changed something. -/
def refineStep (rel : List (ℕ → List ℕ)) (p : Partition) : Partition ⊕ Partition :=
  if (refinePass rel p).2 then Sum.inl (refinePass rel p).1 else Sum.inr (refinePass rel p).1

/-- `partition_into_relations_blocks` with at most `fuel` passes. -/
def partitionIntoRelationsBlocks (rel : List (ℕ → List ℕ)) (fuel : ℕ) (p : Partition) :
    Option Partition :=
  BoundedLoop.run (refineStep rel) fuel p

/-- The test of `is_bisimilar` on one block. -/
def BisimulationContext.isBalanced (ctx : BisimulationContext) (block : List ℕ) : Bool :=
  let fromState1 := block.filter fun w ↦ ctx.isWorldFromState1 w
  let fromState2 := block.filter fun w ↦ !ctx.isWorldFromState1 w
  !fromState1.isEmpty && !fromState2.isEmpty &&
    (fromState1.any ctx.isWorldDesignated == fromState2.any ctx.isWorldDesignated)

/-- `is_bisimilar`, with one more pass than there are merged worlds. -/
def isBisimilar? (order : HashOrder) (s₁ s₂ : State) : Option Bool :=
  if s₁.numberOfAgents ≠ s₂.numberOfAgents then some false
  else
    let ctx := BisimulationContext.create s₁ s₂
    (partitionIntoRelationsBlocks ctx.indistinguishabilityRelation (ctx.worlds.length + 1)
      (partitionIntoValuationBlocks order ctx)).map fun p ↦ p.blocks.all ctx.isBalanced

end Del
