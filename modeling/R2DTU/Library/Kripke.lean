import Mathlib.Data.Set.Basic

/-!
# Pointed Kripke models and total bisimulations

A model has worlds, one accessibility relation per index, a valuation and designated worlds. A
**total bisimulation** relates every world of either model to some world of the other, respects
valuations, satisfies forth and back for every index and matches designated worlds both ways.

Valuations take values in an arbitrary type, so that the same notion covers models compared by the
set of true propositions and models compared by a key computed from it.

`Label` is the other way to present a bisimulation: a labelling of the worlds of both models by
blocks. `Label.Stable` gives a bisimulation from equal labels, and `Label.Respects` says that a
labelling does not separate related worlds; a refinement that keeps the second and ends in the first
decides bisimilarity.
-/

namespace Kripke

universe u v w x y

variable {ι : Type u} {W : Type v} {W' : Type w} {V : Type x}

/-- A Kripke model on the carrier `W` with designated worlds. -/
structure Model (ι : Type u) (W : Type v) (V : Type x) where
  /-- The points of the carrier that are worlds. -/
  worlds : Set W
  /-- Which worlds are possible for an index at a world. -/
  rel : ι → W → W → Prop
  /-- What is true at a world. -/
  val : W → V
  /-- The worlds that may be the actual one. -/
  designated : Set W

/-- `Z` is a valuation-preserving total bisimulation that matches designated worlds both ways. -/
structure IsBisimulation (M : Model ι W V) (N : Model ι W' V) (Z : W → W' → Prop) : Prop where
  /-- Worlds are related to worlds. -/
  mem {u : W} {v : W'} (h : Z u v) : u ∈ M.worlds ∧ v ∈ N.worlds
  /-- Every world of the first model is related. -/
  total_left {u : W} (hu : u ∈ M.worlds) : ∃ v, Z u v
  /-- So is every world of the second one. -/
  total_right {v : W'} (hv : v ∈ N.worlds) : ∃ u, Z u v
  /-- Related worlds have the same valuation. -/
  val_eq {u : W} {v : W'} (h : Z u v) : M.val u = N.val v
  /-- Steps of the first model are matched. -/
  forth {i : ι} {u u' : W} {v : W'} (h : Z u v) (hr : M.rel i u u') : ∃ v', N.rel i v v' ∧ Z u' v'
  /-- So are steps of the second one. -/
  back {i : ι} {u : W} {v v' : W'} (h : Z u v) (hr : N.rel i v v') : ∃ u', M.rel i u u' ∧ Z u' v'
  /-- Designated worlds of the first model are matched by such. -/
  designated_left {u : W} (hu : u ∈ M.designated) : ∃ v ∈ N.designated, Z u v
  /-- So are those of the second one. -/
  designated_right {v : W'} (hv : v ∈ N.designated) : ∃ u ∈ M.designated, Z u v

/-- The models are related by some total bisimulation. -/
def Bisimilar (M : Model ι W V) (N : Model ι W' V) : Prop := ∃ Z, IsBisimulation M N Z

/-- A model whose relations and designated worlds stay among its worlds is bisimilar to itself. -/
theorem Bisimilar.refl {M : Model ι W V}
    (hrel : ∀ {i u v}, M.rel i u v → u ∈ M.worlds ∧ v ∈ M.worlds)
    (hdes : M.designated ⊆ M.worlds) : Bisimilar M M := by
  refine ⟨fun u v ↦ u = v ∧ u ∈ M.worlds, ?_⟩
  exact
    { mem := fun ⟨he, hu⟩ ↦ ⟨hu, he ▸ hu⟩
      total_left := fun hu ↦ ⟨_, rfl, hu⟩
      total_right := fun hv ↦ ⟨_, rfl, hv⟩
      val_eq := fun ⟨he, _⟩ ↦ congrArg M.val he
      forth := fun ⟨he, _⟩ hr ↦ ⟨_, he ▸ hr, rfl, (hrel hr).2⟩
      back := fun ⟨he, _⟩ hr ↦ ⟨_, he ▸ hr, rfl, (hrel hr).2⟩
      designated_left := fun hu ↦ ⟨_, hu, rfl, hdes hu⟩
      designated_right := fun hv ↦ ⟨_, hv, rfl, hdes hv⟩ }

/-- Bisimilar models stay so when their valuations are read through a function. -/
theorem Bisimilar.map_val {V' : Type y} {M : Model ι W V} {N : Model ι W' V} (h : Bisimilar M N)
    (f : V → V') : Bisimilar { M with val := f ∘ M.val } { N with val := f ∘ N.val } := by
  obtain ⟨Z, hZ⟩ := h
  exact ⟨Z, hZ.mem, hZ.total_left, hZ.total_right, fun hz ↦ congrArg f (hZ.val_eq hz), hZ.forth,
    hZ.back, hZ.designated_left, hZ.designated_right⟩

/-! ### Labellings -/

/-- A labelling of the worlds of two models by blocks. -/
structure Label (W : Type v) (W' : Type w) where
  /-- The block of a world of the first model. -/
  left : W → ℕ
  /-- The block of a world of the second one. -/
  right : W' → ℕ

namespace Label

variable (f : Label W W')

/-- Related worlds have one label. -/
def Respects (Z : W → W' → Prop) : Prop := ∀ {u v}, Z u v → f.left u = f.right v

/-- Worlds with one label have one valuation and lead to the same labels at every index. -/
structure Stable (M : Model ι W V) (N : Model ι W' V) : Prop where
  val_eq {u : W} {v : W'} (hu : u ∈ M.worlds) (hv : v ∈ N.worlds) (h : f.left u = f.right v) :
    M.val u = N.val v
  forth {i : ι} {u u' : W} {v : W'} (hu : u ∈ M.worlds) (hv : v ∈ N.worlds)
    (h : f.left u = f.right v) (hr : M.rel i u u') : ∃ v', N.rel i v v' ∧ f.left u' = f.right v'
  back {i : ι} {u : W} {v v' : W'} (hu : u ∈ M.worlds) (hv : v ∈ N.worlds)
    (h : f.left u = f.right v) (hr : N.rel i v v') : ∃ u', M.rel i u u' ∧ f.left u' = f.right v'

/-- The two labellings meet: every world, and every designated world, of either model has a partner
with its label in the other. -/
structure Meets (M : Model ι W V) (N : Model ι W' V) : Prop where
  left {u : W} (hu : u ∈ M.worlds) : ∃ v ∈ N.worlds, f.left u = f.right v
  right {v : W'} (hv : v ∈ N.worlds) : ∃ u ∈ M.worlds, f.left u = f.right v
  designated_left {u : W} (hu : u ∈ M.designated) : ∃ v ∈ N.designated, f.left u = f.right v
  designated_right {v : W'} (hv : v ∈ N.designated) : ∃ u ∈ M.designated, f.left u = f.right v

variable {f}

/-- **A stable labelling that meets is a bisimulation.** -/
theorem Stable.bisimilar {M : Model ι W V} {N : Model ι W' V} (hs : f.Stable M N)
    (hm : f.Meets M N)
    (hrelM : ∀ {i u v}, M.rel i u v → v ∈ M.worlds) (hrelN : ∀ {i u v}, N.rel i u v → v ∈ N.worlds)
    (hdesM : M.designated ⊆ M.worlds) (hdesN : N.designated ⊆ N.worlds) : Bisimilar M N := by
  refine ⟨fun u v ↦ u ∈ M.worlds ∧ v ∈ N.worlds ∧ f.left u = f.right v, ?_⟩
  exact
    { mem := fun ⟨hu, hv, _⟩ ↦ ⟨hu, hv⟩
      total_left := fun hu ↦ by
        obtain ⟨v, hv, he⟩ := hm.left hu
        exact ⟨v, hu, hv, he⟩
      total_right := fun hv ↦ by
        obtain ⟨u, hu, he⟩ := hm.right hv
        exact ⟨u, hu, hv, he⟩
      val_eq := fun ⟨hu, hv, he⟩ ↦ hs.val_eq hu hv he
      forth := fun ⟨hu, hv, he⟩ hr ↦ by
        obtain ⟨v', hr', he'⟩ := hs.forth hu hv he hr
        exact ⟨v', hr', hrelM hr, hrelN hr', he'⟩
      back := fun ⟨hu, hv, he⟩ hr ↦ by
        obtain ⟨u', hr', he'⟩ := hs.back hu hv he hr
        exact ⟨u', hr', hrelM hr', hrelN hr, he'⟩
      designated_left := fun hu ↦ by
        obtain ⟨v, hv, he⟩ := hm.designated_left hu
        exact ⟨v, hv, hdesM hu, hdesN hv, he⟩
      designated_right := fun hv ↦ by
        obtain ⟨u, hu, he⟩ := hm.designated_right hv
        exact ⟨u, hu, hdesM hu, hdesN hv, he⟩ }

/-- **A labelling that respects a bisimulation meets.** -/
theorem Respects.meets {M : Model ι W V} {N : Model ι W' V} {Z : W → W' → Prop}
    (hf : f.Respects Z) (hZ : IsBisimulation M N Z) : f.Meets M N where
  left hu := by
    obtain ⟨v, hz⟩ := hZ.total_left hu
    exact ⟨v, (hZ.mem hz).2, hf hz⟩
  right hv := by
    obtain ⟨u, hz⟩ := hZ.total_right hv
    exact ⟨u, (hZ.mem hz).1, hf hz⟩
  designated_left hu := by
    obtain ⟨v, hv, hz⟩ := hZ.designated_left hu
    exact ⟨v, hv, hf hz⟩
  designated_right hv := by
    obtain ⟨u, hu, hz⟩ := hZ.designated_right hv
    exact ⟨u, hu, hf hz⟩

end Label

end Kripke
