import R2DTU.Library.Kripke
import Mathlib.Logic.Relation

/-!
# Updates of Kripke models

Three constructions on pointed models and what they keep of a relation between two models.

* `Model.update` is the product with an **event model**: a world and an event whose precondition
  holds there give a new world.
* `Model.shift i` keeps the worlds that index `i` reaches from designated ones, all of them
  designated.
* `Model.Applicable` asks for an event at every world that is kept by the shift.

A bisimulation is split into the part that mentions no relation, `Matches`, and forth and back for
one index, `Zigzag`, because the constructions differ in what they keep: the product keeps both
parts separately, and so does the shift to `i` for the index `i` itself; but the shift cuts the
pairs of the other indices that lead out of the worlds it keeps, and keeps their `Zigzag` only for
a relation that does not lead out of them either (`Zigzag.shift`).
-/

namespace Kripke

universe u v w w₂ x y

variable {ι : Type u} {W : Type v} {W' : Type w} {W'' : Type w₂} {V : Type x}
  {M : Model ι W V} {N : Model ι W' V} {P : Model ι W'' V} {Z : W → W' → Prop}
  {Y : W' → W'' → Prop} {i j : ι}

/-- The part of a total bisimulation that mentions no relation. -/
structure Matches (M : Model ι W V) (N : Model ι W' V) (Z : W → W' → Prop) : Prop where
  mem {u : W} {v : W'} (h : Z u v) : u ∈ M.worlds ∧ v ∈ N.worlds
  total_left {u : W} (hu : u ∈ M.worlds) : ∃ v, Z u v
  total_right {v : W'} (hv : v ∈ N.worlds) : ∃ u, Z u v
  val_eq {u : W} {v : W'} (h : Z u v) : M.val u = N.val v
  designated_left {u : W} (hu : u ∈ M.designated) : ∃ v ∈ N.designated, Z u v
  designated_right {v : W'} (hv : v ∈ N.designated) : ∃ u ∈ M.designated, Z u v

/-- Forth and back for the index `i`. -/
structure Zigzag (M : Model ι W V) (N : Model ι W' V) (Z : W → W' → Prop) (i : ι) : Prop where
  forth {u u' : W} {v : W'} (h : Z u v) (hr : M.rel i u u') : ∃ v', N.rel i v v' ∧ Z u' v'
  back {u : W} {v v' : W'} (h : Z u v) (hr : N.rel i v v') : ∃ u', M.rel i u u' ∧ Z u' v'

theorem IsBisimulation.matches (h : IsBisimulation M N Z) : Matches M N Z :=
  ⟨h.mem, h.total_left, h.total_right, h.val_eq, h.designated_left, h.designated_right⟩

theorem IsBisimulation.zigzag (h : IsBisimulation M N Z) (i : ι) : Zigzag M N Z i :=
  ⟨h.forth, h.back⟩

/-- The two parts make a bisimulation. -/
theorem Matches.isBisimulation (hm : Matches M N Z) (hz : ∀ i, Zigzag M N Z i) :
    IsBisimulation M N Z :=
  ⟨hm.mem, hm.total_left, hm.total_right, hm.val_eq, fun {i} ↦ (hz i).forth, fun {i} ↦ (hz i).back,
    hm.designated_left, hm.designated_right⟩

theorem Matches.symm (h : Matches M N Z) : Matches N M fun v u ↦ Z u v :=
  ⟨fun hz ↦ (h.mem hz).symm, h.total_right, h.total_left, fun hz ↦ (h.val_eq hz).symm,
    h.designated_right, h.designated_left⟩

theorem Zigzag.symm (h : Zigzag M N Z i) : Zigzag N M (fun v u ↦ Z u v) i := ⟨h.back, h.forth⟩

theorem IsBisimulation.symm (h : IsBisimulation M N Z) : IsBisimulation N M fun v u ↦ Z u v :=
  h.matches.symm.isBisimulation fun i ↦ (h.zigzag i).symm

theorem Matches.comp (h : Matches M N Z) (h' : Matches N P Y) :
    Matches M P (Relation.Comp Z Y) where
  mem := fun ⟨_, hz, hy⟩ ↦ ⟨(h.mem hz).1, (h'.mem hy).2⟩
  total_left hu := by
    obtain ⟨v, hz⟩ := h.total_left hu
    obtain ⟨w, hy⟩ := h'.total_left (h.mem hz).2
    exact ⟨w, v, hz, hy⟩
  total_right hw := by
    obtain ⟨v, hy⟩ := h'.total_right hw
    obtain ⟨u, hz⟩ := h.total_right (h'.mem hy).1
    exact ⟨u, v, hz, hy⟩
  val_eq := fun ⟨_, hz, hy⟩ ↦ (h.val_eq hz).trans (h'.val_eq hy)
  designated_left hu := by
    obtain ⟨v, hv, hz⟩ := h.designated_left hu
    obtain ⟨w, hw, hy⟩ := h'.designated_left hv
    exact ⟨w, hw, v, hz, hy⟩
  designated_right hw := by
    obtain ⟨v, hv, hy⟩ := h'.designated_right hw
    obtain ⟨u, hu, hz⟩ := h.designated_right hv
    exact ⟨u, hu, v, hz, hy⟩

theorem Zigzag.comp (h : Zigzag M N Z i) (h' : Zigzag N P Y i) :
    Zigzag M P (Relation.Comp Z Y) i where
  forth := by
    rintro u u' w ⟨v, hz, hy⟩ hr
    obtain ⟨v', hr', hz'⟩ := h.forth hz hr
    obtain ⟨w', hr'', hy'⟩ := h'.forth hy hr'
    exact ⟨w', hr'', v', hz', hy'⟩
  back := by
    rintro u w w' ⟨v, hz, hy⟩ hr
    obtain ⟨v', hr', hy'⟩ := h'.back hy hr
    obtain ⟨u', hr'', hz'⟩ := h.back hz hr'
    exact ⟨u', hr'', v', hz', hy'⟩

theorem IsBisimulation.comp (h : IsBisimulation M N Z) (h' : IsBisimulation N P Y) :
    IsBisimulation M P (Relation.Comp Z Y) :=
  (h.matches.comp h'.matches).isBisimulation fun i ↦ (h.zigzag i).comp (h'.zigzag i)

theorem Bisimilar.symm (h : Bisimilar M N) : Bisimilar N M := by
  obtain ⟨Z, hZ⟩ := h
  exact ⟨_, hZ.symm⟩

theorem Bisimilar.trans (h : Bisimilar M N) (h' : Bisimilar N P) : Bisimilar M P := by
  obtain ⟨Z, hZ⟩ := h
  obtain ⟨Y, hY⟩ := h'
  exact ⟨_, hZ.comp hY⟩

/-! ### Products with an event model -/

/-- Events with a precondition and an effect on valuations. -/
structure EventModel (ι : Type u) (E : Type y) (V : Type x) where
  events : Set E
  /-- Which events are possible for an index at an event. -/
  rel : ι → E → E → Prop
  /-- Whether the event can happen where a valuation holds. -/
  pre : E → V → Prop
  /-- What the event makes of a valuation. -/
  effect : E → V → V
  /-- The events that may be the actual one. -/
  designated : Set E

section Update

variable {E : Type y} {A : EventModel ι E V}

/-- The product of a model and an event model. -/
def Model.update (M : Model ι W V) (A : EventModel ι E V) : Model ι (W × E) V where
  worlds := {p | p.1 ∈ M.worlds ∧ p.2 ∈ A.events ∧ A.pre p.2 (M.val p.1)}
  rel := fun i p q ↦ (p.1 ∈ M.worlds ∧ p.2 ∈ A.events ∧ A.pre p.2 (M.val p.1)) ∧
    (q.1 ∈ M.worlds ∧ q.2 ∈ A.events ∧ A.pre q.2 (M.val q.1)) ∧
    M.rel i p.1 q.1 ∧ A.rel i p.2 q.2
  val := fun p ↦ A.effect p.2 (M.val p.1)
  designated := {p | (p.1 ∈ M.worlds ∧ p.2 ∈ A.events ∧ A.pre p.2 (M.val p.1)) ∧
    p.1 ∈ M.designated ∧ p.2 ∈ A.designated}

/-- New worlds are related when they come from related worlds and one event. -/
def updateRel (M : Model ι W V) (A : EventModel ι E V) (Z : W → W' → Prop) (p : W × E)
    (q : W' × E) : Prop :=
  p ∈ (M.update A).worlds ∧ Z p.1 q.1 ∧ p.2 = q.2

/-- The event that gave a new world applies at every related world. -/
theorem Matches.updateRel_mk (h : Matches M N Z) {p : W × E} {v : W'}
    (hp : p ∈ (M.update A).worlds) (hz : Z p.1 v) :
    (v, p.2) ∈ (N.update A).worlds ∧ updateRel M A Z p (v, p.2) :=
  ⟨⟨(h.mem hz).2, hp.2.1, h.val_eq hz ▸ hp.2.2⟩, hp, hz, rfl⟩

theorem Matches.updateRel_symm (h : Matches M N Z) {p : W × E} {q : W' × E} :
    updateRel N A (fun v u ↦ Z u v) q p ↔ updateRel M A Z p q := by
  obtain ⟨u, e⟩ := p
  obtain ⟨v, f⟩ := q
  constructor
  · rintro ⟨⟨-, he, hpre⟩, hz, rfl⟩
    exact ⟨⟨(h.mem hz).1, he, (h.val_eq hz).symm ▸ hpre⟩, hz, rfl⟩
  · rintro ⟨⟨-, he, hpre⟩, hz, rfl⟩
    exact ⟨⟨(h.mem hz).2, he, h.val_eq hz ▸ hpre⟩, hz, rfl⟩

/-- **The product keeps the part without relations.** -/
theorem Matches.update (h : Matches M N Z) :
    Matches (M.update A) (N.update A) (updateRel M A Z) where
  mem := fun {p q} hpq ↦ by
    obtain ⟨hp, hz, he⟩ := hpq
    have hq := (h.updateRel_mk hp hz).1
    rw [he] at hq
    exact ⟨hp, hq⟩
  total_left hp := by
    obtain ⟨v, hz⟩ := h.total_left hp.1
    exact ⟨_, (h.updateRel_mk hp hz).2⟩
  total_right hq := by
    obtain ⟨u, hz⟩ := h.total_right hq.1
    exact ⟨_, h.updateRel_symm.1 (h.symm.updateRel_mk hq hz).2⟩
  val_eq := fun {p q} ⟨_, hz, he⟩ ↦ by
    show A.effect p.2 (M.val p.1) = A.effect q.2 (N.val q.1)
    rw [he, h.val_eq hz]
  designated_left {p} hp := by
    obtain ⟨v, hv, hz⟩ := h.designated_left hp.2.1
    obtain ⟨hq, hrel⟩ := h.updateRel_mk hp.1 hz
    exact ⟨_, ⟨hq, hv, hp.2.2⟩, hrel⟩
  designated_right {q} hq := by
    obtain ⟨u, hu, hz⟩ := h.designated_right hq.2.1
    obtain ⟨hp, hrel⟩ := h.symm.updateRel_mk hq.1 hz
    exact ⟨_, ⟨hp, hu, hq.2.2⟩, h.updateRel_symm.1 hrel⟩

/-- **The product keeps forth and back**, one index at a time. -/
theorem Zigzag.update (hm : Matches M N Z) (h : Zigzag M N Z i) :
    Zigzag (M.update A) (N.update A) (updateRel M A Z) i where
  forth := by
    rintro p p' ⟨v, e⟩ ⟨hp, hz, rfl⟩ ⟨-, hp', hr, hre⟩
    obtain ⟨v', hr', hz'⟩ := h.forth hz hr
    obtain ⟨hq', hrel⟩ := hm.updateRel_mk hp' hz'
    exact ⟨_, ⟨(hm.updateRel_mk hp hz).1, hq', hr', hre⟩, hrel⟩
  back := by
    rintro ⟨u, e⟩ q q' hpq ⟨hq, hq', hr, hre⟩
    obtain ⟨hp, hz, rfl⟩ := hpq
    obtain ⟨u', hr', hz'⟩ := h.back hz hr
    obtain ⟨hp', hrel⟩ := hm.symm.updateRel_mk hq' hz'
    exact ⟨_, ⟨hp, hp', hr', hre⟩, hm.updateRel_symm.1 hrel⟩

/-- **Bisimilar models have bisimilar products.** -/
theorem IsBisimulation.update (h : IsBisimulation M N Z) :
    IsBisimulation (M.update A) (N.update A) (updateRel M A Z) :=
  h.matches.update.isBisimulation fun i ↦ (h.zigzag i).update h.matches

end Update

/-! ### The perspective of an index -/

/-- A path of index `i` leads to the world from a designated one. -/
def Model.Reaches (M : Model ι W V) (i : ι) (u : W) : Prop :=
  ∃ d ∈ M.designated, Relation.ReflTransGen (M.rel i) d u

/-- The worlds that `i` reaches, all designated, with the pairs between them. -/
def Model.shift (M : Model ι W V) (i : ι) : Model ι W V where
  worlds := {u | M.Reaches i u}
  rel := fun j u v ↦ M.Reaches i u ∧ M.Reaches i v ∧ M.rel j u v
  val := M.val
  designated := {u | M.Reaches i u}

theorem Model.Reaches.tail {u u' : W} (h : M.Reaches i u) (hr : M.rel i u u') :
    M.Reaches i u' := by
  obtain ⟨d, hd, hpath⟩ := h
  exact ⟨d, hd, hpath.tail hr⟩

/-- A path is followed in the other model. -/
theorem Matches.exists_reaches (hm : Matches M N Z) (hz : Zigzag M N Z i) {u : W}
    (h : M.Reaches i u) : ∃ v, N.Reaches i v ∧ Z u v := by
  obtain ⟨d, hd, hpath⟩ := h
  induction hpath with
  | refl =>
    obtain ⟨v, hv, hdv⟩ := hm.designated_left hd
    exact ⟨v, ⟨v, hv, .refl⟩, hdv⟩
  | tail _ hr ih =>
    obtain ⟨v, hv, huv⟩ := ih
    obtain ⟨v', hr', hz'⟩ := hz.forth huv hr
    exact ⟨v', hv.tail hr', hz'⟩

/-- The relation between the worlds that are kept. -/
def shiftRel (M : Model ι W V) (N : Model ι W' V) (Z : W → W' → Prop) (i : ι) (u : W) (v : W') :
    Prop :=
  M.Reaches i u ∧ N.Reaches i v ∧ Z u v

/-- **The shift keeps the part without relations**, when forth and back hold for its index. -/
theorem Matches.shift (hm : Matches M N Z) (hz : Zigzag M N Z i) :
    Matches (M.shift i) (N.shift i) (shiftRel M N Z i) where
  mem := fun ⟨hu, hv, _⟩ ↦ ⟨hu, hv⟩
  total_left hu := by
    obtain ⟨v, hv, huv⟩ := hm.exists_reaches hz hu
    exact ⟨v, hu, hv, huv⟩
  total_right hv := by
    obtain ⟨u, hu, huv⟩ := hm.symm.exists_reaches hz.symm hv
    exact ⟨u, hu, hv, huv⟩
  val_eq := fun ⟨_, _, huv⟩ ↦ hm.val_eq huv
  designated_left hu := by
    obtain ⟨v, hv, huv⟩ := hm.exists_reaches hz hu
    exact ⟨v, hv, hu, hv, huv⟩
  designated_right hv := by
    obtain ⟨u, hu, huv⟩ := hm.symm.exists_reaches hz.symm hv
    exact ⟨u, hu, hu, hv, huv⟩

/-- The relation leads from kept worlds to kept worlds only. -/
def KeepsReached (M : Model ι W V) (N : Model ι W' V) (Z : W → W' → Prop) (i : ι) : Prop :=
  ∀ {u v}, Z u v → (M.Reaches i u ↔ N.Reaches i v)

/-- **The shift keeps forth and back** of any index for a relation that does not lead out of the
kept worlds. -/
theorem Zigzag.shift (h : Zigzag M N Z j) (hk : KeepsReached M N Z i) :
    Zigzag (M.shift i) (N.shift i) (shiftRel M N Z i) j where
  forth := by
    rintro u u' v ⟨-, hv, huv⟩ ⟨-, hu', hr⟩
    obtain ⟨v', hr', hz'⟩ := h.forth huv hr
    have hv' := (hk hz').1 hu'
    exact ⟨v', ⟨hv, hv', hr'⟩, hu', hv', hz'⟩
  back := by
    rintro u v v' ⟨hu, -, huv⟩ ⟨-, hv', hr⟩
    obtain ⟨u', hr', hz'⟩ := h.back huv hr
    have hu' := (hk hz').2 hv'
    exact ⟨u', ⟨hu, hu', hr'⟩, hu', hv', hz'⟩

/-- The shift has nothing left to shift. -/
theorem Model.reaches_shift_iff {u : W} : (M.shift i).Reaches i u ↔ M.Reaches i u := by
  refine ⟨?_, fun h ↦ ⟨u, h, .refl⟩⟩
  rintro ⟨d, hd, hpath⟩
  induction hpath with
  | refl => exact hd
  | tail _ hr _ => exact hr.2.1

/-! ### Applicability -/

section Applicable

variable {E : Type y} {A : EventModel ι E V}

/-- Every world that `i` reaches has an event that applies. -/
def Model.Applicable (M : Model ι W V) (A : EventModel ι E V) (i : ι) : Prop :=
  ∀ u, M.Reaches i u → ∃ e ∈ A.events, A.pre e (M.val u)

theorem Matches.applicable (hm : Matches M N Z) (hz : Zigzag M N Z i) (h : M.Applicable A i) :
    N.Applicable A i := by
  intro v hv
  obtain ⟨u, hu, huv⟩ := hm.symm.exists_reaches hz.symm hv
  obtain ⟨e, he, hpre⟩ := h u hu
  exact ⟨e, he, hm.val_eq huv ▸ hpre⟩

/-- **Applicability respects bisimilarity.** -/
theorem Bisimilar.applicable_iff (h : Bisimilar M N) : M.Applicable A i ↔ N.Applicable A i := by
  obtain ⟨Z, hZ⟩ := h
  exact ⟨hZ.matches.applicable (hZ.zigzag i), hZ.matches.symm.applicable (hZ.zigzag i).symm⟩

theorem Model.applicable_shift_iff : (M.shift i).Applicable A i ↔ M.Applicable A i :=
  forall_congr' fun _ ↦ imp_congr_left Model.reaches_shift_iff

end Applicable

end Kripke
