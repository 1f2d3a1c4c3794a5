import R2DTU.Library.KripkeUpdate

/-!
# Isomorphisms of Kripke models

Two models that differ in the names of their worlds only. An isomorphism is presented like a
bisimulation, by a relation between the carriers; what is added is that it is one-to-one and that
related worlds are related alike, so that nothing about paths has to be said.

`IsIsomorphism.shift` is the point: the shift to the perspective of an index respects isomorphism,
and `isIsomorphism_shift_shift` says that a second shift of the same index changes nothing. Both
need the worlds to be closed under the relations, which the shift establishes
(`Model.closed_shift`).
-/

namespace Kripke

universe u v w w₂ x

variable {ι : Type u} {W : Type v} {W' : Type w} {W'' : Type w₂} {V : Type x}
  {M : Model ι W V} {N : Model ι W' V} {P : Model ι W'' V} {Z : W → W' → Prop}
  {Y : W' → W'' → Prop} {i : ι}

/-- Relations lead to worlds of the model, and designated worlds are among them. -/
structure Model.Closed (M : Model ι W V) : Prop where
  /-- Relations lead to worlds. -/
  rel_mem {i : ι} {u v : W} (h : M.rel i u v) : v ∈ M.worlds
  /-- What is designated is a world. -/
  designated_subset : M.designated ⊆ M.worlds

/-- `Z` is a bijection between the worlds that keeps valuations, relations and designated worlds. -/
structure IsIsomorphism (M : Model ι W V) (N : Model ι W' V) (Z : W → W' → Prop) : Prop where
  /-- Worlds are related to worlds. -/
  mem {u : W} {v : W'} (h : Z u v) : u ∈ M.worlds ∧ v ∈ N.worlds
  /-- Every world of the first model is related. -/
  total_left {u : W} (hu : u ∈ M.worlds) : ∃ v, Z u v
  /-- So is every world of the second one. -/
  total_right {v : W'} (hv : v ∈ N.worlds) : ∃ u, Z u v
  /-- No two worlds have one partner. -/
  left_unique {u u' : W} {v : W'} (h : Z u v) (h' : Z u' v) : u = u'
  /-- No world has two. -/
  right_unique {u : W} {v v' : W'} (h : Z u v) (h' : Z u v') : v = v'
  /-- Partners have the same valuation. -/
  val_eq {u : W} {v : W'} (h : Z u v) : M.val u = N.val v
  /-- Partners are related alike. -/
  rel_iff {i : ι} {u u' : W} {v v' : W'} (h : Z u v) (h' : Z u' v') : M.rel i u u' ↔ N.rel i v v'
  /-- Partners are designated alike. -/
  designated_iff {u : W} {v : W'} (h : Z u v) : u ∈ M.designated ↔ v ∈ N.designated

/-- The models are related by some isomorphism. -/
def Isomorphic (M : Model ι W V) (N : Model ι W' V) : Prop := ∃ Z, IsIsomorphism M N Z

theorem IsIsomorphism.symm (h : IsIsomorphism M N Z) : IsIsomorphism N M fun v u ↦ Z u v where
  mem hz := (h.mem hz).symm
  total_left := h.total_right
  total_right := h.total_left
  left_unique := h.right_unique
  right_unique := h.left_unique
  val_eq hz := (h.val_eq hz).symm
  rel_iff hz hz' := (h.rel_iff hz hz').symm
  designated_iff hz := (h.designated_iff hz).symm

theorem IsIsomorphism.comp (h : IsIsomorphism M N Z) (h' : IsIsomorphism N P Y) :
    IsIsomorphism M P (Relation.Comp Z Y) where
  mem := fun ⟨_, hz, hy⟩ ↦ ⟨(h.mem hz).1, (h'.mem hy).2⟩
  total_left hu := by
    obtain ⟨v, hz⟩ := h.total_left hu
    obtain ⟨w, hy⟩ := h'.total_left (h.mem hz).2
    exact ⟨w, v, hz, hy⟩
  total_right hw := by
    obtain ⟨v, hy⟩ := h'.total_right hw
    obtain ⟨u, hz⟩ := h.total_right (h'.mem hy).1
    exact ⟨u, v, hz, hy⟩
  left_unique := by
    intro u u' w ⟨v, hz, hy⟩ ⟨v', hz', hy'⟩
    obtain rfl := h'.left_unique hy hy'
    exact h.left_unique hz hz'
  right_unique := by
    intro u w w' ⟨v, hz, hy⟩ ⟨v', hz', hy'⟩
    obtain rfl := h.right_unique hz hz'
    exact h'.right_unique hy hy'
  val_eq := fun ⟨_, hz, hy⟩ ↦ (h.val_eq hz).trans (h'.val_eq hy)
  rel_iff := fun ⟨_, hz, hy⟩ ⟨_, hz', hy'⟩ ↦ (h.rel_iff hz hz').trans (h'.rel_iff hy hy')
  designated_iff := fun ⟨_, hz, hy⟩ ↦ (h.designated_iff hz).trans (h'.designated_iff hy)

theorem Isomorphic.symm (h : Isomorphic M N) : Isomorphic N M := by
  obtain ⟨Z, hZ⟩ := h
  exact ⟨_, hZ.symm⟩

theorem Isomorphic.trans (h : Isomorphic M N) (h' : Isomorphic N P) : Isomorphic M P := by
  obtain ⟨Z, hZ⟩ := h
  obtain ⟨Y, hY⟩ := h'
  exact ⟨_, hZ.comp hY⟩

/-- **An isomorphism of closed models is a bisimulation.** -/
theorem IsIsomorphism.isBisimulation (h : IsIsomorphism M N Z) (hM : M.Closed) (hN : N.Closed) :
    IsBisimulation M N Z where
  mem := h.mem
  total_left := h.total_left
  total_right := h.total_right
  val_eq := h.val_eq
  forth hz hr := by
    obtain ⟨v', hz'⟩ := h.total_left (hM.rel_mem hr)
    exact ⟨v', (h.rel_iff hz hz').1 hr, hz'⟩
  back hz hr := by
    obtain ⟨u', hz'⟩ := h.total_right (hN.rel_mem hr)
    exact ⟨u', (h.rel_iff hz hz').2 hr, hz'⟩
  designated_left hu := by
    obtain ⟨v, hz⟩ := h.total_left (hM.designated_subset hu)
    exact ⟨v, (h.designated_iff hz).1 hu, hz⟩
  designated_right hv := by
    obtain ⟨u, hz⟩ := h.total_right (hN.designated_subset hv)
    exact ⟨u, (h.designated_iff hz).2 hv, hz⟩

/-! ### The perspective of an index -/

/-- In a closed model only worlds are reached. -/
theorem Model.Closed.mem_of_reaches (hM : M.Closed) {u : W} (h : M.Reaches i u) :
    u ∈ M.worlds := by
  obtain ⟨d, hd, hpath⟩ := h
  cases hpath with
  | refl => exact hM.designated_subset hd
  | tail _ hr => exact hM.rel_mem hr

theorem Model.closed_shift : (M.shift i).Closed := ⟨fun h ↦ h.2.1, fun _ hu ↦ hu⟩

/-- Related worlds are reached alike. -/
theorem IsIsomorphism.reaches_iff (h : IsIsomorphism M N Z) (hM : M.Closed) (hN : N.Closed) {u : W}
    {v : W'} (hz : Z u v) : M.Reaches i u ↔ N.Reaches i v := by
  have hbisim := h.isBisimulation hM hN
  constructor
  · intro hu
    obtain ⟨v', hv', hz'⟩ := hbisim.matches.exists_reaches (hbisim.zigzag i) hu
    rwa [h.right_unique hz hz']
  · intro hv
    obtain ⟨u', hu', hz'⟩ := hbisim.matches.symm.exists_reaches (hbisim.zigzag i).symm hv
    rwa [h.left_unique hz hz']

/-- **The shift respects isomorphism.** -/
theorem IsIsomorphism.shift (h : IsIsomorphism M N Z) (hM : M.Closed) (hN : N.Closed) :
    IsIsomorphism (M.shift i) (N.shift i) (shiftRel M N Z i) where
  mem := fun ⟨hu, hv, _⟩ ↦ ⟨hu, hv⟩
  total_left :=
    ((h.isBisimulation hM hN).matches.shift ((h.isBisimulation hM hN).zigzag i)).total_left
  total_right :=
    ((h.isBisimulation hM hN).matches.shift ((h.isBisimulation hM hN).zigzag i)).total_right
  left_unique := fun ⟨_, _, hz⟩ ⟨_, _, hz'⟩ ↦ h.left_unique hz hz'
  right_unique := fun ⟨_, _, hz⟩ ⟨_, _, hz'⟩ ↦ h.right_unique hz hz'
  val_eq := fun ⟨_, _, hz⟩ ↦ h.val_eq hz
  rel_iff := fun ⟨_, _, hz⟩ ⟨_, _, hz'⟩ ↦ and_congr (h.reaches_iff hM hN hz)
    (and_congr (h.reaches_iff hM hN hz') (h.rel_iff hz hz'))
  designated_iff := fun ⟨_, _, hz⟩ ↦ h.reaches_iff hM hN hz

/-- **A second shift changes nothing.** -/
theorem isIsomorphism_shift_shift :
    IsIsomorphism ((M.shift i).shift i) (M.shift i) fun u v ↦ u = v ∧ M.Reaches i u where
  mem := fun ⟨he, hu⟩ ↦ ⟨Model.reaches_shift_iff.2 hu, he ▸ hu⟩
  total_left hu := ⟨_, rfl, Model.reaches_shift_iff.1 hu⟩
  total_right hv := ⟨_, rfl, hv⟩
  left_unique := fun ⟨he, _⟩ ⟨he', _⟩ ↦ he.trans he'.symm
  right_unique := fun ⟨he, _⟩ ⟨he', _⟩ ↦ he.symm.trans he'
  val_eq := fun ⟨he, _⟩ ↦ congrArg M.val he
  rel_iff := by
    rintro j u u' v v' ⟨rfl, hu⟩ ⟨rfl, hu'⟩
    exact ⟨fun h ↦ h.2.2,
      fun h ↦ ⟨Model.reaches_shift_iff.2 hu, Model.reaches_shift_iff.2 hu', h⟩⟩
  designated_iff := by
    rintro u v ⟨rfl, hu⟩
    exact Model.reaches_shift_iff

end Kripke
