import Mathlib.Data.Option.Basic
import Mathlib.Data.List.Basic

/-!
# Machines that answer

A machine takes inputs one at a time. Each of them changes its state and gives an output, or fails.
`outputs` lists what a run gives and is `none` when an input fails; `final` is the state it ends in.

Two machines that keep a relation between their states and answer alike have the same outputs
(`outputs_eq`). The inputs may be restricted to those a **guard** allows in the state the first
machine is in, so that a machine can be compared with one it follows only under care.
-/

universe u v w x

namespace Machine

variable {σ : Type u} {τ : Type v} {ι : Type w} {ω : Type x}

/-- The outputs of a run. -/
def outputs (step : σ → ι → Option (ω × σ)) : σ → List ι → Option (List ω)
  | _, [] => some []
  | s, i :: is => (step s i).bind fun r ↦ (outputs step r.2 is).map (r.1 :: ·)

/-- The state after a run. -/
def final (step : σ → ι → Option (ω × σ)) : σ → List ι → Option σ
  | s, [] => some s
  | s, i :: is => (step s i).bind fun r ↦ final step r.2 is

/-- The guard allows every input of the run. -/
def Guarded (step : σ → ι → Option (ω × σ)) (guard : σ → ι → Prop) : σ → List ι → Prop
  | _, [] => True
  | s, i :: is => guard s i ∧ ∀ r, step s i = some r → Guarded step guard r.2 is

variable {step : σ → ι → Option (ω × σ)} {step' : τ → ι → Option (ω × τ)}

theorem outputs_cons {s : σ} {i : ι} {o : ω} {s' : σ} (h : step s i = some (o, s'))
    (is : List ι) : outputs step s (i :: is) = (outputs step s' is).map (o :: ·) := by
  rw [outputs, h, Option.bind_some]

theorem final_cons {s : σ} {i : ι} {o : ω} {s' : σ} (h : step s i = some (o, s'))
    (is : List ι) : final step s (i :: is) = final step s' is := by
  rw [final, h, Option.bind_some]

theorem final_append (s : σ) (is js : List ι) :
    final step s (is ++ js) = (final step s is).bind fun t ↦ final step t js := by
  induction is generalizing s with
  | nil => rfl
  | cons i is ih =>
    rw [List.cons_append, final, final, Option.bind_assoc]
    exact congrArg (Option.bind (step s i)) (funext fun r ↦ ih r.2)

theorem Guarded.of_forall {guard : σ → ι → Prop} (h : ∀ s i, guard s i) (s : σ) (is : List ι) :
    Guarded step guard s is := by
  induction is generalizing s with
  | nil => trivial
  | cons i is ih => exact ⟨h s i, fun r _ ↦ ih r.2⟩

theorem Guarded.of_mem {guard : ι → Prop} {is : List ι} (h : ∀ i ∈ is, guard i) (s : σ) :
    Guarded step (fun _ i ↦ guard i) s is := by
  induction is generalizing s with
  | nil => trivial
  | cons i is ih =>
    exact ⟨h i List.mem_cons_self, fun r _ ↦ ih (fun j hj ↦ h j (List.mem_cons_of_mem i hj)) r.2⟩

/-- **The same outputs**, from related states and while the guard allows the inputs. -/
theorem outputs_eq {R : σ → τ → Prop} {guard : σ → ι → Prop}
    (hstep : ∀ {s t i}, R s t → guard s i →
      ∃ o s' t', step s i = some (o, s') ∧ step' t i = some (o, t') ∧ R s' t')
    {s : σ} {t : τ} {is : List ι} (h : R s t) (hg : Guarded step guard s is) :
    outputs step s is = outputs step' t is := by
  induction is generalizing s t with
  | nil => rfl
  | cons i is ih =>
    obtain ⟨o, s', t', hs, ht, h'⟩ := hstep h hg.1
    rw [outputs_cons hs, outputs_cons ht, ih h' (hg.2 _ hs)]

/-- **A machine that follows another one** as far as a guard allows, and fails where it does not. -/
theorem outputs_eq_some_iff {R : σ → τ → Prop} {guard : τ → ι → Prop}
    (hstep : ∀ {s t i}, R s t → guard t i →
      ∃ o s' t', step s i = some (o, s') ∧ step' t i = some (o, t') ∧ R s' t')
    (hfail : ∀ {s t i}, R s t → ¬ guard t i → step s i = none)
    {s : σ} {t : τ} {is : List ι} (h : R s t) {os : List ω} :
    outputs step s is = some os ↔ Guarded step' guard t is ∧ outputs step' t is = some os := by
  induction is generalizing s t os with
  | nil => exact (and_iff_right trivial).symm
  | cons i is ih =>
    by_cases hg : guard t i
    · obtain ⟨o, s', t', hs, ht, h'⟩ := hstep h hg
      have hguarded : Guarded step' guard t (i :: is) ↔ Guarded step' guard t' is := by
        rw [Guarded, ht]
        exact ⟨fun hall ↦ hall.2 _ rfl, fun hrest ↦ ⟨hg, fun r hr ↦ Option.some.inj hr ▸ hrest⟩⟩
      rw [outputs_cons hs, outputs_cons ht, hguarded, Option.map_eq_some_iff,
        Option.map_eq_some_iff]
      constructor
      · rintro ⟨os', hos', rfl⟩
        exact ⟨((ih h').1 hos').1, os', ((ih h').1 hos').2, rfl⟩
      · rintro ⟨hrest, os', hos', rfl⟩
        exact ⟨os', (ih h').2 ⟨hrest, hos'⟩, rfl⟩
    · rw [outputs, hfail h hg]
      exact iff_of_false (Option.some_ne_none os).symm fun hrun ↦ hg hrun.1.1

/-- A state that a run ends in is still related to one of the other machine. -/
theorem exists_related {R : σ → τ → Prop}
    (hstep : ∀ {s t i o s'}, R s t → step s i = some (o, s') → ∃ t', R s' t')
    {s s' : σ} {t : τ} {is : List ι} (h : R s t) (hfinal : final step s is = some s') :
    ∃ t', R s' t' := by
  induction is generalizing s t with
  | nil => exact ⟨t, Option.some.inj hfinal ▸ h⟩
  | cons i is ih =>
    obtain ⟨⟨o, s₁⟩, hs, hrest⟩ := Option.bind_eq_some_iff.1 hfinal
    obtain ⟨t₁, h₁⟩ := hstep h hs
    exact ih h₁ hrest

/-- **Related states** after a run of two machines that answer alike. -/
theorem final_related {R : σ → τ → Prop}
    (hstep : ∀ {s t} i, R s t → ∃ o s' t', step s i = some (o, s') ∧ step' t i = some (o, t') ∧
      R s' t')
    {s : σ} {t : τ} (h : R s t) (is : List ι) :
    ∃ s' t', final step s is = some s' ∧ final step' t is = some t' ∧ R s' t' := by
  induction is generalizing s t with
  | nil => exact ⟨s, t, rfl, rfl, h⟩
  | cons i is ih =>
    obtain ⟨o, s', t', hs, ht, h'⟩ := hstep i h
    rw [final_cons hs, final_cons ht]
    exact ih h'

/-- A machine that keeps an invariant under which it does not fail has outputs in every run. -/
theorem isSome_outputs {Inv : σ → Prop}
    (hstep : ∀ {s} i, Inv s → ∃ o s', step s i = some (o, s') ∧ Inv s')
    {s : σ} (h : Inv s) (is : List ι) : (outputs step s is).isSome := by
  induction is generalizing s with
  | nil => rfl
  | cons i is ih =>
    obtain ⟨o, s', hs, h'⟩ := hstep i h
    rw [outputs_cons hs, Option.isSome_map]
    exact ih h'

end Machine
