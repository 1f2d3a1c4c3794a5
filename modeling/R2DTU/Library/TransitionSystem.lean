import Mathlib.Logic.Relation

/-!
# Transition systems

A system has initial states and a step relation; a state is reachable when finitely many steps lead
to it from an initial one. `invariant` proves a property of all reachable states from its initial
and step cases, and `stable` a property that, once it holds, no further run undoes.
-/

universe u v

/-- Initial states and steps. -/
structure TransitionSystem (σ : Type u) where
  /-- Where a run may start. -/
  init : σ → Prop
  /-- What a step may do. -/
  step : σ → σ → Prop

namespace TransitionSystem

variable {σ : Type u} {S : TransitionSystem σ}

/-- Finitely many steps lead from an initial state to the state. -/
inductive Reachable (S : TransitionSystem σ) : σ → Prop
  | init {s : σ} (h : S.init s) : Reachable S s
  | step {s t : σ} (h : Reachable S s) (hst : S.step s t) : Reachable S t

/-- **Invariants**: a property that holds initially and is kept by every step. -/
theorem invariant {Inv : σ → Prop} (hinit : ∀ {s}, S.init s → Inv s)
    (hstep : ∀ {s t}, Inv s → S.step s t → Inv t) {s : σ} (h : S.Reachable s) : Inv s := by
  induction h with
  | init h => exact hinit h
  | step _ hst ih => exact hstep ih hst

theorem Reachable.run {s t : σ} (h : S.Reachable s) (hst : Relation.ReflTransGen S.step s t) :
    S.Reachable t := by
  induction hst with
  | refl => exact h
  | tail _ hstep ih => exact ih.step hstep

/-- Replaying commands that are all enabled stays among the reachable states. -/
theorem Reachable.replay {ι : Type v} {next : σ → ι → Option σ} {commands : List ι} {s t : σ}
    (h : S.Reachable s) (hnext : ∀ {s i t}, next s i = some t → S.step s t)
    (ht : commands.foldlM next s = some t) : S.Reachable t := by
  induction commands generalizing s with
  | nil =>
    obtain rfl := Option.some.inj ht
    exact h
  | cons command commands ih =>
    rw [List.foldlM_cons] at ht
    obtain ⟨u, hu, hrest⟩ := Option.bind_eq_some_iff.1 ht
    exact ih (h.step (hnext hu)) hrest

/-- **Stable properties**: what every step from a reachable state keeps, every run keeps. -/
theorem stable {P : σ → Prop} (hstep : ∀ {s t}, S.Reachable s → P s → S.step s t → P t) {s t : σ}
    (h : S.Reachable s) (hst : Relation.ReflTransGen S.step s t) (hs : P s) : P t := by
  induction hst with
  | refl => exact hs
  | tail hpre hlast ih => exact hstep (h.run hpre) ih hlast

end TransitionSystem
