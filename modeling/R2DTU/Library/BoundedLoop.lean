import Mathlib.Data.Sum.Basic
import Mathlib.Logic.Function.Iterate
import Mathlib.Tactic.Choose
import Mathlib.Data.Nat.Basic

/-!
# Loops as bounded iteration of a body

A `while` loop is a **body** `σ → σ ⊕ ρ`: `Sum.inl` goes round again with a new state, `Sum.inr`
leaves the loop with a result. `run body fuel s` goes round at most `fuel` times and is `none` when
the bound is used up, so a loop that never leaves is `none` at every bound and nothing is invented
for it.

## The two rules

* `run_induct` is partial correctness: an invariant kept by every round and sufficient at every exit
  holds of whatever the loop returns. No bound on the fuel is needed.
* `run_total` is total correctness: with a measure that every round decreases, any fuel above the
  measure is enough and the result satisfies the exit condition.

`run_within` is the second rule for a bound that is not a function of the state. `run_mono` says
that fuel is only a bound: more of it never changes a result. `exists_rounds` is what is left when
no fuel is enough.
-/

namespace BoundedLoop

universe u v

variable {σ : Type u} {ρ : Type v}

/-- Go round the loop `body` at most `fuel` times; `none` when the bound is reached first. -/
def run (body : σ → σ ⊕ ρ) : ℕ → σ → Option ρ
  | 0, _ => none
  | fuel + 1, s =>
    match body s with
    | Sum.inl s' => run body fuel s'
    | Sum.inr r => some r

variable {body : σ → σ ⊕ ρ}

@[simp] theorem run_zero (s : σ) : run body 0 s = none := rfl

theorem run_succ_of_inl {s s' : σ} (h : body s = Sum.inl s') (fuel : ℕ) :
    run body (fuel + 1) s = run body fuel s' := by
  simp only [run, h]

theorem run_succ_of_inr {s : σ} {r : ρ} (h : body s = Sum.inr r) (fuel : ℕ) :
    run body (fuel + 1) s = some r := by
  simp only [run, h]

/-- **Fuel is only a bound**: a result found within some fuel is found within any larger one. -/
theorem run_mono {fuel fuel' : ℕ} (hle : fuel ≤ fuel') {s : σ} {r : ρ}
    (h : run body fuel s = some r) : run body fuel' s = some r := by
  induction fuel generalizing fuel' s with
  | zero => simp at h
  | succ fuel ih =>
    obtain ⟨k, rfl⟩ : ∃ k, fuel' = k + 1 := ⟨fuel' - 1, by omega⟩
    rcases hb : body s with s' | r'
    · rw [run_succ_of_inl hb] at h ⊢
      exact ih (by omega) h
    · rw [run_succ_of_inr hb] at h ⊢
      exact h

/-- **A loop that never leaves** goes round for ever: no bound is enough, and the states it goes
through are an infinite sequence. -/
theorem exists_rounds {s : σ} (h : ∀ fuel, run body fuel s = none) :
    ∃ f : ℕ → σ, f 0 = s ∧ ∀ n, body (f n) = Sum.inl (f (n + 1)) := by
  have hnext : ∀ s : { s // ∀ fuel, run body fuel s = none },
      ∃ s' : { s // ∀ fuel, run body fuel s = none }, body s.1 = Sum.inl s'.1 := by
    rintro ⟨s, hs⟩
    rcases hb : body s with s' | r
    · refine ⟨⟨s', fun fuel ↦ ?_⟩, rfl⟩
      rw [← run_succ_of_inl hb]
      exact hs (fuel + 1)
    · have hsome := hs 1
      rw [run_succ_of_inr hb] at hsome
      exact absurd hsome (by simp)
  choose next hnext using hnext
  refine ⟨fun n ↦ (next^[n] ⟨s, h⟩).1, rfl, fun n ↦ ?_⟩
  show body (next^[n] ⟨s, h⟩).1 = Sum.inl (next^[n + 1] ⟨s, h⟩).1
  rw [Function.iterate_succ_apply']
  exact hnext _

/-- **Partial correctness.** An invariant kept round by round gives the exit condition of the
result, whatever the fuel. -/
theorem run_induct {Inv : σ → Prop} {Post : ρ → Prop}
    (step : ∀ {s s'}, Inv s → body s = Sum.inl s' → Inv s')
    (exit : ∀ {s r}, Inv s → body s = Sum.inr r → Post r)
    {fuel : ℕ} {s : σ} {r : ρ} (hs : Inv s) (h : run body fuel s = some r) : Post r := by
  induction fuel generalizing s with
  | zero => simp at h
  | succ fuel ih =>
    rcases hb : body s with s' | r'
    · rw [run_succ_of_inl hb] at h
      exact ih (step hs hb) h
    · rw [run_succ_of_inr hb] at h
      obtain rfl := Option.some.inj h
      exact exit hs hb

/-- **Total correctness.** When every round decreases `measure`, fuel above the measure is enough,
and the result satisfies the exit condition. -/
theorem run_total {Inv : σ → Prop} {Post : ρ → Prop} (measure : σ → ℕ)
    (step : ∀ {s s'}, Inv s → body s = Sum.inl s' → Inv s' ∧ measure s' < measure s)
    (exit : ∀ {s r}, Inv s → body s = Sum.inr r → Post r)
    {fuel : ℕ} {s : σ} (hs : Inv s) (hfuel : measure s < fuel) :
    ∃ r, run body fuel s = some r ∧ Post r := by
  induction fuel generalizing s with
  | zero => omega
  | succ fuel ih =>
    rcases hb : body s with s' | r
    · obtain ⟨hs', hlt⟩ := step hs hb
      rw [run_succ_of_inl hb]
      exact ih hs' (by omega)
    · exact ⟨r, run_succ_of_inr hb fuel, exit hs hb⟩

/-- Total correctness where the bound is not a function of the state: the invariant carries it. -/
theorem run_within {Inv : ℕ → σ → Prop} {Post : ρ → Prop}
    (step : ∀ {k s s'}, Inv k s → body s = Sum.inl s' → ∃ k' < k, Inv k' s')
    (exit : ∀ {k s r}, Inv k s → body s = Sum.inr r → Post r)
    {k fuel : ℕ} {s : σ} (hs : Inv k s) (hfuel : k < fuel) :
    ∃ r, run body fuel s = some r ∧ Post r := by
  induction fuel generalizing k s with
  | zero => omega
  | succ fuel ih =>
    rcases hb : body s with s' | r
    · obtain ⟨k', hlt, hs'⟩ := step hs hb
      rw [run_succ_of_inl hb]
      exact ih hs' (by omega)
    · exact ⟨r, run_succ_of_inr hb fuel, exit hs hb⟩

/-- Termination alone, for a loop whose measure decreases from every state. -/
theorem run_isSome (measure : σ → ℕ)
    (step : ∀ {s s'}, body s = Sum.inl s' → measure s' < measure s)
    {fuel : ℕ} {s : σ} (hfuel : measure s < fuel) : (run body fuel s).isSome := by
  have htotal := @run_total σ ρ body (fun _ ↦ True) (fun _ ↦ True) measure
    (fun _ hb ↦ ⟨trivial, step hb⟩) (fun _ _ ↦ trivial) fuel s trivial hfuel
  obtain ⟨r, hr, -⟩ := htotal
  rw [hr]
  rfl

end BoundedLoop
