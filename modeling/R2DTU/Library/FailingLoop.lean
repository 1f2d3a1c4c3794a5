import Mathlib.Data.List.Basic

/-!
# Loops that fail with a reason

A loop whose body may fail is a fold in the monad of exceptions.

**Where it fails.** `foldlM_eq_error_iff` says that the loop fails with a reason when its body does
at some element, in the state that the elements before it have led to. A body that keeps its state
wherever it does not fail gives that state at the end (`foldlM_eq_ok_iff`), and then the elements
before the failure are those at which the body idles (`foldlM_idle_eq_error_iff`).

**Without the reason.** `toOption` keeps that there is a failure and forgets why; it goes through
the operations of the monad and through loops.
-/

namespace Except

variable {ε σ ι α β : Type}

theorem ok_bind (a : α) (f : α → Except ε β) : ((.ok a : Except ε α) >>= f) = f a := rfl

theorem error_bind (e : ε) (f : α → Except ε β) :
    ((.error e : Except ε α) >>= f) = .error e := rfl

theorem map_eq_ok {f : α → β} {x : Except ε α} {b : β} (h : f <$> x = .ok b) :
    ∃ a, x = .ok a ∧ f a = b := by
  cases x with
  | error e => exact nomatch h
  | ok a => exact ⟨a, rfl, Except.ok.inj h⟩

theorem map_eq_error {f : α → β} {x : Except ε α} {e : ε} (h : f <$> x = .error e) :
    x = .error e := by
  cases x with
  | error e' => exact congrArg Except.error (Except.error.inj h)
  | ok a => exact nomatch h

theorem bind_eq_error {x : Except ε α} {f : α → Except ε β} {e : ε} (h : x >>= f = .error e) :
    x = .error e ∨ ∃ a, x = .ok a ∧ f a = .error e := by
  cases x with
  | error e' => exact Or.inl (congrArg Except.error (Except.error.inj h))
  | ok a => exact Or.inr ⟨a, rfl, h⟩

/-! ### Where a loop fails -/

section Loop

variable {f : σ → ι → Except ε σ} {s t : σ} {e : ε} {l : List ι}

/-- **The first failure** of a loop. -/
theorem foldlM_eq_error_iff :
    l.foldlM f s = .error e ↔
      ∃ before i after t, l = before ++ i :: after ∧ before.foldlM f s = .ok t ∧
        f t i = .error e := by
  induction l generalizing s with
  | nil =>
    refine iff_of_false nofun ?_
    rintro ⟨before, i, after, t, hl, -⟩
    exact absurd hl.symm (List.append_ne_nil_of_right_ne_nil _ (List.cons_ne_nil _ _))
  | cons a l ih =>
    rw [List.foldlM_cons]
    constructor
    · intro h
      cases ha : f s a with
      | error e' =>
        rw [ha, error_bind] at h
        exact ⟨[], a, l, s, rfl, rfl, ha.trans h⟩
      | ok s' =>
        rw [ha, ok_bind] at h
        obtain ⟨before, i, after, t, rfl, hbefore, hi⟩ := ih.1 h
        refine ⟨a :: before, i, after, t, rfl, ?_, hi⟩
        rw [List.foldlM_cons, ha, ok_bind, hbefore]
    · rintro ⟨before, i, after, t, hl, hbefore, hi⟩
      cases before with
      | nil =>
        obtain ⟨rfl, rfl⟩ := List.cons.inj hl
        rw [Except.ok.inj hbefore, hi, error_bind]
      | cons b before =>
        obtain ⟨rfl, rfl⟩ := List.cons.inj hl
        rw [List.foldlM_cons] at hbefore
        cases ha : f s a with
        | error e' =>
          rw [ha, error_bind] at hbefore
          exact nomatch hbefore
        | ok s' =>
          rw [ha, ok_bind] at hbefore
          exact ih.2 ⟨before, i, after, t, rfl, hbefore, hi⟩

/-- A loop whose body keeps the state or fails ends in that state when the body idles
everywhere. -/
theorem foldlM_eq_ok_iff (hf : ∀ i ∈ l, ∀ t, f s i = .ok t → t = s) :
    l.foldlM f s = .ok t ↔ t = s ∧ ∀ i ∈ l, f s i = .ok s := by
  induction l with
  | nil => exact ⟨fun h ↦ ⟨(Except.ok.inj h).symm, nofun⟩, fun h ↦ congrArg Except.ok h.1.symm⟩
  | cons a l ih =>
    rw [List.foldlM_cons, List.forall_mem_cons]
    cases ha : f s a with
    | error e => exact iff_of_false nofun fun h ↦ nomatch h.2.1
    | ok s' =>
      obtain rfl := hf a List.mem_cons_self s' ha
      rw [ok_bind, ih fun i hi ↦ hf i (List.mem_cons_of_mem a hi)]
      exact ⟨fun h ↦ ⟨h.1, rfl, h.2⟩, fun h ↦ ⟨h.1, h.2.2⟩⟩

/-- **The first failure** of a loop whose body keeps the state or fails. -/
theorem foldlM_idle_eq_error_iff (hf : ∀ i ∈ l, ∀ t, f s i = .ok t → t = s) :
    l.foldlM f s = .error e ↔
      ∃ before i after, l = before ++ i :: after ∧ (∀ b ∈ before, f s b = .ok s) ∧
        f s i = .error e := by
  rw [foldlM_eq_error_iff]
  constructor
  · rintro ⟨before, i, after, t, rfl, hbefore, hi⟩
    obtain ⟨rfl, hidle⟩ := (foldlM_eq_ok_iff fun b hb ↦
      hf b (List.mem_append_left _ hb)).1 hbefore
    exact ⟨before, i, after, rfl, hidle, hi⟩
  · rintro ⟨before, i, after, rfl, hbefore, hi⟩
    exact ⟨before, i, after, s, rfl, (foldlM_eq_ok_iff fun b hb ↦
      hf b (List.mem_append_left _ hb)).2 ⟨rfl, hbefore⟩, hi⟩

end Loop

/-! ### Without the reason -/

theorem toOption_bind (x : Except ε α) (f : α → Except ε β) :
    (x >>= f).toOption = x.toOption.bind fun a ↦ (f a).toOption := by
  cases x <;> rfl

theorem toOption_map (f : α → β) (x : Except ε α) : (f <$> x).toOption = x.toOption.map f := by
  cases x <;> rfl

/-- A loop without reasons is the loop of the body without reasons. -/
theorem toOption_foldlM {f : σ → ι → Except ε σ} {g : σ → ι → Option σ}
    (hf : ∀ s i, (f s i).toOption = g s i) (l : List ι) (s : σ) :
    (l.foldlM f s).toOption = l.foldlM g s := by
  induction l generalizing s with
  | nil => rfl
  | cons i l ih =>
    rw [List.foldlM_cons, List.foldlM_cons, toOption_bind, hf]
    exact congrArg (Option.bind (g s i)) (funext ih)

end Except
