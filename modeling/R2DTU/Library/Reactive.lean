import Mathlib.Data.Option.Basic
import Mathlib.Data.List.Basic

/-!
# Reactive programs and two runs of them

A reactive program reads and changes a state, puts out values and may fail. It does so through four
primitives (`read`, `update`, `emit`, `ofOption`) and the operations of a monad.

**Two runs.** `Respects R p` says that from states that `R` relates, `p` either fails twice or
returns the same value, puts out the same values and ends in related states. It has one rule for
every primitive and every way to combine programs, so that it is proved along the text of a program;
a program that only reads what `R` makes equal respects `R`. `respects_each` lifts this to whole
runs, and `Matched.outputs_eq` says what it is for.
-/

/-- A program on the state and the values put out so far. -/
def Reactive (σ ω α : Type) : Type := StateT (σ × List ω) Option α

namespace Reactive

variable {σ ω α β ι : Type}

instance : Monad (Reactive σ ω) := inferInstanceAs (Monad (StateT (σ × List ω) Option))

/-- The result is read off the state. -/
def read (f : σ → α) : Reactive σ ω α := fun s ↦ some (f s.1, s)

/-- The state changes and values are put out. -/
def update (f : σ → σ × List ω) : Reactive σ ω Unit :=
  fun s ↦ some ((), (f s.1).1, s.2 ++ (f s.1).2)

/-- The state changes. -/
def change (f : σ → σ) : Reactive σ ω Unit := update fun s ↦ (f s, [])

/-- One value is put out. -/
def emit (w : ω) : Reactive σ ω Unit := update fun s ↦ (s, [w])

/-- A result that may be missing. -/
def ofOption (x : Option α) : Reactive σ ω α := fun s ↦ x.map (·, s)

/-- The same program for all elements of a list, one after the other. -/
def each (p : ι → Reactive σ ω Unit) : List ι → Reactive σ ω Unit
  | [] => pure ()
  | i :: is => p i >>= fun _ ↦ each p is

/-- What a program puts out from a state; `none` when it fails. -/
def outputs (p : Reactive σ ω α) (s : σ) : Option (List ω) := (p (s, [])).map (·.2.2)

/-- The state in which a program ends. -/
def final (p : Reactive σ ω α) (s : σ) : Option σ := (p (s, [])).map (·.2.1)

/-! ### Running -/

theorem bind_run (p : Reactive σ ω α) (f : α → Reactive σ ω β) (s : σ × List ω) :
    (p >>= f) s = (p s).bind fun r ↦ f r.1 r.2 := rfl

theorem read_run (f : σ → α) (s : σ × List ω) :
    (read f : Reactive σ ω α) s = some (f s.1, s) := rfl

theorem update_run (f : σ → σ × List ω) (s : σ × List ω) :
    update f s = some ((), (f s.1).1, s.2 ++ (f s.1).2) := rfl

theorem change_run (f : σ → σ) (s : σ × List ω) : change f s = some ((), f s.1, s.2) := by
  rw [change, update_run, List.append_nil]

theorem emit_run (w : ω) (s : σ × List ω) : emit w s = some ((), s.1, s.2 ++ [w]) := rfl

theorem ofOption_run (x : Option α) (s : σ × List ω) :
    (ofOption x : Reactive σ ω α) s = x.map (·, s) := rfl

theorem each_nil_run (p : ι → Reactive σ ω Unit) (s : σ × List ω) :
    each p [] s = some ((), s) := rfl

theorem each_cons_run (p : ι → Reactive σ ω Unit) (i : ι) (is : List ι) (s : σ × List ω) :
    each p (i :: is) s = (p i s).bind fun r ↦ each p is r.2 := rfl

theorem each_singleton_run (p : ι → Reactive σ ω Unit) (i : ι) (s : σ × List ω) :
    each p [i] s = p i s := by
  rw [each_cons_run]
  cases p i s <;> rfl

theorem each_append_run (p : ι → Reactive σ ω Unit) (is is' : List ι) (s : σ × List ω) :
    each p (is ++ is') s = (each p is s).bind fun r ↦ each p is' r.2 := by
  induction is generalizing s with
  | nil => rfl
  | cons i is ih =>
    rw [List.cons_append, each_cons_run, each_cons_run, Option.bind_assoc]
    exact congrArg (Option.bind (p i s)) (funext fun r ↦ ih r.2)

/-! ### Two runs -/

section Respects

variable {R : σ → σ → Prop}

/-- Both runs failed, or they returned and put out the same and ended in related states. -/
def Matched (R : σ → σ → Prop) (x y : Option (α × σ × List ω)) : Prop :=
  Option.Rel (fun r r' ↦ r.1 = r'.1 ∧ R r.2.1 r'.2.1 ∧ r.2.2 = r'.2.2) x y

/-- **The same outputs** in runs that match. -/
theorem Matched.outputs_eq {x y : Option (α × σ × List ω)} (h : Matched R x y) :
    x.map (·.2.2) = y.map (·.2.2) := by
  cases h with
  | none => rfl
  | some h => exact congrArg some h.2.2

/-- **Two runs** from related states match. -/
structure Respects (R : σ → σ → Prop) (p : Reactive σ ω α) : Prop where
  matched {s t : σ} (out : List ω) : R s t → Matched R (p (s, out)) (p (t, out))

theorem respects_pure (a : α) : Respects R (pure a : Reactive σ ω α) :=
  ⟨fun _ h ↦ .some ⟨rfl, h, rfl⟩⟩

/-- What is read has to be the same in related states. -/
theorem respects_read {f : σ → α} (hf : ∀ {s t}, R s t → f s = f t) :
    Respects R (read f : Reactive σ ω α) :=
  ⟨fun _ h ↦ .some ⟨hf h, h, rfl⟩⟩

theorem respects_update {f : σ → σ × List ω}
    (hf : ∀ {s t}, R s t → R (f s).1 (f t).1 ∧ (f s).2 = (f t).2) : Respects R (update f) :=
  ⟨fun out h ↦ .some ⟨rfl, (hf h).1, congrArg (out ++ ·) (hf h).2⟩⟩

theorem respects_change {f : σ → σ} (hf : ∀ {s t}, R s t → R (f s) (f t)) :
    Respects R (change f : Reactive σ ω Unit) :=
  respects_update fun h ↦ ⟨hf h, rfl⟩

theorem respects_emit (w : ω) : Respects R (emit w) := respects_update fun h ↦ ⟨h, rfl⟩

theorem respects_ofOption (x : Option α) : Respects R (ofOption x : Reactive σ ω α) := by
  refine ⟨fun out h ↦ ?_⟩
  cases x with
  | none => exact .none
  | some a => exact .some ⟨rfl, h, rfl⟩

theorem Respects.bind {p : Reactive σ ω α} {f : α → Reactive σ ω β} (hp : Respects R p)
    (hf : ∀ a, Respects R (f a)) : Respects R (p >>= f) := by
  refine ⟨fun {s t} out h ↦ ?_⟩
  rw [bind_run, bind_run]
  cases hs : p (s, out) with
  | none =>
    cases ht : p (t, out) with
    | none => exact .none
    | some r' => exact absurd (hs ▸ ht ▸ hp.matched out h) Option.not_rel_none_some
  | some r =>
    cases ht : p (t, out) with
    | none => exact absurd (hs ▸ ht ▸ hp.matched out h) Option.not_rel_some_none
    | some r' =>
      obtain ⟨ha, hR, hout⟩ := Option.rel_some_some.1 (hs ▸ ht ▸ hp.matched out h)
      rw [Option.bind_some, Option.bind_some, ← ha]
      obtain ⟨a, s', out'⟩ := r
      obtain ⟨a', t', out''⟩ := r'
      obtain rfl : out' = out'' := hout
      exact (hf a).matched out' hR

theorem Respects.ite {c : Prop} [Decidable c] {p q : Reactive σ ω α} (hp : Respects R p)
    (hq : Respects R q) : Respects R (if c then p else q) := by
  split
  · exact hp
  · exact hq

theorem respects_each {p : ι → Reactive σ ω Unit} (hp : ∀ i, Respects R (p i)) (is : List ι) :
    Respects R (each p is) := by
  induction is with
  | nil => exact respects_pure ()
  | cons i is ih => exact (hp i).bind fun _ ↦ ih

end Respects

end Reactive
