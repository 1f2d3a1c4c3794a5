import Mathlib.Data.Finset.Basic
import Mathlib.Data.List.Basic

/-!
# Formulas as arenas

A `Formula` of the planner is not a tree but an **arena**: a growing vector of components that refer
to one another by index, and the index of the root. Evaluation and printing recurse through the
indices, so nothing in the data says that they end; both are therefore modelled by the same bounded
recursion `foldFrom`, which is `none` on an index outside the arena and when the bound is used up.

What makes them total is the order of construction: a builder only receives ids that an earlier call
returned, so every component refers to smaller indices (`Acyclic`). `foldFrom_isSome` is that
argument, made once. `BuiltFormula` carries the invariant as a field, so the planner can evaluate
its preconditions and goals without a failure case.
-/

namespace Del

/-- One entry of the arena: the tag of `Formula_Component` with the fields its constructor sets. -/
inductive FormulaComponent
  | top
  | bot
  | prop (name : String)
  | not (formula : ℕ)
  | and (formulas : List ℕ)
  | or (formulas : List ℕ)
  | believes (agent formula : ℕ)
  | everyoneBelieves (formula : ℕ)
  | commonKnowledge (formula : ℕ)
  deriving DecidableEq, Repr

namespace FormulaComponent

/-- The ids a component refers to. -/
def children : FormulaComponent → List ℕ
  | top | bot | prop _ => []
  | not i | believes _ i | everyoneBelieves i | commonKnowledge i => [i]
  | and is | or is => is

/-- The loop of the `And` case: `false` at the first false component. -/
def valuateAll (value : ℕ → Option Bool) : List ℕ → Option Bool
  | [] => some true
  | i :: is =>
    match value i with
    | some true => valuateAll value is
    | some false => some false
    | none => none

/-- The loop of the `Or` case: `true` at the first true component. -/
def valuateAny (value : ℕ → Option Bool) : List ℕ → Option Bool
  | [] => some false
  | i :: is =>
    match value i with
    | some true => some true
    | some false => valuateAny value is
    | none => none

/-- `Formula_Component::valuate`, given the values of the components it refers to. An empty
conjunction is false, and the three epistemic operators are not implemented. -/
def valuate (propositions : Finset String) (value : ℕ → Option Bool) :
    FormulaComponent → Option Bool
  | top => some true
  | bot => some false
  | prop name => some (decide (name ∈ propositions))
  | not i => (value i).map (!·)
  | and is => (valuateAll value is).map (· && decide (is.length > 0))
  | or is => valuateAny value is
  | believes _ _ => some false
  | everyoneBelieves _ => some false
  | commonKnowledge _ => some false

/-- `get_string_component`: the texts of several components, separated by semicolons. -/
def getStringComponent (text : ℕ → Option String) (is : List ℕ) : Option String :=
  (is.mapM text).map (String.intercalate ";")

/-- `Formula_Component::to_string`, given the texts of the components it refers to. -/
def toText (text : ℕ → Option String) : FormulaComponent → Option String
  | top => some "TOP"
  | bot => some "BOT"
  | prop name => some name
  | not i => (text i).map fun t ↦ "Not(" ++ t ++ ")"
  | and is => (getStringComponent text is).map fun t ↦ "And(" ++ t ++ ")"
  | or is => (getStringComponent text is).map fun t ↦ "Or(" ++ t ++ ")"
  | believes agent i => (text i).map fun t ↦ "Believes_" ++ toString agent ++ "(" ++ t ++ ")"
  | everyoneBelieves i => (text i).map fun t ↦ "Everyone_Believes(" ++ t ++ ")"
  | commonKnowledge i => (text i).map fun t ↦ "Common_Knowledge(" ++ t ++ ")"

theorem valuateAll_isSome {value : ℕ → Option Bool} {is : List ℕ}
    (h : ∀ i ∈ is, (value i).isSome) : (valuateAll value is).isSome := by
  induction is with
  | nil => rfl
  | cons i is ih =>
    obtain ⟨b, hb⟩ := Option.isSome_iff_exists.1 (h i (List.mem_cons_self ..))
    have hrest := ih fun j hj ↦ h j (List.mem_cons_of_mem _ hj)
    cases b <;> simp [valuateAll, hb, hrest]

theorem valuateAny_isSome {value : ℕ → Option Bool} {is : List ℕ}
    (h : ∀ i ∈ is, (value i).isSome) : (valuateAny value is).isSome := by
  induction is with
  | nil => rfl
  | cons i is ih =>
    obtain ⟨b, hb⟩ := Option.isSome_iff_exists.1 (h i (List.mem_cons_self ..))
    have hrest := ih fun j hj ↦ h j (List.mem_cons_of_mem _ hj)
    cases b <;> simp [valuateAny, hb, hrest]

theorem valuate_isSome (propositions : Finset String) {value : ℕ → Option Bool}
    {c : FormulaComponent} (h : ∀ i ∈ c.children, (value i).isSome) :
    (c.valuate propositions value).isSome := by
  cases c with
  | not i => simpa [valuate, children] using h
  | and is => simpa [valuate] using @valuateAll_isSome value is h
  | or is => exact valuateAny_isSome h
  | _ => rfl

theorem getStringComponent_isSome {text : ℕ → Option String} {is : List ℕ}
    (h : ∀ i ∈ is, (text i).isSome) : (getStringComponent text is).isSome := by
  have hm : (is.mapM text).isSome := by
    induction is with
    | nil => rfl
    | cons i is ih =>
      obtain ⟨t, ht⟩ := Option.isSome_iff_exists.1 (h i (List.mem_cons_self ..))
      obtain ⟨ts, hts⟩ := Option.isSome_iff_exists.1
        (ih fun j hj ↦ h j (List.mem_cons_of_mem _ hj))
      simp [List.mapM_cons, ht, hts]
  simpa [getStringComponent] using hm

theorem toText_isSome {text : ℕ → Option String} {c : FormulaComponent}
    (h : ∀ i ∈ c.children, (text i).isSome) : (c.toText text).isSome := by
  cases c with
  | and is => simpa [toText] using @getStringComponent_isSome text is h
  | or is => simpa [toText] using @getStringComponent_isSome text is h
  | top => rfl
  | bot => rfl
  | prop name => rfl
  | _ => simpa [toText, children] using h

end FormulaComponent

/-- `Formula`: the arena and the id of its root. -/
structure Formula where
  /-- The component that is evaluated. -/
  root : ℕ
  /-- All components, by their ids. -/
  formulas : List FormulaComponent
  deriving DecidableEq, Repr

namespace Formula

/-- A formula object before the first builder call. The source leaves `root` uninitialised. -/
def empty : Formula := ⟨0, []⟩

/-! ### Builders

Every builder appends one component, makes it the root and returns its id. -/

/-- Append a component, make it the root and return its id. -/
def emplaceBack (f : Formula) (c : FormulaComponent) : Formula × ℕ :=
  (⟨f.formulas.length, f.formulas ++ [c]⟩, f.formulas.length)

def fTop (f : Formula) : Formula × ℕ := f.emplaceBack .top

def fBot (f : Formula) : Formula × ℕ := f.emplaceBack .bot

def fProp (f : Formula) (prop : String) : Formula × ℕ := f.emplaceBack (.prop prop)

def fNot (f : Formula) (formula : ℕ) : Formula × ℕ := f.emplaceBack (.not formula)

def fAnd (f : Formula) (formulas : List ℕ) : Formula × ℕ := f.emplaceBack (.and formulas)

def fOr (f : Formula) (formulas : List ℕ) : Formula × ℕ := f.emplaceBack (.or formulas)

def fBelieves (f : Formula) (agent formula : ℕ) : Formula × ℕ :=
  f.emplaceBack (.believes agent formula)

def fEveryoneBelieves (f : Formula) (formula : ℕ) : Formula × ℕ :=
  f.emplaceBack (.everyoneBelieves formula)

def fCommonKnowledge (f : Formula) (formula : ℕ) : Formula × ℕ :=
  f.emplaceBack (.commonKnowledge formula)

/-! ### Recursion through the arena -/

/-- Recursion through the ids of an arena, `fuel` deep: `none` outside the arena and at depth
`fuel`. -/
def foldFrom {α : Type} (step : (ℕ → Option α) → FormulaComponent → Option α)
    (all : List FormulaComponent) : ℕ → ℕ → Option α
  | 0, _ => none
  | fuel + 1, i => (all[i]?).bind fun c ↦ step (foldFrom step all fuel) c

/-- `Formula::valuate` on an arbitrary arena. -/
def valuate? (f : Formula) (propositions : Finset String) : Option Bool :=
  foldFrom (FormulaComponent.valuate propositions) f.formulas f.formulas.length f.root

/-- `Formula::to_string` on an arbitrary arena. -/
def toText? (f : Formula) : Option String :=
  foldFrom FormulaComponent.toText f.formulas f.formulas.length f.root

/-- Every component refers to earlier ones only. -/
def Acyclic (all : List FormulaComponent) : Prop :=
  ∀ i < all.length, ∀ j ∈ (all[i]?.map FormulaComponent.children).getD [], j < i

/-- At least one builder was called, and every id it was given had been returned before. -/
def WellBuilt (f : Formula) : Prop := f.root < f.formulas.length ∧ Acyclic f.formulas

instance (all : List FormulaComponent) : Decidable (Acyclic all) :=
  inferInstanceAs (Decidable (∀ i < all.length,
    ∀ j ∈ (all[i]?.map FormulaComponent.children).getD [], j < i))

instance (f : Formula) : Decidable f.WellBuilt :=
  inferInstanceAs (Decidable (f.root < f.formulas.length ∧ Acyclic f.formulas))

/-- **The recursion is total on an acyclic arena**: indices decrease from a component to the ones it
refers to, so depth `i + 1` is enough from index `i`. -/
theorem foldFrom_isSome {α : Type} {step : (ℕ → Option α) → FormulaComponent → Option α}
    {all : List FormulaComponent} (hacyclic : Acyclic all)
    (hstep : ∀ {value : ℕ → Option α} {c : FormulaComponent},
      (∀ j ∈ c.children, (value j).isSome) → (step value c).isSome)
    {fuel i : ℕ} (hi : i < all.length) (hfuel : i < fuel) :
    (foldFrom step all fuel i).isSome := by
  induction fuel generalizing i with
  | zero => omega
  | succ fuel ih =>
    have hget : all[i]? = some all[i] := List.getElem?_eq_getElem hi
    have hchild := hacyclic i hi
    rw [hget, Option.map_some, Option.getD_some] at hchild
    rw [foldFrom, hget, Option.bind_some]
    refine hstep fun j hj ↦ ?_
    have hji := hchild j hj
    exact ih (by omega) (by omega)

theorem valuate?_isSome {f : Formula} (hf : f.WellBuilt) (propositions : Finset String) :
    (f.valuate? propositions).isSome :=
  foldFrom_isSome hf.2 (FormulaComponent.valuate_isSome propositions) hf.1 hf.1

theorem toText?_isSome {f : Formula} (hf : f.WellBuilt) : f.toText?.isSome :=
  foldFrom_isSome hf.2 FormulaComponent.toText_isSome hf.1 hf.1

/-- **A builder call keeps the invariant**, when the ids it is given are in the arena. -/
theorem wellBuilt_emplaceBack {f : Formula} (hf : Acyclic f.formulas) {c : FormulaComponent}
    (hc : ∀ j ∈ c.children, j < f.formulas.length) : (f.emplaceBack c).1.WellBuilt := by
  refine ⟨by simp [emplaceBack], fun i hi ↦ ?_⟩
  simp only [emplaceBack, List.length_append, List.length_singleton] at hi ⊢
  rcases Nat.lt_or_ge i f.formulas.length with hlt | hge
  · rw [List.getElem?_append_left hlt]
    exact hf i hlt
  · obtain rfl : i = f.formulas.length := by omega
    rw [List.getElem?_append_right le_rfl]
    simpa using hc

end Formula

/-- A formula the builders have produced: evaluation and printing cannot fail on it. -/
structure BuiltFormula where
  /-- The formula. -/
  formula : Formula
  /-- It came from the builders. -/
  wellBuilt : formula.WellBuilt
  deriving DecidableEq

namespace BuiltFormula

/-- `Formula::valuate`: whether the formula is true of a world with these propositions. -/
def valuate (f : BuiltFormula) (propositions : Finset String) : Bool :=
  (f.formula.valuate? propositions).get (Formula.valuate?_isSome f.wellBuilt propositions)

/-- `Formula::to_string`: the formula as it is written to the log. -/
def toText (f : BuiltFormula) : String :=
  f.formula.toText?.get (Formula.toText?_isSome f.wellBuilt)

/-- A formula that one builder call makes on a fresh object. -/
def single (c : FormulaComponent) (hc : c.children = []) : BuiltFormula :=
  ⟨(Formula.empty.emplaceBack c).1,
    Formula.wellBuilt_emplaceBack (by intro i hi; simp [Formula.empty] at hi) (by simp [hc])⟩

/-- `Formula f; f.f_top();` -/
def top : BuiltFormula := single .top rfl

/-- `Formula f; f.f_prop(name);` -/
def prop (name : String) : BuiltFormula := single (.prop name) rfl

@[simp] theorem valuate_top (propositions : Finset String) : top.valuate propositions = true := rfl

@[simp] theorem valuate_prop (name : String) (propositions : Finset String) :
    (prop name).valuate propositions = decide (name ∈ propositions) := rfl

end BuiltFormula

end Del
