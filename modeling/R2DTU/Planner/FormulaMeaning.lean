import R2DTU.Planner.Formula

/-!
# What a formula means

A formula is built by calls, each of which gets ids that earlier calls returned and returns an id
itself. `build` runs the calls on a fresh object and keeps, beside the arena, the **tree** that each
returned id stands for; a call with an id that nothing returned is not a use of the builders, and
`build` is `none` there (`isSome_step_iff`).

`denotes_build` relates the two: evaluation from an id that was returned gives the truth value of
its tree. It rests on two facts about the arena.

* `foldFrom_append`: the recursion from an index only sees smaller ones, so that components added
  later change nothing.
* `valuate_component`: a component whose arguments have the values of their trees has the value of
  its own.

That the recursion ends is part of the statement: a value is found with any fuel above the index.
-/

namespace Del

/-- Propositional formulas as trees. -/
inductive PropTree
  | top
  | bot
  | prop (name : String)
  | not (tree : PropTree)
  | and (trees : List PropTree)
  | or (trees : List PropTree)

namespace PropTree

mutual

/-- The truth value under the true propositions. An empty conjunction is false, and so is an empty
disjunction. -/
def holds (propositions : Finset String) : PropTree → Bool
  | top => true
  | bot => false
  | prop name => decide (name ∈ propositions)
  | not tree => !tree.holds propositions
  | and trees => allHold propositions trees && !trees.isEmpty
  | or trees => anyHolds propositions trees

/-- All of them hold. -/
def allHold (propositions : Finset String) : List PropTree → Bool
  | [] => true
  | tree :: trees => tree.holds propositions && allHold propositions trees

/-- One of them holds. -/
def anyHolds (propositions : Finset String) : List PropTree → Bool
  | [] => false
  | tree :: trees => tree.holds propositions || anyHolds propositions trees

end

end PropTree

/-! ### Calls of the builders -/

/-- A call of a builder. -/
inductive BuilderCall
  | top
  | bot
  | prop (name : String)
  | not (formula : ℕ)
  | and (formulas : List ℕ)
  | or (formulas : List ℕ)
  deriving DecidableEq

namespace BuilderCall

/-- The ids a call is given. -/
def arguments : BuilderCall → List ℕ
  | top | bot | prop _ => []
  | not i => [i]
  | and is | or is => is

/-- The call itself. -/
def call (f : Formula) : BuilderCall → Formula × ℕ
  | top => f.fTop
  | bot => f.fBot
  | prop name => f.fProp name
  | not i => f.fNot i
  | and is => f.fAnd is
  | or is => f.fOr is

/-- The component a call appends. -/
def component : BuilderCall → FormulaComponent
  | top => .top
  | bot => .bot
  | prop name => .prop name
  | not i => .not i
  | and is => .and is
  | or is => .or is

/-- The tree a call builds, from the trees of its arguments. -/
def tree (denote : ℕ → Option PropTree) : BuilderCall → Option PropTree
  | top => some .top
  | bot => some .bot
  | prop name => some (.prop name)
  | not i => (denote i).map .not
  | and is => (is.mapM denote).map .and
  | or is => (is.mapM denote).map .or

theorem call_eq (f : Formula) (c : BuilderCall) : c.call f = f.emplaceBack c.component := by
  cases c <;> rfl

theorem children_component (c : BuilderCall) : c.component.children = c.arguments := by
  cases c <;> rfl

theorem isSome_mapM_iff {denote : ℕ → Option PropTree} {is : List ℕ} :
    (is.mapM denote).isSome ↔ ∀ i ∈ is, (denote i).isSome := by
  induction is with
  | nil => simp
  | cons i is ih =>
    rw [List.forall_mem_cons, ← ih, List.mapM_cons]
    cases denote i with
    | none => simp
    | some t => cases is.mapM denote <;> simp

/-- A call builds a tree when all its arguments have one. -/
theorem isSome_tree_iff {denote : ℕ → Option PropTree} {c : BuilderCall} :
    (c.tree denote).isSome ↔ ∀ i ∈ c.arguments, (denote i).isSome := by
  cases c with
  | not i => simp [tree, arguments]
  | and is => rw [tree, Option.isSome_map, isSome_mapM_iff, arguments]
  | or is => rw [tree, Option.isSome_map, isSome_mapM_iff, arguments]
  | _ => simp [tree, arguments]

end BuilderCall

/-- A formula under construction, with the ids returned so far and the trees they stand for. -/
structure Building where
  /-- The formula so far. -/
  formula : Formula
  /-- The ids that calls have returned, with what they stand for. -/
  returned : List (ℕ × PropTree)

namespace Building

/-- The tree of an id that was returned. -/
def denote (b : Building) (i : ℕ) : Option PropTree := b.returned.lookup i

/-- One call, when its arguments were returned before. -/
def step (b : Building) (c : BuilderCall) : Option Building :=
  (c.tree b.denote).map fun t ↦
    ⟨(c.call b.formula).1, b.returned ++ [((c.call b.formula).2, t)]⟩

/-- **A call is legal** when each of its arguments was returned by an earlier call. -/
theorem isSome_step_iff {b : Building} {c : BuilderCall} :
    (b.step c).isSome ↔ ∀ i ∈ c.arguments, i ∈ b.returned.map Prod.fst := by
  rw [step, Option.isSome_map, BuilderCall.isSome_tree_iff]
  refine forall₂_congr fun i _ ↦ ?_
  rw [denote, List.lookup_isSome_iff, List.mem_map]
  exact exists_congr fun p ↦ and_congr_right fun _ ↦ beq_iff_eq.trans eq_comm

end Building

/-- The calls one after the other, on a fresh object. -/
def build (calls : List BuilderCall) : Option Building :=
  calls.foldlM Building.step ⟨Formula.empty, []⟩

/-! ### Components and trees -/

namespace FormulaComponent

variable {propositions : Finset String} {value value' : ℕ → Option Bool}
  {denote : ℕ → Option PropTree}

theorem valuateAll_congr {is : List ℕ} (h : ∀ i ∈ is, value i = value' i) :
    valuateAll value is = valuateAll value' is := by
  induction is with
  | nil => rfl
  | cons i is ih =>
    rw [valuateAll, valuateAll, h i List.mem_cons_self,
      ih fun j hj ↦ h j (List.mem_cons_of_mem _ hj)]

theorem valuateAny_congr {is : List ℕ} (h : ∀ i ∈ is, value i = value' i) :
    valuateAny value is = valuateAny value' is := by
  induction is with
  | nil => rfl
  | cons i is ih =>
    rw [valuateAny, valuateAny, h i List.mem_cons_self,
      ih fun j hj ↦ h j (List.mem_cons_of_mem _ hj)]

/-- Evaluation looks at the children only. -/
theorem valuate_congr {c : FormulaComponent} (h : ∀ i ∈ c.children, value i = value' i) :
    c.valuate propositions value = c.valuate propositions value' := by
  cases c with
  | not i => rw [valuate, valuate, h i (List.mem_singleton_self i)]
  | and is =>
    have hall : valuateAll value is = valuateAll value' is := valuateAll_congr h
    rw [valuate, valuate, hall]
  | or is => exact valuateAny_congr h
  | _ => rfl

theorem valuateAll_of_mapM {is : List ℕ} {ts : List PropTree} (hts : is.mapM denote = some ts)
    (h : ∀ i ∈ is, ∀ t, denote i = some t → value i = some (t.holds propositions)) :
    valuateAll value is = some (PropTree.allHold propositions ts) ∧ is.length = ts.length := by
  induction is generalizing ts with
  | nil =>
    obtain rfl := Option.some.inj hts
    exact ⟨rfl, rfl⟩
  | cons i is ih =>
    rw [List.mapM_cons] at hts
    obtain ⟨t, ht, hrest⟩ := Option.bind_eq_some_iff.1 hts
    obtain ⟨ts', hts', he⟩ := Option.bind_eq_some_iff.1 hrest
    obtain rfl := Option.some.inj he
    obtain ⟨hall, hlength⟩ := ih hts' fun j hj ↦ h j (List.mem_cons_of_mem _ hj)
    refine ⟨?_, congrArg (· + 1) hlength⟩
    rw [valuateAll, h i List.mem_cons_self t ht, PropTree.allHold]
    cases t.holds propositions with
    | true => exact hall
    | false => rfl

theorem valuateAny_of_mapM {is : List ℕ} {ts : List PropTree} (hts : is.mapM denote = some ts)
    (h : ∀ i ∈ is, ∀ t, denote i = some t → value i = some (t.holds propositions)) :
    valuateAny value is = some (PropTree.anyHolds propositions ts) := by
  induction is generalizing ts with
  | nil =>
    obtain rfl := Option.some.inj hts
    rfl
  | cons i is ih =>
    rw [List.mapM_cons] at hts
    obtain ⟨t, ht, hrest⟩ := Option.bind_eq_some_iff.1 hts
    obtain ⟨ts', hts', he⟩ := Option.bind_eq_some_iff.1 hrest
    obtain rfl := Option.some.inj he
    rw [valuateAny, h i List.mem_cons_self t ht, PropTree.anyHolds]
    cases t.holds propositions with
    | true => rfl
    | false => exact ih hts' fun j hj ↦ h j (List.mem_cons_of_mem _ hj)

/-- **One component**: when its arguments have the values of their trees, it has the value of the
tree that was built from them. -/
theorem valuate_component {c : BuilderCall} {t : PropTree} (ht : c.tree denote = some t)
    (h : ∀ i ∈ c.arguments, ∀ t, denote i = some t → value i = some (t.holds propositions)) :
    c.component.valuate propositions value = some (t.holds propositions) := by
  cases c with
  | top =>
    obtain rfl := Option.some.inj ht
    rfl
  | bot =>
    obtain rfl := Option.some.inj ht
    rfl
  | prop name =>
    obtain rfl := Option.some.inj ht
    rfl
  | not i =>
    obtain ⟨t', ht', rfl⟩ := Option.map_eq_some_iff.1 ht
    have hi := h i (List.mem_singleton_self i) t' ht'
    rw [BuilderCall.component, valuate, hi, Option.map_some, PropTree.holds]
  | and is =>
    obtain ⟨ts, hts, rfl⟩ := Option.map_eq_some_iff.1 ht
    obtain ⟨hall, hlength⟩ := valuateAll_of_mapM hts h
    rw [BuilderCall.component, valuate, hall, Option.map_some, PropTree.holds, hlength]
    cases ts <;> rfl
  | or is =>
    obtain ⟨ts, hts, rfl⟩ := Option.map_eq_some_iff.1 ht
    rw [BuilderCall.component, valuate, valuateAny_of_mapM hts h, PropTree.holds]

end FormulaComponent

namespace Formula

/-- **Components added later change nothing**: the recursion from an index of an acyclic arena stays
below it. -/
theorem foldFrom_append {α : Type} {step : (ℕ → Option α) → FormulaComponent → Option α}
    {all more : List FormulaComponent} (hacyclic : Acyclic all)
    (hstep : ∀ {value value' : ℕ → Option α} {c : FormulaComponent},
      (∀ j ∈ c.children, value j = value' j) → step value c = step value' c)
    {fuel i : ℕ} (hi : i < all.length) :
    foldFrom step (all ++ more) fuel i = foldFrom step all fuel i := by
  induction fuel generalizing i with
  | zero => rfl
  | succ fuel ih =>
    have hget : all[i]? = some all[i] := List.getElem?_eq_getElem hi
    have hchild := hacyclic i hi
    rw [hget, Option.map_some, Option.getD_some] at hchild
    rw [foldFrom, foldFrom, List.getElem?_append_left hi, hget, Option.bind_some, Option.bind_some]
    refine hstep fun j hj ↦ ?_
    have hji := hchild j hj
    exact ih (by omega)

end Formula

/-! ### Trees and values -/

/-- The value of an arena at an index, with any fuel above the index. -/
def ValueAt (f : Formula) (propositions : Finset String) (i : ℕ) (b : Bool) : Prop :=
  ∀ fuel > i, Formula.foldFrom (FormulaComponent.valuate propositions) f.formulas fuel i = some b

/-- **The invariant**: the ids are the indices, components refer to smaller ones, and every id has
the value of its tree. -/
structure Building.Denotes (b : Building) : Prop where
  /-- An id is a place. -/
  ids : b.returned.map Prod.fst = List.range b.formula.formulas.length
  /-- A component refers to older ones. -/
  acyclic : Formula.Acyclic b.formula.formulas
  /-- What an id stands for is what is evaluated. -/
  valueAt {i : ℕ} {t : PropTree} (h : (i, t) ∈ b.returned) (propositions : Finset String) :
    ValueAt b.formula propositions i (t.holds propositions)

namespace Building

variable {b b' : Building} {c : BuilderCall} {calls : List BuilderCall}

theorem Denotes.lt_length (h : b.Denotes) {i : ℕ} {t : PropTree} (hi : (i, t) ∈ b.returned) :
    i < b.formula.formulas.length := by
  have hmem := List.mem_map_of_mem (f := Prod.fst) hi
  rw [h.ids] at hmem
  exact List.mem_range.1 hmem

theorem mem_of_denote {i : ℕ} {t : PropTree} (h : b.denote i = some t) :
    (i, t) ∈ b.returned := by
  obtain ⟨l₁, l₂, he, -⟩ := List.lookup_eq_some_iff.1 h
  rw [he]
  exact List.mem_append_right _ List.mem_cons_self

/-- **What a call does**: it appends its component, makes it the root and returns its index. -/
theorem step_eq_some_iff :
    b.step c = some b' ↔ ∃ t, c.tree b.denote = some t ∧
      b' = ⟨⟨b.formula.formulas.length, b.formula.formulas ++ [c.component]⟩,
        b.returned ++ [(b.formula.formulas.length, t)]⟩ := by
  rw [step, Option.map_eq_some_iff, BuilderCall.call_eq]
  exact exists_congr fun t ↦ and_congr_right fun _ ↦ eq_comm

/-- **One call** keeps the invariant. -/
theorem Denotes.step (h : b.Denotes) (hb : b.step c = some b') : b'.Denotes := by
  obtain ⟨t, ht, rfl⟩ := step_eq_some_iff.1 hb
  -- what the arguments refer to was there before
  have hargument : ∀ i ∈ c.arguments, i < b.formula.formulas.length := by
    intro i hi
    have hsome := BuilderCall.isSome_tree_iff.1 (Option.isSome_of_eq_some ht) i hi
    obtain ⟨t', ht'⟩ := Option.isSome_iff_exists.1 hsome
    exact h.lt_length (mem_of_denote ht')
  have hkept : ∀ {i : ℕ} (fuel : ℕ) (propositions : Finset String),
      i < b.formula.formulas.length →
      Formula.foldFrom (FormulaComponent.valuate propositions)
          (b.formula.formulas ++ [c.component]) fuel i =
        Formula.foldFrom (FormulaComponent.valuate propositions) b.formula.formulas fuel i :=
    fun fuel propositions hi ↦ Formula.foldFrom_append h.acyclic FormulaComponent.valuate_congr hi
  refine ⟨?_, ?_, fun {i t'} hi propositions fuel hfuel ↦ ?_⟩
  · rw [List.map_append, h.ids, List.length_append, List.length_singleton, List.range_succ]
    rfl
  · refine (Formula.wellBuilt_emplaceBack (f := b.formula) h.acyclic fun j hj ↦ ?_).2
    exact hargument j (BuilderCall.children_component c ▸ hj)
  · rcases List.mem_append.1 hi with hold | hnew
    · rw [hkept fuel propositions (h.lt_length hold)]
      exact h.valueAt hold propositions fuel hfuel
    · obtain ⟨rfl, rfl⟩ := Prod.mk.inj (List.mem_singleton.1 hnew)
      obtain ⟨fuel, rfl⟩ : ∃ k, fuel = k + 1 := ⟨fuel - 1, by omega⟩
      rw [Formula.foldFrom, List.getElem?_concat_length, Option.bind_some]
      refine FormulaComponent.valuate_component ht fun j hj s hs ↦ ?_
      have hj' := hargument j hj
      rw [hkept fuel propositions hj']
      exact h.valueAt (mem_of_denote hs) propositions fuel (by omega)

/-- **All calls.** -/
theorem Denotes.foldlM (h : b.Denotes) (hb : calls.foldlM Building.step b = some b') :
    b'.Denotes := by
  induction calls generalizing b with
  | nil => exact Option.some.inj hb ▸ h
  | cons c calls ih =>
    rw [List.foldlM_cons] at hb
    obtain ⟨b₁, hb₁, hrest⟩ := Option.bind_eq_some_iff.1 hb
    exact ih (h.step hb₁) hrest

/-- What was returned stays returned. -/
theorem returned_prefix (hb : calls.foldlM Building.step b = some b') :
    b.returned <+: b'.returned := by
  induction calls generalizing b with
  | nil => exact Option.some.inj hb ▸ List.prefix_refl _
  | cons c calls ih =>
    rw [List.foldlM_cons] at hb
    obtain ⟨b₁, hb₁, hrest⟩ := Option.bind_eq_some_iff.1 hb
    obtain ⟨t, -, rfl⟩ := step_eq_some_iff.1 hb₁
    exact (List.prefix_append _ _).trans (ih hrest)

end Building

theorem denotes_build {calls : List BuilderCall} {b : Building} (h : build calls = some b) :
    b.Denotes := by
  have hstart : Building.Denotes ⟨Formula.empty, []⟩ :=
    ⟨rfl, fun i hi ↦ absurd hi (Nat.not_lt_zero i), fun h ↦ absurd h List.not_mem_nil⟩
  exact hstart.foldlM h

/-- The root is the id that the last call returned. -/
theorem getLast?_returned_build {calls : List BuilderCall} {b : Building}
    (h : build calls = some b) (hne : calls ≠ []) :
    ∃ t, b.returned.getLast? = some (b.formula.root, t) := by
  obtain ⟨calls, c, rfl⟩ := List.eq_nil_or_concat calls |>.resolve_left hne
  rw [List.concat_eq_append, build, List.foldlM_append] at h
  obtain ⟨b₁, -, hlast⟩ := Option.bind_eq_some_iff.1 h
  rw [List.foldlM_cons] at hlast
  obtain ⟨b₂, hstep, hnil⟩ := Option.bind_eq_some_iff.1 hlast
  obtain rfl := Option.some.inj hnil
  obtain ⟨t, -, rfl⟩ := Building.step_eq_some_iff.1 hstep
  exact ⟨t, List.getLast?_concat⟩

/-- **Formulas mean what was built.** After any calls in which every argument was returned before,
evaluation of the formula ends with the truth value of the tree that the last call built; and
whatever calls follow, every id that was returned keeps the value of its tree. -/
theorem valuate_build (calls : List BuilderCall) (b : Building) (h : build calls = some b)
    (hne : calls ≠ []) (propositions : Finset String) :
    (∃ t, b.returned.getLast? = some (b.formula.root, t) ∧
      b.formula.valuate? propositions = some (t.holds propositions) ∧
      ValueAt b.formula propositions b.formula.root (t.holds propositions)) ∧
    ∀ more b', build (calls ++ more) = some b' → ∀ i t, (i, t) ∈ b.returned →
      (i, t) ∈ b'.returned ∧ ValueAt b.formula propositions i (t.holds propositions) ∧
        ValueAt b'.formula propositions i (t.holds propositions) := by
  have hb := denotes_build h
  refine ⟨?_, fun more b' hb' i t hi ↦ ?_⟩
  · obtain ⟨t, ht⟩ := getLast?_returned_build h hne
    have hmem : (b.formula.root, t) ∈ b.returned := List.mem_of_getLast? ht
    have hvalue := hb.valueAt hmem propositions
    exact ⟨t, ht, hvalue _ (hb.lt_length hmem), hvalue⟩
  · have hmore : more.foldlM Building.step b = some b' := by
      rw [build, List.foldlM_append] at hb'
      obtain ⟨b₁, hb₁, hrest⟩ := Option.bind_eq_some_iff.1 hb'
      obtain rfl := Option.some.inj (h.symm.trans hb₁)
      exact hrest
    have hmem := (Building.returned_prefix hmore).subset hi
    exact ⟨hmem, hb.valueAt hi propositions, (denotes_build hb').valueAt hmem propositions⟩

namespace BigFormula

/-- The calls of the repository's test `Big_Formula1`. -/
def calls : List BuilderCall :=
  [.prop "first", .prop "second", .or [0, 1], .prop "third", .and [2, 3], .prop "fourth",
    .prop "fifth", .prop "sixth", .and [5, 6, 7], .not 8, .and [4, 9]]

/-- The tree it builds. -/
def tree : PropTree :=
  .and [.and [.or [.prop "first", .prop "second"], .prop "third"],
    .not (.and [.prop "fourth", .prop "fifth", .prop "sixth"])]

end BigFormula

theorem valuate_build_bigFormula :
    ∃ b, build BigFormula.calls = some b ∧
      b.returned.getLast? = some (b.formula.root, BigFormula.tree) ∧
      b.formula.valuate? {"second", "third", "fourth", "fifth"} = some true := by
  have hlast : (build BigFormula.calls).map (fun b ↦ b.returned.getLast?) =
      some (some (10, BigFormula.tree)) := rfl
  obtain ⟨b, hb, hlast⟩ := Option.map_eq_some_iff.1 hlast
  obtain ⟨⟨t, ht, hvalue, -⟩, -⟩ := valuate_build BigFormula.calls b hb (by decide)
    {"second", "third", "fourth", "fifth"}
  obtain ⟨hroot, rfl⟩ := Prod.mk.inj (Option.some.inj (hlast.symm.trans ht))
  refine ⟨b, hb, ht, ?_⟩
  rw [hvalue]
  decide

end Del
