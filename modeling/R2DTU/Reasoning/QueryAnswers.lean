import R2DTU.Reasoning.Registration

/-!
# The answers to a query

`query` substitutes every registered object for the variable, builds a formula, and keeps the
objects whose formula holds. A predicate that is not declared becomes the null formula, and
`isNull` is asked of the root only. So an undeclared predicate keeps its object out of the answers
when it is the whole query, and below a connective it counts as a formula with the truth value the
library gives to null.

What the formulas of the library mean is given by a Kripke structure (`DelDomain.Semantics`);
`Standard` is what is assumed of `evaluate_formula`, and nothing is assumed about the value of null.
`Query.Holds` is the meaning of the query itself, with the same structure and without the library's
formulas. `exists_buildFormula` relates the two by induction over the query, and
`query_eq_satisfying_iff` says for which queries the answers are the objects that satisfy them.
-/

namespace Reasoning

/-! ### What formulas mean -/

/-- A Kripke structure for the formulas of a state: its worlds, those that are designated, the
relation of each agent, what holds where, and the truth value of null. -/
structure DelDomain.Semantics (L : DelDomain) where
  /-- The worlds of the present state. -/
  World : Type
  /-- Those that may be the actual one. -/
  designated : World → Prop
  /-- What an agent takes to be possible. -/
  related : L.AgentId → World → World → Prop
  /-- What is true at a world. -/
  holds : L.PropositionId → World → Prop
  /-- What a formula is taken for that could not be built. -/
  nullValue : Prop

namespace DelDomain.Semantics

variable {L : DelDomain}

/-- Satisfaction of a formula in a world. -/
def Sat (M : L.Semantics) : DelFormula L.AgentId L.PropositionId → M.World → Prop
  | .null, _ => M.nullValue
  | .prop p, w => M.holds p w
  | .believes a inner, w => ∀ u, M.related a w u → M.Sat inner u
  | .not inner, w => ¬ M.Sat inner w
  | .and left right, w => M.Sat left w ∧ M.Sat right w
  | .or left right, w => M.Sat left w ∨ M.Sat right w

/-- **What is assumed** of `evaluate_formula` in a state: it tells what holds in all designated
worlds. -/
def Standard (M : L.Semantics) (d : L.Domain) (s : L.StateId) : Prop :=
  ∀ f, L.evaluateFormula d s f = true ↔ ∀ w, M.designated w → M.Sat f w

end DelDomain.Semantics

/-! ### What queries mean -/

namespace Query

/-- The arguments of a predicate are constants and variables. -/
def isAtom : Query → Bool
  | .var _ => true
  | .const _ => true
  | _ => false

/-- A tree of predicates, beliefs and connectives. -/
def isFormula : Query → Bool
  | .predicate _ children => children.all isAtom
  | .believes _ inner => inner.isFormula
  | .not inner => inner.isFormula
  | .and left right => left.isFormula && right.isFormula
  | .or left right => left.isFormula && right.isFormula
  | .var _ => false
  | .const _ => false

/-- The query is a single predicate. -/
def isPredicate : Query → Bool
  | .predicate _ _ => true
  | _ => false

/-- The agents whose beliefs the query is about. -/
def agents : Query → List String
  | .believes agent inner => agent :: inner.agents
  | .not inner => inner.agents
  | .and left right => left.agents ++ right.agents
  | .or left right => left.agents ++ right.agents
  | _ => []

variable {L : DelDomain}

/-- Every predicate of the query is a declared proposition; `atom` says which. -/
def Declared (atom : String → List Query → Option L.PropositionId) : Query → Prop
  | .predicate name children => (atom name children).isSome
  | .believes _ inner => inner.Declared atom
  | .not inner => inner.Declared atom
  | .and left right => left.Declared atom ∧ right.Declared atom
  | .or left right => left.Declared atom ∧ right.Declared atom
  | _ => False

/-- The query holds in a world. A predicate that is not declared has the value of null. -/
def Holds (M : L.Semantics) (d : L.Domain) (atom : String → List Query → Option L.PropositionId) :
    Query → M.World → Prop
  | .predicate name children, w =>
    match atom name children with
    | some p => M.holds p w
    | none => M.nullValue
  | .believes agent inner, w =>
    ∀ a, L.getAgentId d agent = some a → ∀ u, M.related a w u → inner.Holds M d atom u
  | .not inner, w => ¬ inner.Holds M d atom w
  | .and left right, w => left.Holds M d atom w ∧ right.Holds M d atom w
  | .or left right, w => left.Holds M d atom w ∨ right.Holds M d atom w
  | _, _ => False

/-- Induction over the formulas. -/
theorem formula_induct {motive : (q : Query) → q.isFormula = true → Prop}
    (predicate : ∀ name children (h : children.all isAtom = true),
      motive (.predicate name children) h)
    (believes : ∀ agent inner h, motive inner h → motive (.believes agent inner) h)
    (not : ∀ inner h, motive inner h → motive (.not inner) h)
    (and : ∀ left right hl hr, motive left hl → motive right hr →
      motive (.and left right) (Bool.and_eq_true_iff.2 ⟨hl, hr⟩))
    (or : ∀ left right hl hr, motive left hl → motive right hr →
      motive (.or left right) (Bool.and_eq_true_iff.2 ⟨hl, hr⟩)) :
    ∀ (q : Query) (h : q.isFormula = true), motive q h
  | .predicate name children, h => predicate name children h
  | .believes agent inner, h =>
    believes agent inner h (formula_induct predicate believes not and or inner h)
  | .not inner, h => not inner h (formula_induct predicate believes not and or inner h)
  | .and left right, h =>
    have h := Bool.and_eq_true_iff.1 h
    and left right h.1 h.2 (formula_induct predicate believes not and or left h.1)
      (formula_induct predicate believes not and or right h.2)
  | .or left right, h =>
    have h := Bool.and_eq_true_iff.1 h
    or left right h.1 h.2 (formula_induct predicate believes not and or left h.1)
      (formula_induct predicate believes not and or right h.2)

end Query

variable {L : DelDomain}

/-- The proposition of a predicate, under a substitution. -/
def propositionOf (d : L.Domain) (varMap : String → Option String) (name : String)
    (children : List Query) : Option L.PropositionId :=
  (reifyPredicate name children varMap).bind (L.getPropositionId d)

/-! ### The formula of a query -/

theorem mem_freeVariablesAll {children : List Query} {c : Query} (hc : c ∈ children) {x : String}
    (hx : x ∈ freeVariables c) : x ∈ freeVariablesAll children := by
  induction children with
  | nil => exact absurd hc List.not_mem_nil
  | cons c' children ih =>
    rw [freeVariablesAll, List.mem_union_iff]
    rcases List.mem_cons.1 hc with rfl | hc
    · exact Or.inl hx
    · exact Or.inr (ih hc)

/-- A predicate of constants and variables that have a value can be spelled. -/
theorem isSome_reifyPredicate {varMap : String → Option String} {name : String}
    {children : List Query} (hatoms : ∀ c ∈ children, c.isAtom = true)
    (hvars : ∀ x ∈ freeVariables (.predicate name children), (varMap x).isSome) :
    (reifyPredicate name children varMap).isSome := by
  rw [reifyPredicate, Option.isSome_map]
  refine isSome_mapM fun c hc ↦ ?_
  have hatom := hatoms c hc
  cases c with
  | const name => rfl
  | var x =>
    refine hvars x ?_
    rw [freeVariables]
    refine mem_freeVariablesAll hc ?_
    rw [freeVariables]
    exact List.mem_singleton_self x
  | predicate name children => exact Bool.noConfusion hatom
  | believes agent inner => exact Bool.noConfusion hatom
  | not inner => exact Bool.noConfusion hatom
  | and left right => exact Bool.noConfusion hatom
  | or left right => exact Bool.noConfusion hatom

/-- **The formula of a query** holds where the query does, and it is null when the query is a
predicate that is not declared. -/
theorem exists_buildFormula (M : L.Semantics) (d : L.Domain) {varMap : String → Option String}
    {q : Query} (hq : q.isFormula = true) (hvars : ∀ x ∈ freeVariables q, (varMap x).isSome)
    (hagents : ∀ a ∈ q.agents, (L.getAgentId d a).isSome) :
    ∃ f, buildFormula L d varMap q = some f ∧
      (f.isNull = true ↔ q.isPredicate = true ∧ ¬ q.Declared (propositionOf d varMap)) ∧
      ∀ w, M.Sat f w ↔ q.Holds M d (propositionOf d varMap) w := by
  induction q, hq using Query.formula_induct with
  | predicate name children hatoms =>
    obtain ⟨pred, hpred⟩ := Option.isSome_iff_exists.1
      (isSome_reifyPredicate (List.all_eq_true.1 hatoms) hvars)
    have hatom : propositionOf d varMap name children = L.getPropositionId d pred := by
      rw [propositionOf, hpred, Option.bind_some]
    have hbuild : buildFormula L d varMap (.predicate name children) =
        some (match L.getPropositionId d pred with
          | some p => .prop p
          | none => .null) := by
      rw [buildFormula, hpred, Option.bind_eq_bind, Option.bind_some]
      cases L.getPropositionId d pred <;> rfl
    rw [hbuild, Query.Declared, hatom]
    simp only [Query.Holds, hatom]
    cases L.getPropositionId d pred with
    | none => exact ⟨.null, rfl, iff_of_true rfl ⟨rfl, Bool.false_ne_true⟩, fun _ ↦ Iff.rfl⟩
    | some p =>
      exact ⟨.prop p, rfl, iff_of_false Bool.false_ne_true fun h ↦ h.2 rfl, fun _ ↦ Iff.rfl⟩
  | believes agent inner hinner ih =>
    obtain ⟨a, ha⟩ := Option.isSome_iff_exists.1 (hagents agent List.mem_cons_self)
    obtain ⟨f, hf, -, hsat⟩ := ih hvars fun b hb ↦ hagents b (List.mem_cons_of_mem _ hb)
    refine ⟨.believes a f, ?_, iff_of_false Bool.false_ne_true fun h ↦ Bool.false_ne_true h.1, ?_⟩
    · rw [buildFormula, hf, Option.bind_eq_bind, Option.bind_some, ha]
      rfl
    · intro w
      constructor
      · intro h b hb u hu
        rw [ha] at hb
        obtain rfl := Option.some.inj hb
        exact (hsat u).1 (h u hu)
      · exact fun h u hu ↦ (hsat u).2 (h a ha u hu)
  | not inner hinner ih =>
    obtain ⟨f, hf, -, hsat⟩ := ih hvars hagents
    refine ⟨.not f, ?_, iff_of_false Bool.false_ne_true fun h ↦ Bool.false_ne_true h.1,
      fun w ↦ not_congr (hsat w)⟩
    rw [buildFormula, hf]
    rfl
  | and left right hl hr ihl ihr =>
    obtain ⟨hvarsl, hvarsr⟩ := List.forall_mem_union.1 hvars
    obtain ⟨hagentsl, hagentsr⟩ := List.forall_mem_append.1 hagents
    obtain ⟨f, hf, -, hsatf⟩ := ihl hvarsl hagentsl
    obtain ⟨g, hg, -, hsatg⟩ := ihr hvarsr hagentsr
    refine ⟨.and f g, ?_, iff_of_false Bool.false_ne_true fun h ↦ Bool.false_ne_true h.1,
      fun w ↦ and_congr (hsatf w) (hsatg w)⟩
    rw [buildFormula, hf, hg]
    rfl
  | or left right hl hr ihl ihr =>
    obtain ⟨hvarsl, hvarsr⟩ := List.forall_mem_union.1 hvars
    obtain ⟨hagentsl, hagentsr⟩ := List.forall_mem_append.1 hagents
    obtain ⟨f, hf, -, hsatf⟩ := ihl hvarsl hagentsl
    obtain ⟨g, hg, -, hsatg⟩ := ihr hvarsr hagentsr
    refine ⟨.or f g, ?_, iff_of_false Bool.false_ne_true fun h ↦ Bool.false_ne_true h.1,
      fun w ↦ or_congr (hsatf w) (hsatg w)⟩
    rw [buildFormula, hf, hg]
    rfl

/-- A formula about an agent that the domain does not know cannot be built. -/
theorem buildFormula_eq_none (d : L.Domain) {varMap : String → Option String} {q : Query}
    (hq : q.isFormula = true) (hagents : ¬ ∀ a ∈ q.agents, (L.getAgentId d a).isSome) :
    buildFormula L d varMap q = none := by
  induction q, hq using Query.formula_induct with
  | predicate name children hatoms =>
    exact absurd (fun a ha ↦ absurd ha List.not_mem_nil) hagents
  | believes agent inner hinner ih =>
    rw [buildFormula]
    rcases not_and_or.1 (List.forall_mem_cons.not.1 hagents) with hagent | hinner
    · rw [Option.not_isSome_iff_eq_none.1 hagent]
      cases buildFormula L d varMap inner <;> rfl
    · rw [ih hinner]
      rfl
  | not inner hinner ih =>
    rw [buildFormula, ih hagents]
    rfl
  | and left right hl hr ihl ihr =>
    rw [buildFormula]
    rcases not_and_or.1 (List.forall_mem_append.not.1 hagents) with hleft | hright
    · rw [ihl hleft]
      rfl
    · rw [ihr hright]
      cases buildFormula L d varMap left <;> rfl
  | or left right hl hr ihl ihr =>
    rw [buildFormula]
    rcases not_and_or.1 (List.forall_mem_append.not.1 hagents) with hleft | hright
    · rw [ihl hleft]
      rfl
    · rw [ihr hright]
      cases buildFormula L d varMap left <;> rfl

namespace EpistemicReasoning

variable (e : EpistemicReasoning L)

/-- The proposition of a predicate of the query, with the variable replaced by an object. -/
def atom (v obj : String) : String → List Query → Option L.PropositionId :=
  propositionOf e.domain fun x ↦ if x = v then some obj else none

/-- The query holds in the latest state, with the variable replaced by an object. -/
def HoldsFor (M : L.Semantics) (q : Query) (v obj : String) : Prop :=
  ∀ w, M.designated w → q.Holds M e.domain (e.atom v obj) w

open Classical in
/-- The registered objects for which every predicate of the query is declared and the query holds,
in the order of registration. -/
noncomputable def satisfying (M : L.Semantics) (q : Query) (v : String) : List String :=
  e.allObjects.filter fun obj ↦ q.Declared (e.atom v obj) ∧ e.HoldsFor M q v obj

variable {e} {M : L.Semantics} {q : Query} {v : String}

theorem mem_satisfying {obj : String} : obj ∈ e.satisfying M q v ↔
    obj ∈ e.allObjects ∧ q.Declared (e.atom v obj) ∧ e.HoldsFor M q v obj := by
  classical
  rw [satisfying, List.mem_filter, decide_eq_true_eq]

/-- What one round of the loop of `query` decides. -/
theorem exists_answers (hM : M.Standard e.domain e.latestState) (hq : q.isFormula = true)
    (hv : freeVariables q = [v]) (hagents : ∀ a ∈ q.agents, (L.getAgentId e.domain a).isSome)
    (obj : String) : ∃ found, e.answers q v obj = some found ∧ (found = true ↔
      ¬ (q.isPredicate = true ∧ ¬ q.Declared (e.atom v obj)) ∧ e.HoldsFor M q v obj) := by
  have hvars : ∀ x ∈ freeVariables q,
      (if x = v then some obj else none : Option String).isSome := by
    intro x hx
    rw [hv] at hx
    rw [if_pos (List.mem_singleton.1 hx)]
    rfl
  obtain ⟨f, hf, hnull, hsat⟩ := exists_buildFormula M e.domain hq hvars hagents
  refine ⟨!f.isNull && L.evaluateFormula e.domain e.latestState f, ?_, ?_⟩
  · rw [answers, hf]
    rfl
  · rw [Bool.and_eq_true, Bool.not_eq_true', ← Bool.not_eq_true, hnull, hM f]
    exact and_congr_right fun _ ↦ forall_congr' fun w ↦ imp_congr_right fun _ ↦ hsat w

theorem queryFrom_eq_filter {found : String → Bool} {objs : List String}
    (h : ∀ obj, e.answers q v obj = some (found obj)) :
    e.queryFrom q v objs = some (objs.filter found) := by
  induction objs with
  | nil => rfl
  | cons obj objs ih =>
    rw [queryFrom, h, ih, List.filter_cons]
    rfl

theorem query_eq_queryFrom (hv : freeVariables q = [v]) :
    e.query q = e.queryFrom q v e.allObjects := by
  rw [query, hv]

/-- A query about an agent that the domain does not know throws at the first object. -/
theorem queryFrom_eq_none (hq : q.isFormula = true)
    (hagents : ¬ ∀ a ∈ q.agents, (L.getAgentId e.domain a).isSome) {objs : List String}
    (hobjs : objs ≠ []) : e.queryFrom q v objs = none := by
  cases objs with
  | nil => exact absurd rfl hobjs
  | cons obj objs =>
    rw [queryFrom, answers, buildFormula_eq_none e.domain hq hagents]
    rfl

/-- **The answers are the objects that satisfy the query** exactly when the domain knows the agents
it is about, and no object with an undeclared predicate gets in: the query is a single predicate, or
it does not hold for the object with null in place of what is undeclared. -/
theorem query_eq_satisfying_iff (e : EpistemicReasoning L) (M : L.Semantics)
    (hM : M.Standard e.domain e.latestState) (q : Query) (v : String) (hq : q.isFormula = true)
    (hv : freeVariables q = [v]) :
    e.query q = some (e.satisfying M q v) ↔
      (e.allObjects = [] ∨ ∀ a ∈ q.agents, (L.getAgentId e.domain a).isSome) ∧
        ∀ obj ∈ e.allObjects, ¬ q.Declared (e.atom v obj) →
          q.isPredicate = true ∨ ¬ e.HoldsFor M q v obj := by
  classical
  rw [query_eq_queryFrom hv]
  by_cases hagents : ∀ a ∈ q.agents, (L.getAgentId e.domain a).isSome
  · choose found hanswers hfound using exists_answers hM hq hv hagents
    rw [queryFrom_eq_filter hanswers, Option.some.injEq]
    constructor
    · intro heq
      refine ⟨Or.inr hagents, fun obj hobj hundeclared ↦ ?_⟩
      -- the object is not among the objects that satisfy the query, so it is not found
      have hnot : found obj ≠ true := fun htrue ↦ by
        have hmem : obj ∈ e.allObjects.filter found := List.mem_filter.2 ⟨hobj, htrue⟩
        rw [heq] at hmem
        exact hundeclared (mem_satisfying.1 hmem).2.1
      rw [ne_eq, hfound, not_and_or, not_not] at hnot
      exact hnot.imp And.left id
    · intro ⟨_, hobjects⟩
      refine List.filter_congr fun obj hobj ↦ ?_
      rw [Bool.eq_iff_iff, hfound, decide_eq_true_eq]
      constructor
      · intro ⟨hnull, hholds⟩
        refine ⟨?_, hholds⟩
        by_contra hundeclared
        rcases hobjects obj hobj hundeclared with hpredicate | hfails
        · exact hnull ⟨hpredicate, hundeclared⟩
        · exact hfails hholds
      · exact fun ⟨hdeclared, hholds⟩ ↦ ⟨fun h ↦ h.2 hdeclared, hholds⟩
  · by_cases hobjs : e.allObjects = []
    · rw [satisfying, hobjs]
      exact iff_of_true rfl ⟨Or.inl rfl, fun obj hobj ↦ absurd hobj List.not_mem_nil⟩
    · rw [queryFrom_eq_none hq hagents hobjs]
      exact iff_of_false (Option.some_ne_none _).symm fun h ↦ h.1.elim hobjs hagents

end EpistemicReasoning

/-! ### Queries of the library with one world -/

/-- What the formulas of the library with one world mean. -/
def PlainDomain.semantics (d : PlainDomain) (s : ℕ) : plainDomain.Semantics where
  World := Unit
  designated := fun _ ↦ True
  related := fun _ _ _ ↦ True
  holds := fun p _ ↦ p ∈ d.states.getD s []
  nullValue := False

theorem PlainDomain.standard_semantics (d : PlainDomain) (s : ℕ) :
    (d.semantics s).Standard d s := by
  have hsat : ∀ f w, d.evaluate s f = true ↔ (d.semantics s).Sat f w := by
    intro f w
    induction f with
    | null => exact iff_of_false Bool.false_ne_true id
    | prop p => exact d.evaluate_prop s p
    | believes a inner ih => exact ih.trans ⟨fun h _ _ ↦ h, fun h ↦ h w trivial⟩
    | not inner ih =>
      show (!d.evaluate s inner) = true ↔ ¬ (d.semantics s).Sat inner w
      rw [Bool.not_eq_true', ← Bool.not_eq_true, ih]
    | and left right ihl ihr =>
      show (d.evaluate s left && d.evaluate s right) = true ↔ _ ∧ _
      rw [Bool.and_eq_true, ihl, ihr]
    | or left right ihl ihr =>
      show (d.evaluate s left || d.evaluate s right) = true ↔ _ ∨ _
      rw [Bool.or_eq_true, ihl, ihr]
  exact fun f ↦ ⟨fun h w _ ↦ (hsat f w).1 h, fun h ↦ (hsat f ()).2 (h () trivial)⟩

namespace EpistemicReasoning

/-- A cube, a box and a person are registered. -/
def cubeAndBox : List Call :=
  [.addObject .storable "marker-1", .addObject .container "marker-1001", .addObject .agent "Anne"]

/-- Where is the cube without Anne believing that it is there? -/
def unknownToAnne : Query :=
  .and whereIsCube (.not (.believes "Anne" whereIsCube))

/-- Where is the cube, if it is there or not? -/
def hereOrNot : Query := .or whereIsCube (.not whereIsCube)

theorem query_eq_satisfying_unknownToAnne :
    ∃ e, run plainDomain .insertion cubeAndBox = some e ∧
      e.query unknownToAnne = some (e.satisfying (e.domain.semantics e.latestState)
        unknownToAnne "x") := by
  have hrun : (run plainDomain .insertion cubeAndBox).map
      (fun e ↦ (plainDomain.getAgentId e.domain "Anne").isSome) = some true := by decide
  obtain ⟨e, he, hanne⟩ := Option.map_eq_some_iff.1 hrun
  refine ⟨e, he, (query_eq_satisfying_iff e _ (PlainDomain.standard_semantics _ _) unknownToAnne "x"
    rfl rfl).2 ⟨Or.inr fun a ha ↦ ?_, fun obj hobj hundeclared ↦ Or.inr fun hholds ↦ ?_⟩⟩
  · rw [List.mem_singleton.1 ha]
    exact hanne
  · -- without a proposition the first conjunct has the value of null
    have hfirst : whereIsCube.Holds (e.domain.semantics e.latestState) e.domain
        (e.atom "x" obj) () := (hholds () trivial).1
    simp only [whereIsCube, inQuery, Query.Holds] at hfirst
    split at hfirst
    · next p hp =>
      have hdeclared : whereIsCube.Declared (e.atom "x" obj) := by
        rw [whereIsCube, inQuery, Query.Declared, hp]
        rfl
      exact hundeclared ⟨hdeclared, hdeclared⟩
    · exact hfirst

/-- **An answer that is not declared.** The cube is an answer itself, although nothing can be in
it: below the connectives its undeclared predicate counts as one that fails. -/
theorem query_undeclared :
    ∃ e, run plainDomain .insertion cubeAndBox = some e ∧
      e.query hereOrNot = some ["marker-1", "marker-1001", "Anne"] ∧
      e.query hereOrNot ≠ some (e.satisfying (e.domain.semantics e.latestState) hereOrNot "x") := by
  have hrun : (run plainDomain .insertion cubeAndBox).map (fun e ↦ (e.query hereOrNot,
      (e.atom "x" "marker-1" "in" [.const "marker-1", .var "x"]).isSome)) =
        some (some ["marker-1", "marker-1001", "Anne"], false) := by decide
  obtain ⟨e, he, hvalues⟩ := Option.map_eq_some_iff.1 hrun
  obtain ⟨hquery, hatom⟩ := Prod.mk.inj hvalues
  refine ⟨e, he, hquery, fun heq ↦ ?_⟩
  rw [hquery, Option.some.injEq] at heq
  have hmem : "marker-1" ∈ e.satisfying (e.domain.semantics e.latestState) hereOrNot "x" :=
    heq ▸ List.mem_cons_self
  have hdeclared : whereIsCube.Declared (e.atom "x" "marker-1") :=
    (mem_satisfying.1 hmem).2.1.1
  rw [whereIsCube, inQuery, Query.Declared, hatom] at hdeclared
  exact Bool.false_ne_true hdeclared

end EpistemicReasoning

end Reasoning
