import R2DTU.Reasoning.Registration
import R2DTU.Reasoning.Announcement

/-!
# Which propositions are declared

`add_object` is told the type of an object, and `setup_domain` does not look at it. It reads the
types off the names: what follows the first dash is a number, and the pairs of a number up to 1000
and a number from 200 on get a proposition. Storables are named with a number below 200 and
containers with one above 1000, so this is meant to give the storables and the containers.

Two kinds of names break it. Persons are objects as well, under any name, and a name that reads as a
number counts as a storable or a container. And the number has to be an `int`: `std::stoi` throws on
a container from 2147483648 on, which is then in no proposition.

`declaresByType_iff` says that nothing else breaks it. The names `in(s,c)` are strings, and a comma
in a name can make two pairs be spelled alike; what such a pair could do is ruled out by
`isSnd_of_inProposition_eq`.
-/

namespace Reasoning

open WorldModel (movableName dash_notMem_toDigits)

/-! ### Numbers in names -/

theorem isDigit_of_mem_toDigits {n : ℕ} {c : Char} (h : c ∈ Nat.toDigits 10 n) :
    c.isDigit = true := Nat.isDigit_of_mem_toDigits (by decide) (by decide) h

/-- A number that is printed is read back, up to the first character that is no digit. -/
theorem readDigits_toDigits (n : ℕ) {rest : List Char}
    (hrest : ∀ c ∈ rest.head?, c.isDigit = false) :
    readDigits (Nat.toDigits 10 n ++ rest) = some n := by
  have htake : (Nat.toDigits 10 n ++ rest).takeWhile Char.isDigit = Nat.toDigits 10 n := by
    rw [List.takeWhile_append_of_pos fun c hc ↦ isDigit_of_mem_toDigits hc]
    cases rest with
    | nil => exact List.append_nil _
    | cons c rest =>
      rw [List.takeWhile_cons_of_neg (by simpa using hrest c rfl), List.append_nil]
  have hread := @Nat.ofDigitChars_ten_toDigits n
  rw [readDigits, htake]
  cases hdigits : Nat.toDigits 10 n with
  | nil => exact absurd hdigits (Nat.toDigits_ne_nil)
  | cons d digits =>
    rw [hdigits, Nat.ofDigitChars_eq_foldl] at hread
    exact congrArg some hread

theorem toNat_of_isDigit {c : Char} (h : c.isDigit = true) : 48 ≤ c.toNat ∧ c.toNat ≤ 57 := by
  rw [Char.isDigit, Bool.and_eq_true, decide_eq_true_eq, decide_eq_true_eq] at h
  exact h

theorem stoi_toDigits (n : ℕ) {rest : List Char}
    (hrest : ∀ c ∈ rest.head?, c.isDigit = false) :
    stoi (Nat.toDigits 10 n ++ rest) = if n < 2 ^ 31 then some (n : ℤ) else none := by
  have hread := readDigits_toDigits n hrest
  cases hdigits : Nat.toDigits 10 n with
  | nil => exact absurd hdigits (Nat.toDigits_ne_nil)
  | cons d digits =>
    have hdigit : d.isDigit = true := isDigit_of_mem_toDigits (hdigits ▸ List.mem_cons_self)
    rw [hdigits] at hread
    obtain ⟨hlow, hhigh⟩ := toNat_of_isDigit hdigit
    -- a digit is neither a space nor a sign
    have hspace : isSpace d = false := by
      have hblank : d ≠ ' ' := fun he ↦ absurd hlow (by rw [he]; decide)
      simp only [isSpace, hblank, decide_false, Bool.false_or, Bool.and_eq_false_iff,
        decide_eq_false_iff_not]
      omega
    have hsigned : readSigned (d :: digits ++ rest) = some (n : ℤ) := by
      rw [List.cons_append, readSigned, ← List.cons_append, hread]
      · rfl
      · exact fun s he ↦ absurd hlow (by rw [(List.cons.inj he).1]; decide)
      · exact fun s he ↦ absurd hlow (by rw [(List.cons.inj he).1]; decide)
    rw [stoi, List.cons_append, List.dropWhile_cons_of_neg (by simp [hspace]), ← List.cons_append,
      hsigned]
    split_ifs with hlt
    · exact Option.filter_some_pos (by simp; omega)
    · exact Option.filter_some_neg (by simp; omega)

theorem afterDash_append {base : List Char} (h : '-' ∉ base) (rest : List Char) :
    afterDash (base ++ '-' :: rest) = rest := by
  have hdrop : (base ++ '-' :: rest).dropWhile (· ≠ '-') = '-' :: rest := by
    rw [List.dropWhile_append_of_pos]
    · rfl
    · intro c hc
      rw [decide_eq_true_eq]
      rintro rfl
      exact h hc
  rw [afterDash, hdrop]

theorem toList_movableName (base : String) (id : ℕ) :
    (movableName base id).toList = base.toList ++ '-' :: Nat.toDigits 10 id := by
  simp [movableName, toString, Nat.repr]

theorem nameNumber_movableName {base : String} (h : '-' ∉ base.toList) (id : ℕ) :
    nameNumber (movableName base id) = if id < 2 ^ 31 then some (id : ℤ) else none := by
  have hread : stoi (Nat.toDigits 10 id ++ []) = _ :=
    stoi_toDigits id fun c hc ↦ absurd hc (by simp)
  rw [List.append_nil] at hread
  rw [nameNumber, toList_movableName, afterDash_append h, hread]

theorem isFst_movableName {base : String} (h : '-' ∉ base.toList) {id : ℕ} (hid : id < 200) :
    isFst (movableName base id) = true := by
  rw [isFst, nameNumber_movableName h, if_pos (by omega), Option.any_some, decide_eq_true_eq]
  omega

/-! ### How propositions are spelled -/

/-- A comma in a name with a number is in front of the dash. -/
theorem exists_of_comma {base x z : List Char} {id : ℕ} (hbase : '-' ∉ base)
    (h : base ++ '-' :: Nat.toDigits 10 id = x ++ ',' :: z) :
    ∃ y, '-' ∉ y ∧ z = y ++ '-' :: Nat.toDigits 10 id := by
  rcases List.append_eq_append_iff.1 h with ⟨y, -, hy⟩ | ⟨y, hsplit, hy⟩
  · have hmem : ',' ∈ '-' :: Nat.toDigits 10 id := hy ▸ List.mem_append_right _ List.mem_cons_self
    rcases List.mem_cons.1 hmem with hdash | hdigit
    · exact absurd hdash (by decide)
    · exact absurd (isDigit_of_mem_toDigits hdigit) (by decide)
  · cases y with
    | nil => exact absurd (List.cons.inj hy).1 (by decide)
    | cons c y =>
      refine ⟨y, fun hdash ↦ hbase ?_, (List.cons.inj hy).2⟩
      rw [hsplit]
      exact List.mem_append_right _ (List.mem_cons_of_mem _ hdash)

theorem inProposition_eq_iff {s c f d : String} : inProposition s c = inProposition f d ↔
    s.toList ++ ',' :: c.toList = f.toList ++ ',' :: d.toList := by
  have hlist : ∀ s c : String, (inProposition s c).toList =
      "in(".toList ++ ((s.toList ++ ',' :: c.toList) ++ [')']) := by
    intro s c
    simp [inProposition]
  constructor
  · intro h
    have h' := congrArg String.toList h
    rw [hlist, hlist] at h'
    exact List.append_cancel_right (List.append_cancel_left h')
  · intro h
    refine String.toList_injective ?_
    rw [hlist, hlist, h]

/-- **No other pair is spelled like a storable and a container** whose number is too large. -/
theorem isSnd_of_inProposition_eq {s c : String} {id id' : ℕ} {f d : String} (hs : '-' ∉ s.toList)
    (hid : id < 200) (hc : '-' ∉ c.toList) (hd : isSnd d = true)
    (h : inProposition (movableName s id) (movableName c id') = inProposition f d) :
    isSnd (movableName c id') = true := by
  rw [inProposition_eq_iff, List.append_eq_append_iff] at h
  rcases h with ⟨x, -, hx⟩ | ⟨x, hsplit, hx⟩
  · cases x with
    | nil =>
      have hsame : movableName c id' = d := String.toList_injective (List.cons.inj hx).2
      rwa [hsame]
    | cons comma x =>
      -- the second name is the end of the container's, with the same number
      have hrest := (List.cons.inj hx).2
      rw [toList_movableName] at hrest
      obtain ⟨y, hy, hdy⟩ := exists_of_comma hc hrest
      have hnumber : nameNumber (movableName c id') = nameNumber d := by
        rw [nameNumber, nameNumber, toList_movableName, afterDash_append hc, hdy,
          afterDash_append hy]
      rwa [isSnd, hnumber]
  · cases x with
    | nil =>
      have hsame : d = movableName c id' := String.toList_injective (List.cons.inj hx).2
      rwa [← hsame]
    | cons comma x =>
      -- the second name begins with the end of the storable's, so with its number
      obtain rfl : ',' = comma := (List.cons.inj hx).1
      rw [toList_movableName] at hsplit
      obtain ⟨y, hy, rfl⟩ := exists_of_comma hs hsplit
      have hdy : d.toList =
          y ++ '-' :: (Nat.toDigits 10 id ++ ',' :: (movableName c id').toList) := by
        simpa using hx
      have hcomma : ∀ c' ∈ (',' :: (movableName c id').toList).head?, c'.isDigit = false := by
        intro c' hc'
        obtain rfl : ',' = c' := Option.some.inj hc'
        decide
      have hnumber : nameNumber d = some (id : ℤ) := by
        rw [nameNumber, hdy, afterDash_append hy, stoi_toDigits id hcomma, if_pos (by omega)]
      rw [isSnd, hnumber, Option.any_some, decide_eq_true_eq] at hd
      omega

/-! ### Registrations by type -/

section Declares

variable {L : DelDomain} {order : Del.HashOrder}

/-- The names that are promised: `<class>-<id>` for storables, with an id below 200, and for
containers, with an id above 1000. Agents have any names. -/
structure WellNamed (adds : List (EpistemicObjectType × String)) : Prop where
  storable {name : String} (h : (.storable, name) ∈ adds) :
    ∃ base id, '-' ∉ base.toList ∧ id < 200 ∧ name = movableName base id
  container {name : String} (h : (.container, name) ∈ adds) :
    ∃ base id, '-' ∉ base.toList ∧ 1000 < id ∧ name = movableName base id

/-- **Propositions by type**: what is declared is `in(s,c)` for every storable `s` and container
`c`, and so an agent can act on them. -/
structure EpistemicReasoning.DeclaresByType (e : EpistemicReasoning L)
    (adds : List (EpistemicObjectType × String)) : Prop where
  declared_iff (name : String) : (L.getPropositionId e.domain name).isSome ↔
    ∃ s c, (.storable, s) ∈ adds ∧ (.container, c) ∈ adds ∧ name = inProposition s c
  found {agent s c : String} (ha : (e.agentInfos.lookup agent).isSome)
    (hs : (.storable, s) ∈ adds) (hc : (.container, c) ∈ adds) :
    (e.putInContainer agent s c).isSome ∧ (e.takeOutOfContainer agent s c).isSome ∧
      (e.directConsciousAttention agent s c).isSome

/-- **The numbers tell the types**: containers have a number that can be read, and of two different
objects, when one reads as a storable and the other as a container, they are that; or they are
spelled like such. -/
structure NumbersTell (adds : List (EpistemicObjectType × String)) : Prop where
  /-- The number of a container is large enough for the second place. -/
  containers {s c : String} (hs : (.storable, s) ∈ adds) (hc : (.container, c) ∈ adds) :
    isSnd c = true
  /-- No other pair of names passes for a thing and a container. -/
  others {f d : String} (hf : f ∈ adds.map Prod.snd) (hd : d ∈ adds.map Prod.snd)
    (hfst : isFst f = true) (hsnd : isSnd d = true) (hne : f ≠ d) :
    ∃ s c, (.storable, s) ∈ adds ∧ (.container, c) ∈ adds ∧
      inProposition f d = inProposition s c

namespace EpistemicReasoning

/-- The calls of `add_object`. -/
def addCalls (adds : List (EpistemicObjectType × String)) : List Call :=
  adds.map fun a ↦ .addObject a.1 a.2

/-- Registering objects succeeds, and the propositions are those of their names. -/
theorem exists_run_addCalls (hL : L.Lawful) (adds : List (EpistemicObjectType × String)) :
    ∃ e, run L order (addCalls adds) = some e ∧ e.allObjects = adds.map Prod.snd ∧
      ∀ name, (L.getPropositionId e.domain name).isSome ↔
        name ∈ propositions (adds.map Prod.snd) := by
  induction adds using List.reverseRecOn with
  | nil =>
    have henrolled : Registrations.Enrolled (L := L)
        ⟨[], ["R2DTU"], [], [], [("R2DTU", ⟨L.agentZero, .present⟩)]⟩ := by
      intro p hp
      rw [List.mem_singleton.1 hp]
      exact List.mem_singleton_self _
    obtain ⟨e, he⟩ := Option.isSome_iff_exists.1
      (Registrations.isSome_setupDomain hL order henrolled)
    refine ⟨e, ?_, (Registrations.kept_setupDomain he).allObjects, fun name ↦
      Registrations.isSome_getPropositionId_setupDomain hL he⟩
    show (reset order).bind _ = some e
    rw [reset, he]
    rfl
  | append_singleton adds a ih =>
    obtain ⟨e, he, hobjects, -⟩ := ih
    obtain ⟨e', he'⟩ := Option.isSome_iff_exists.1 (Registrations.isSome_setupDomain hL order
      (Registrations.enrolled_addName (enrolled_run he) a.1 a.2))
    have hadded : (e.toRegistrations.addName a.1 a.2).allObjects =
        (adds ++ [a]).map Prod.snd := by
      rw [List.map_append, List.map_singleton, ← hobjects]
      cases a.1 <;> rfl
    refine ⟨e', ?_, (Registrations.kept_setupDomain he').allObjects.trans hadded, fun name ↦ ?_⟩
    · rw [addCalls, List.map_append, List.map_singleton, run_concat, ← addCalls, he]
      exact he'
    · rw [Registrations.isSome_getPropositionId_setupDomain hL he', hadded]

/-- An agent can act on a proposition that is declared. -/
theorem isSome_actOn {e : EpistemicReasoning L} {agent object container : String}
    (act : L.Domain → L.AgentId → L.PropositionId → L.Domain × L.StateId)
    (ha : (e.agentInfos.lookup agent).isSome)
    (hp : (L.getPropositionId e.domain (inProposition object container)).isSome) :
    (e.actOn act agent object container).isSome := by
  obtain ⟨a, ha⟩ := Option.isSome_iff_exists.1 ha
  obtain ⟨p, hp⟩ := Option.isSome_iff_exists.1 hp
  rw [actOn, ha, Option.bind_eq_bind, Option.bind_some, hp]
  rfl

end EpistemicReasoning

variable {adds : List (EpistemicObjectType × String)}

/-- The pair of a storable and a container is one of the pairs of `setup_domain`. -/
theorem NumbersTell.mem_propositions (h : NumbersTell adds) (hnames : WellNamed adds)
    {s c : String} (hs : (.storable, s) ∈ adds) (hc : (.container, c) ∈ adds) :
    inProposition s c ∈ propositions (adds.map Prod.snd) := by
  have hsnd := h.containers hs hc
  obtain ⟨base, id, hbase, hid, rfl⟩ := hnames.storable hs
  obtain ⟨base', id', hbase', hid', rfl⟩ := hnames.container hc
  refine Reasoning.mem_propositions.2 ⟨_, _, List.mem_map_of_mem hs, List.mem_map_of_mem hc,
    isFst_movableName hbase hid, hsnd, fun he ↦ ?_, rfl⟩
  have hids := WorldModel.id_eq_of_movableName_eq he
  omega

/-- **Propositions are declared by type** exactly when the numbers in the names tell the types. -/
theorem declaresByType_iff (hL : L.Lawful) (order : Del.HashOrder)
    (adds : List (EpistemicObjectType × String)) (hnames : WellNamed adds) :
    ∃ e, EpistemicReasoning.run L order (EpistemicReasoning.addCalls adds) = some e ∧
      (e.DeclaresByType adds ↔ NumbersTell adds) := by
  obtain ⟨e, he, -, hdeclared⟩ := @EpistemicReasoning.exists_run_addCalls L order hL adds
  refine ⟨e, he, fun h ↦ ⟨fun {s c} hs hc ↦ ?_, fun {f d} hf hd hfst hsnd hne ↦ ?_⟩, fun h ↦ ?_⟩
  · obtain ⟨f, d, -, -, -, hsnd, -, hspelled⟩ := Reasoning.mem_propositions.1
      ((hdeclared _).1 ((h.declared_iff _).2 ⟨s, c, hs, hc, rfl⟩))
    obtain ⟨base, id, hbase, hid, rfl⟩ := hnames.storable hs
    obtain ⟨base', id', hbase', -, rfl⟩ := hnames.container hc
    exact isSnd_of_inProposition_eq hbase hid hbase' hsnd hspelled
  · exact (h.declared_iff _).1 ((hdeclared _).2
      (Reasoning.mem_propositions.2 ⟨f, d, hf, hd, hfst, hsnd, hne, rfl⟩))
  · have hpair : ∀ {s c}, (.storable, s) ∈ adds → (.container, c) ∈ adds →
        (L.getPropositionId e.domain (inProposition s c)).isSome := fun hs hc ↦
      (hdeclared _).2 (h.mem_propositions hnames hs hc)
    refine ⟨fun name ↦ ⟨fun hsome ↦ ?_, fun ⟨s, c, hs, hc, hname⟩ ↦ hname ▸ hpair hs hc⟩,
      fun ha hs hc ↦ ?_⟩
    · obtain ⟨f, d, hf, hd, hfst, hsnd, hne, rfl⟩ :=
        Reasoning.mem_propositions.1 ((hdeclared _).1 hsome)
      exact h.others hf hd hfst hsnd hne
    · exact ⟨EpistemicReasoning.isSome_actOn _ ha (hpair hs hc),
        EpistemicReasoning.isSome_actOn _ ha (hpair hs hc),
        EpistemicReasoning.isSome_actOn _ ha (hpair hs hc)⟩

end Declares

/-- A cube, a box and a person. -/
def cubeBoxAnne : List (EpistemicObjectType × String) :=
  [(.storable, "marker-1"), (.container, "marker-1001"), (.agent, "Anne")]

/-- A box, and a person whose name reads as a number. -/
def boxAndBond : List (EpistemicObjectType × String) :=
  [(.container, "box-1001"), (.agent, "Bond-007")]

theorem declaresByType_cubeBoxAnne :
    ∃ e, EpistemicReasoning.run plainDomain .insertion
        (EpistemicReasoning.addCalls cubeBoxAnne) = some e ∧ e.DeclaresByType cubeBoxAnne := by
  have hnames : WellNamed cubeBoxAnne := by
    refine ⟨fun {name} h ↦ ⟨"marker", 1, by decide, by decide, ?_⟩,
      fun {name} h ↦ ⟨"marker", 1001, by decide, by decide, ?_⟩⟩
    · obtain rfl : name = "marker-1" := by simpa [cubeBoxAnne] using h
      decide
    · obtain rfl : name = "marker-1001" := by simpa [cubeBoxAnne] using h
      decide
  obtain ⟨e, he, hiff⟩ := declaresByType_iff lawful_plainDomain .insertion cubeBoxAnne hnames
  refine ⟨e, he, hiff.2 ⟨fun {s c} hs hc ↦ ?_, fun {f d} hf hd hfst hsnd hne ↦ ?_⟩⟩
  · obtain rfl : c = "marker-1001" := by simpa [cubeBoxAnne] using hc
    decide
  · -- only the cube reads as a storable, and only the box as a container
    have hone : ∀ f ∈ cubeBoxAnne.map Prod.snd, isFst f = true → f = "marker-1" := by decide
    have htwo : ∀ d ∈ cubeBoxAnne.map Prod.snd, isSnd d = true → d = "marker-1001" := by decide
    exact ⟨f, d, hone f hf hfst ▸ List.mem_cons_self,
      htwo d hd hsnd ▸ List.mem_cons_of_mem _ List.mem_cons_self, rfl⟩

/-- **An agent in a box.** The person counts as a storable, and is declared to be possibly in the
box. -/
theorem agent_declared_storable :
    WellNamed boxAndBond ∧ ∃ e, EpistemicReasoning.run plainDomain .insertion
        (EpistemicReasoning.addCalls boxAndBond) = some e ∧
      (plainDomain.getPropositionId e.domain (inProposition "Bond-007" "box-1001")).isSome = true ∧
      ¬ e.DeclaresByType boxAndBond := by
  refine ⟨⟨fun {name} h ↦ ?_, fun {name} h ↦ ⟨"box", 1001, by decide, by decide, ?_⟩⟩, ?_⟩
  · simp [boxAndBond] at h
  · obtain rfl : name = "box-1001" := by simpa [boxAndBond] using h
    decide
  · have hrun : (EpistemicReasoning.run plainDomain .insertion
        (EpistemicReasoning.addCalls boxAndBond)).map (fun e ↦
          (plainDomain.getPropositionId e.domain (inProposition "Bond-007" "box-1001")).isSome) =
        some true := by decide
    obtain ⟨e, he, hsome⟩ := Option.map_eq_some_iff.1 hrun
    refine ⟨e, he, hsome, fun h ↦ ?_⟩
    obtain ⟨s, c, hs, -⟩ := (h.declared_iff _).1 hsome
    simp [boxAndBond] at hs

end Reasoning
