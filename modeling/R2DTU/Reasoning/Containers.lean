import R2DTU.Reasoning.Observing
import R2DTU.Reasoning.Registration

/-!
# Where the cubes are

Two records say where a cube is: the facts `in(cube,box)` of the domain and the entry of the cube in
`current_container`. `Tracking.agree` says that they are the same. An appearing cube is taken out of
the box that is remembered, which removes its fact and its entry. A disappearing cube is put into
every box it is found in, but only the first of them is remembered, and none if the cube has an
entry already; the records agree afterwards when all these boxes are **one** (`Event.Single`).

When they are not, the further facts stay when the cube appears again
(`two_containers_recorded`).
-/

namespace Reasoning

/-! ### Names of propositions -/

/-- The name of a proposition determines the objects, when their names have no comma. -/
theorem inProposition_inj {object object' container container' : String}
    (hobject : ',' ∉ object.toList) (hcontainer : ',' ∉ container.toList)
    (he : inProposition object container = inProposition object' container') :
    object = object' ∧ container = container' := by
  have hlist := congrArg String.toList he
  simp only [inProposition, String.toList_append, List.append_assoc, List.append_right_inj] at hlist
  have hrest : ',' ∉ container.toList ++ ")".toList := by
    rw [List.mem_append]
    exact fun hmem ↦ hmem.elim hcontainer (by decide)
  obtain ⟨ho, -, hc⟩ := (List.append_cons_inj_of_notMem hobject hrest).1 hlist
  exact ⟨String.toList_injective ho, String.toList_injective (List.append_cancel_right hc)⟩

namespace EpistemicReasoning

variable {L : DelDomain} {e e' : EpistemicReasoning L}

/-- Whether `in(object,container)` is recorded as true. -/
def recorded (e : EpistemicReasoning L) (object container : String) : Bool :=
  match L.getPropositionId e.domain (inProposition object container) with
  | some p => L.evaluateFormula e.domain e.latestState (.prop p)
  | none => false

theorem recorded_eq_true_iff {object container : String} :
    e.recorded object container = true ↔
      ∃ p, L.getPropositionId e.domain (inProposition object container) = some p ∧
        L.evaluateFormula e.domain e.latestState (.prop p) = true := by
  rw [recorded]
  cases L.getPropositionId e.domain (inProposition object container) with
  | none => simp
  | some p => simp

/-- The two records are about one domain, whose latest state is known. -/
structure SameIds (e e' : EpistemicReasoning L) : Prop where
  ids : L.getPropositionId e'.domain = L.getPropositionId e.domain
  objects : e'.allObjects = e.allObjects
  latest : L.Latest e'.domain e'.latestState

/-- **A change of one fact.** -/
theorem recorded_performDo (hL : L.Lawful) (hlatest : L.Latest e.domain e.latestState)
    {add del : L.PropositionId → List L.PropositionId} {agent object container : String}
    (h : e.actOn (fun d a p ↦ L.performDo d a (add p) (del p)) agent object container = some e') :
    e.SameIds e' ∧
      ∃ q, L.getPropositionId e.domain (inProposition object container) = some q ∧
        ∀ object' container', e'.recorded object' container' = true ↔
          ∃ p, L.getPropositionId e.domain (inProposition object' container') = some p ∧
            (p ∈ add q ∨ p ∉ del q ∧ e.recorded object' container' = true) := by
  obtain ⟨a, -, h⟩ := Option.bind_eq_some_iff.1 h
  obtain ⟨q, hq, h⟩ := Option.bind_eq_some_iff.1 h
  obtain rfl := Option.some.inj h
  refine ⟨⟨hL.getPropositionId_performDo .., rfl, .performDo ..⟩, q, hq,
    fun object' container' ↦ ?_⟩
  rw [recorded_eq_true_iff]
  show (∃ p, L.getPropositionId (L.performDo e.domain a.id (add q) (del q)).1 _ = some p ∧
    L.evaluateFormula (L.performDo e.domain a.id (add q) (del q)).1 _ (.prop p) = true) ↔ _
  rw [hL.getPropositionId_performDo]
  refine exists_congr fun p ↦ and_congr_right fun hp ↦ ?_
  refine (hL.evaluate_performDo hlatest hp).trans (or_congr_right (and_congr_right fun _ ↦ ?_))
  rw [recorded_eq_true_iff]
  exact ⟨fun ht ↦ ⟨p, hp, ht⟩, fun ⟨p', hp', ht⟩ ↦ Option.some.inj (hp.symm.trans hp') ▸ ht⟩

/-- **Putting** records the fact and keeps the others. -/
theorem recorded_putInContainer (hL : L.Lawful) (hlatest : L.Latest e.domain e.latestState)
    {agent object container : String} (h : e.putInContainer agent object container = some e') :
    e.SameIds e' ∧ ∀ object' container', e'.recorded object' container' = true ↔
      inProposition object' container' = inProposition object container ∨
        e.recorded object' container' = true := by
  obtain ⟨hids, q, hq, hrec⟩ := recorded_performDo hL hlatest h
  refine ⟨hids, fun object' container' ↦ (hrec _ _).trans ⟨?_, ?_⟩⟩
  · rintro ⟨p, hp, hadd | ⟨-, ht⟩⟩
    · rw [List.mem_singleton.1 hadd] at hp
      exact .inl (hL.getPropositionId_inj hp hq)
    · exact .inr ht
  · rintro (he | ht)
    · exact ⟨q, he ▸ hq, .inl (List.mem_singleton_self q)⟩
    · obtain ⟨p, hp, -⟩ := recorded_eq_true_iff.1 ht
      exact ⟨p, hp, .inr ⟨List.not_mem_nil, ht⟩⟩

/-- **Taking out** removes the fact and keeps the others. -/
theorem recorded_takeOutOfContainer (hL : L.Lawful) (hlatest : L.Latest e.domain e.latestState)
    {agent object container : String} (h : e.takeOutOfContainer agent object container = some e') :
    e.SameIds e' ∧ ∀ object' container', e'.recorded object' container' = true ↔
      inProposition object' container' ≠ inProposition object container ∧
        e.recorded object' container' = true := by
  obtain ⟨hids, q, hq, hrec⟩ := recorded_performDo hL hlatest h
  refine ⟨hids, fun object' container' ↦ (hrec _ _).trans ⟨?_, ?_⟩⟩
  · rintro ⟨p, hp, hadd | ⟨hdel, ht⟩⟩
    · exact absurd hadd List.not_mem_nil
    · refine ⟨fun he ↦ hdel ?_, ht⟩
      rw [he] at hp
      exact List.mem_singleton.2 (Option.some.inj (hp.symm.trans hq))
  · rintro ⟨hne, ht⟩
    obtain ⟨p, hp, -⟩ := recorded_eq_true_iff.1 ht
    refine ⟨p, hp, .inr ⟨fun hdel ↦ hne ?_, ht⟩⟩
    rw [List.mem_singleton.1 hdel] at hp
    exact hL.getPropositionId_inj hp hq

end EpistemicReasoning

/-! ### Events -/

/-- Events about movables. A disappearance comes with the movables of the world and with whether the
object is inside each of them. -/
inductive Event
  | appear (obj : MovableObj)
  | disappear (obj : MovableObj) (movables : List MovableObj) (inside : MovableObj → Bool)

namespace Event

/-- The object of an event. -/
def obj : Event → MovableObj
  | appear obj => obj
  | disappear obj _ _ => obj

/-- Whether the event is an appearance. -/
def isAppear : Event → Bool
  | appear _ => true
  | disappear _ _ _ => false

/-- The containers in which an object is found. -/
def found (movables : List MovableObj) (inside : MovableObj → Bool) : List MovableObj :=
  movables.filter fun m ↦ 1000 ≤ m.markerId ∧ m.status ≠ .hypothetical ∧ inside m

/-- **A disappearing object is in one container**: all containers it is found in have one name, and
no other container is remembered for it. -/
def Single {L : DelDomain} (o : Observing L) : Event → Prop
  | appear _ => True
  | disappear obj movables inside => obj.markerId < 200 →
    ∃ c, (∀ m ∈ found movables inside, m.name = c) ∧
      ∀ d, o.currentContainer obj.name = some d → d = c

end Event

variable {L : DelDomain}

namespace Observing

/-- The transformers as one step. -/
def step (o : Observing L) : Event → Option (Observing L)
  | .appear obj => o.objectAppearTransformer (.movable obj)
  | .disappear obj movables inside => o.objectDisappearTransformer movables inside (.movable obj)

/-- The runs from a start in which every disappearing object is in one container. -/
inductive Observed (start : Observing L) : List Event → Observing L → Prop
  | start : Observed start [] start
  | step {events : List Event} {o o' : Observing L} {event : Event} :
    Observed start events o → event.Single o → o.step event = some o' →
    Observed start (events ++ [event]) o'

/-- Whether the last event about an object is its appearance. -/
def lastAppears (events : List Event) (name : String) : Bool :=
  (events.reverse.find? fun event ↦ event.obj.name = name).any Event.isAppear

/-! ### The two records agree -/

/-- **The invariant**: facts and entries agree on the given objects. -/
structure Tracking (objects : List String) (o : Observing L) : Prop where
  /-- The reasoner knows its state. -/
  latest : L.Latest o.epistemic.domain o.epistemic.latestState
  /-- A thing is recorded in a container if that one is remembered for it. -/
  agree {object container : String} : object ∈ objects → container ∈ objects →
    (o.epistemic.recorded object container = true ↔ o.currentContainer object = some container)

variable {objects : List String} {o o' : Observing L}

/-- **An appearing object** is taken out, and has no entry afterwards. -/
theorem Tracking.appear (hL : L.Lawful) (hnames : ∀ n ∈ objects, ',' ∉ n.toList)
    (h : o.Tracking objects) {obj : MovableObj}
    (hstep : o.objectAppearTransformer (.movable obj) = some o') :
    o'.Tracking objects ∧
      o'.currentContainer = Function.update o.currentContainer obj.name none := by
  rw [objectAppearTransformer] at hstep
  cases hc : o.currentContainer obj.name with
  | none =>
    simp only [hc, Option.some.injEq] at hstep
    subst hstep
    rw [← hc, Function.update_eq_self]
    exact ⟨h, rfl⟩
  | some container =>
    simp only [hc] at hstep
    obtain ⟨e, he, hstep⟩ := Option.bind_eq_some_iff.1 hstep
    obtain rfl := Option.some.inj hstep
    obtain ⟨hids, hrec⟩ := EpistemicReasoning.recorded_takeOutOfContainer hL h.latest he
    refine ⟨⟨hids.latest, fun {object c} hobject hcont ↦ ?_⟩, rfl⟩
    show e.recorded object c = true ↔
      Function.update o.currentContainer obj.name none object = some c
    rw [hrec, h.agree hobject hcont]
    -- the one fact about the object is the one its entry remembers
    rcases eq_or_ne object obj.name with rfl | hne
    · rw [Function.update_self, hc]
      refine ⟨fun hboth ↦ absurd ?_ hboth.1, fun hnone ↦ absurd hnone (by simp)⟩
      rw [Option.some.inj hboth.2]
    · rw [Function.update_of_ne hne]
      refine and_iff_right fun he ↦ hne ?_
      exact (inProposition_inj (hnames _ hobject) (hnames _ hcont) he).1

theorem insertContainer_eq {name c : String} (h : ∀ d, o.currentContainer name = some d → d = c) :
    o.insertContainer name c = Function.update o.currentContainer name (some c) := by
  rw [insertContainer]
  cases hd : o.currentContainer name with
  | none => rfl
  | some d =>
    obtain rfl := h d hd
    exact (hd ▸ Function.update_eq_self name o.currentContainer).symm

/-- **Looking into one movable**: a container in which the object is found, or no change. -/
theorem lookInto_cases {obj m : MovableObj} {inside : MovableObj → Bool}
    (h : o.lookInto obj inside m = some o') :
    o' = o ∨ (1000 ≤ m.markerId ∧ m.status ≠ .hypothetical ∧ inside m) ∧
      ∃ e, o.epistemic.putInContainer robot obj.name m.name = some e ∧
        o' = ⟨e, o.insertContainer obj.name m.name⟩ := by
  rw [lookInto] at h
  split_ifs at h with hid hstatus hin
  · exact .inl (Option.some.inj h).symm
  · exact .inl (Option.some.inj h).symm
  · obtain ⟨e, he, h⟩ := Option.bind_eq_some_iff.1 h
    exact .inr ⟨⟨Nat.le_of_not_lt hid, hstatus, hin⟩, e, he, (Option.some.inj h).symm⟩
  · exact .inl (Option.some.inj h).symm

/-- **Putting an object into the one container** it may have an entry for. -/
theorem Tracking.put (hL : L.Lawful) (hnames : ∀ n ∈ objects, ',' ∉ n.toList)
    (h : o.Tracking objects) {name c : String} (hc : ∀ d, o.currentContainer name = some d → d = c)
    {e : EpistemicReasoning L} (he : o.epistemic.putInContainer robot name c = some e) :
    (⟨e, o.insertContainer name c⟩ : Observing L).Tracking objects := by
  obtain ⟨hids, hrec⟩ := EpistemicReasoning.recorded_putInContainer hL h.latest he
  refine ⟨hids.latest, fun {object c'} hobject hcont ↦ ?_⟩
  show e.recorded object c' = true ↔ o.insertContainer name c object = some c'
  rw [hrec, h.agree hobject hcont, insertContainer_eq hc]
  rcases eq_or_ne object name with rfl | hne
  · rw [Function.update_self, Option.some.injEq]
    refine ⟨?_, fun he ↦ .inl (he ▸ rfl)⟩
    rintro (he | hentry)
    · exact (inProposition_inj (hnames _ hobject) (hnames _ hcont) he).2.symm
    · exact (hc c' hentry).symm
  · rw [Function.update_of_ne hne]
    refine or_iff_right fun he ↦ hne ?_
    exact (inProposition_inj (hnames _ hobject) (hnames _ hcont) he).1

/-- **The loop of a disappearance**, when every container the object is found in is `c`. -/
theorem Tracking.lookInto (hL : L.Lawful) (hnames : ∀ n ∈ objects, ',' ∉ n.toList)
    {obj : MovableObj} {inside : MovableObj → Bool} {movables : List MovableObj} {c : String}
    (hfound : ∀ m ∈ Event.found movables inside, m.name = c) (h : o.Tracking objects)
    (hc : ∀ d, o.currentContainer obj.name = some d → d = c)
    (hstep : movables.foldlM (Observing.lookInto obj inside) o = some o') :
    o'.Tracking objects ∧
      ∀ n, n ≠ obj.name → o'.currentContainer n = o.currentContainer n := by
  induction movables generalizing o with
  | nil =>
    obtain rfl := Option.some.inj hstep
    exact ⟨h, fun _ _ ↦ rfl⟩
  | cons m movables ih =>
    rw [List.foldlM_cons] at hstep
    obtain ⟨o₁, hm, hrest⟩ := Option.bind_eq_some_iff.1 hstep
    have hfound' : ∀ m' ∈ Event.found movables inside, m'.name = c := fun m' hm' ↦
      hfound m' (((List.sublist_cons_self m movables).filter _).subset hm')
    rcases lookInto_cases hm with rfl | ⟨hin, e, he, rfl⟩
    · exact ih hfound' h hc hrest
    · -- the object is found here: a second put would record the same fact
      obtain rfl : m.name = c :=
        hfound m (List.mem_filter.2 ⟨List.mem_cons_self, decide_eq_true hin⟩)
      have hentry : ∀ n, (⟨e, o.insertContainer obj.name m.name⟩ : Observing L).currentContainer n =
          Function.update o.currentContainer obj.name (some m.name) n :=
        fun n ↦ congrFun (insertContainer_eq hc) n
      have hself : ∀ d, (⟨e, o.insertContainer obj.name m.name⟩ : Observing L).currentContainer
          obj.name = some d → d = m.name := by
        intro d hd
        rw [hentry, Function.update_self] at hd
        exact (Option.some.inj hd).symm
      obtain ⟨htracking, hothers⟩ := ih hfound' (h.put hL hnames hc he) hself hrest
      refine ⟨htracking, fun n hn ↦ ?_⟩
      rw [hothers n hn, hentry, Function.update_of_ne hn]

/-- **One event.** The entries of other objects stay. -/
theorem Tracking.step (hL : L.Lawful) (hnames : ∀ n ∈ objects, ',' ∉ n.toList)
    (h : o.Tracking objects) {event : Event} (hsingle : event.Single o)
    (hstep : o.step event = some o') :
    o'.Tracking objects ∧ (∀ n, n ≠ event.obj.name → o'.currentContainer n = o.currentContainer n) ∧
      (event.isAppear → o'.currentContainer event.obj.name = none) := by
  cases event with
  | appear obj =>
    obtain ⟨htracking, hentry⟩ := h.appear hL hnames hstep
    rw [hentry]
    exact ⟨htracking, fun n hn ↦ Function.update_of_ne hn .., fun _ ↦ Function.update_self ..⟩
  | disappear obj movables inside =>
    have hstep' : o.objectDisappearTransformer movables inside (.movable obj) = some o' := hstep
    rw [objectDisappearTransformer] at hstep'
    split_ifs at hstep' with hid
    · obtain rfl := Option.some.inj hstep'
      exact ⟨h, fun _ _ ↦ rfl, nofun⟩
    · obtain ⟨c, hfound, hc⟩ := hsingle (Nat.lt_of_not_le hid)
      obtain ⟨htracking, hothers⟩ := h.lookInto hL hnames hfound hc hstep'
      exact ⟨htracking, hothers, nofun⟩

theorem lastAppears_append (events : List Event) (event : Event) (name : String) :
    lastAppears (events ++ [event]) name =
      if event.obj.name = name then event.isAppear else lastAppears events name := by
  rw [lastAppears, List.reverse_append, List.reverse_singleton, List.singleton_append]
  split_ifs with hname
  · rw [List.find?_cons_of_pos (by simpa using hname)]
    rfl
  · rw [List.find?_cons_of_neg (by simpa using hname)]
    rfl

/-- **All events.** -/
theorem Observed.tracking (hL : L.Lawful) {start : Observing L} {events : List Event}
    (hnames : ∀ n ∈ objects, ',' ∉ n.toList) (h : start.Observed events o)
    (hstart : start.Tracking objects) :
    o.Tracking objects ∧ ∀ n, lastAppears events n → o.currentContainer n = none := by
  induction h with
  | start => exact ⟨hstart, nofun⟩
  | @step events o o' event _ hsingle hstep ih =>
    obtain ⟨htracking, hothers, happear⟩ := ih.1.step hL hnames hsingle hstep
    refine ⟨htracking, fun n hn ↦ ?_⟩
    rw [lastAppears_append] at hn
    split_ifs at hn with hname
    · rw [← hname]
      exact happear hn
    · rw [hothers n (Ne.symm hname)]
      exact ih.2 n hn

end Observing

namespace EpistemicReasoning

variable {order : Del.HashOrder} {e e' : EpistemicReasoning L}

/-! ### Sessions -/

theorem latest_setupDomain {r : Registrations L} (h : r.setupDomain order = some e) :
    L.Latest e.domain e.latestState := by
  obtain ⟨infos, initial, -, -, rfl⟩ := Registrations.setupDomain_eq_some_iff.1 h
  exact .addInitialState ..

theorem latest_call {c : Call} (h : e.call order c = some e') :
    L.Latest e'.domain e'.latestState := by
  cases c with
  | reset => exact latest_setupDomain h
  | addObject type name => exact latest_setupDomain h
  | agentAppear name =>
    obtain ⟨a, -, h⟩ := Option.bind_eq_some_iff.1 h
    exact Option.some.inj h ▸ .performMinimalBottomUp ..
  | agentDisappear name =>
    obtain ⟨a, -, h⟩ := Option.bind_eq_some_iff.1 h
    exact Option.some.inj h ▸ .performMinimalBottomUp ..
  | directConsciousAttention agent object container =>
    obtain ⟨a, -, h⟩ := Option.bind_eq_some_iff.1 h
    obtain ⟨p, -, h⟩ := Option.bind_eq_some_iff.1 h
    exact Option.some.inj h ▸ .performConsciousTopDown ..
  | putInContainer agent object container =>
    obtain ⟨a, -, h⟩ := Option.bind_eq_some_iff.1 h
    obtain ⟨p, -, h⟩ := Option.bind_eq_some_iff.1 h
    exact Option.some.inj h ▸ .performDo ..
  | takeOutOfContainer agent object container =>
    obtain ⟨a, -, h⟩ := Option.bind_eq_some_iff.1 h
    obtain ⟨p, -, h⟩ := Option.bind_eq_some_iff.1 h
    exact Option.some.inj h ▸ .performDo ..

theorem latest_run {calls : List Call} (h : run L order calls = some e) :
    L.Latest e.domain e.latestState :=
  run_induct h latest_setupDomain fun _ hc ↦ latest_call hc

/-- Right after a registration nothing is recorded. -/
theorem recorded_addObject (hL : L.Lawful) {type : EpistemicObjectType} {name : String}
    (h : e.addObject order type name = some e') (object container : String) :
    e'.recorded object container = false := by
  rw [recorded]
  cases hp : L.getPropositionId e'.domain (inProposition object container) with
  | none => rfl
  | some p => exact Registrations.evaluate_setupDomain hL h hp

end EpistemicReasoning

namespace Observing

variable {order : Del.HashOrder} {o : Observing L}

/-- **Consistent bookkeeping** of the given objects after some events: an object is recorded in at
most one container, which is the one that is remembered, and in none when it appeared last. -/
structure Bookkept (objects : List String) (events : List Event) (o : Observing L) : Prop where
  /-- A thing is recorded in one container at most. -/
  one {object c c' : String} : object ∈ objects → c ∈ objects → c' ∈ objects →
    o.epistemic.recorded object c → o.epistemic.recorded object c' → c = c'
  /-- The container it is recorded in is remembered. -/
  remembered {object c : String} : object ∈ objects → c ∈ objects →
    o.epistemic.recorded object c → o.currentContainer object = some c
  /-- What has appeared last is recorded in none. -/
  none_of_appear {object c : String} : object ∈ objects → c ∈ objects →
    lastAppears events object → o.epistemic.recorded object c = false

/-- **The bookkeeping is consistent** in every state of every run that starts without anything in a
container and in which every disappearing object is in one container. -/
theorem bookkept_of_single (hL : L.Lawful) {calls : List EpistemicReasoning.Call}
    {e : EpistemicReasoning L} (he : EpistemicReasoning.run L order calls = some e)
    (hnames : ∀ n ∈ e.allObjects, ',' ∉ n.toList)
    (hempty : ∀ object container, e.recorded object container = false) {events : List Event}
    (h : Observed ⟨e, fun _ ↦ none⟩ events o) : o.Bookkept e.allObjects events := by
  have hstart : Tracking e.allObjects (⟨e, fun _ ↦ none⟩ : Observing L) := by
    refine ⟨EpistemicReasoning.latest_run he, fun {object container} _ _ ↦ ?_⟩
    show e.recorded object container = true ↔ none = some container
    rw [hempty]
    simp
  obtain ⟨htracking, happears⟩ := h.tracking hL hnames hstart
  refine ⟨fun hobject hc hc' hrec hrec' ↦ ?_, fun hobject hc hrec ↦ ?_, fun hobject hc hlast ↦ ?_⟩
  · have hentry := (htracking.agree hobject hc).1 hrec
    have hentry' := (htracking.agree hobject hc').1 hrec'
    exact Option.some.inj (hentry.symm.trans hentry')
  · exact (htracking.agree hobject hc).1 hrec
  · rw [← Bool.not_eq_true]
    intro hrec
    have hentry := (htracking.agree hobject hc).1 hrec
    rw [happears _ hlast] at hentry
    exact absurd hentry (by simp)

/-! ### Two boxes and a cube -/

/-- Two boxes and a cube are registered. -/
def boxesAndCube : List EpistemicReasoning.Call :=
  [.addObject .container "marker-1001", .addObject .container "marker-1002",
    .addObject .storable "marker-1"]

def cube : MovableObj := ⟨"marker-1", 1, .lost⟩

def boxes : List MovableObj := [⟨"marker-1001", 1001, .tracked⟩, ⟨"marker-1002", 1002, .tracked⟩]

/-- The cube disappears in the first box. -/
def intoFirst : Event := .disappear cube boxes fun m ↦ m.markerId = 1001

/-- The cube disappears where the boxes overlap. -/
def intoBoth : Event := .disappear cube boxes fun _ ↦ true

theorem bookkept_of_single_intoFirst :
    ∃ (e : EpistemicReasoning plainDomain) (o o' : Observing plainDomain),
      EpistemicReasoning.run plainDomain .insertion boxesAndCube = some e ∧
      step ⟨e, fun _ ↦ none⟩ intoFirst = some o ∧ o.step (.appear cube) = some o' ∧
      o.epistemic.recorded "marker-1" "marker-1001" = true ∧
      o.Bookkept e.allObjects [intoFirst] ∧
      o'.Bookkept e.allObjects [intoFirst, .appear cube] := by
  have hscene : (EpistemicReasoning.run plainDomain .insertion boxesAndCube).bind (fun e ↦
      (step ⟨e, fun _ ↦ none⟩ intoFirst).bind fun o ↦ (o.step (.appear cube)).map fun _ ↦
        (e.allObjects, o.epistemic.recorded "marker-1" "marker-1001")) =
      some (["marker-1001", "marker-1002", "marker-1"], true) := by
    decide
  obtain ⟨e, he, hscene⟩ := Option.bind_eq_some_iff.1 hscene
  obtain ⟨o, ho, hscene⟩ := Option.bind_eq_some_iff.1 hscene
  obtain ⟨o', ho', hscene⟩ := Option.map_eq_some_iff.1 hscene
  simp only [Prod.mk.injEq] at hscene
  obtain ⟨hobjects, hfirst⟩ := hscene
  have hnames : ∀ n ∈ e.allObjects, ',' ∉ n.toList := by
    rw [hobjects]
    decide
  obtain ⟨e₁, -, hlast⟩ := @EpistemicReasoning.exists_of_run_concat plainDomain .insertion e
    [.addObject .container "marker-1001", .addObject .container "marker-1002"]
    (.addObject .storable "marker-1") he
  have hempty := EpistemicReasoning.recorded_addObject lawful_plainDomain hlast
  have hsingle : intoFirst.Single (⟨e, fun _ ↦ none⟩ : Observing plainDomain) := fun _ ↦
    ⟨"marker-1001", by decide, nofun⟩
  have hobserved : Observed ⟨e, fun _ ↦ none⟩ [intoFirst] o := .step .start hsingle ho
  exact ⟨e, o, o', he, ho, ho', hfirst,
    bookkept_of_single lawful_plainDomain he hnames hempty hobserved,
    bookkept_of_single lawful_plainDomain he hnames hempty (hobserved.step trivial ho')⟩

/-- **A cube in two boxes** is recorded in both of them, and when it appears again it is still
recorded in the second. -/
theorem two_containers_recorded :
    ∃ (e : EpistemicReasoning plainDomain) (o o' : Observing plainDomain),
      EpistemicReasoning.run plainDomain .insertion boxesAndCube = some e ∧
      step ⟨e, fun _ ↦ none⟩ intoBoth = some o ∧ o.step (.appear cube) = some o' ∧
      ¬ o.Bookkept e.allObjects [intoBoth] ∧
      ¬ o'.Bookkept e.allObjects [intoBoth, .appear cube] := by
  have hscene : (EpistemicReasoning.run plainDomain .insertion boxesAndCube).bind (fun e ↦
      (step ⟨e, fun _ ↦ none⟩ intoBoth).bind fun o ↦ (o.step (.appear cube)).map fun o' ↦
        (e.allObjects, o.epistemic.recorded "marker-1" "marker-1001",
          o.epistemic.recorded "marker-1" "marker-1002",
          o'.epistemic.recorded "marker-1" "marker-1002")) =
      some (["marker-1001", "marker-1002", "marker-1"], true, true, true) := by
    decide
  obtain ⟨e, he, hscene⟩ := Option.bind_eq_some_iff.1 hscene
  obtain ⟨o, ho, hscene⟩ := Option.bind_eq_some_iff.1 hscene
  obtain ⟨o', ho', hscene⟩ := Option.map_eq_some_iff.1 hscene
  simp only [Prod.mk.injEq] at hscene
  obtain ⟨hobjects, hfirst, hsecond, hstays⟩ := hscene
  refine ⟨e, o, o', he, ho, ho', fun h ↦ ?_, fun h ↦ ?_⟩
  · have heq := @h.one "marker-1" "marker-1001" "marker-1002" (by rw [hobjects]; decide)
      (by rw [hobjects]; decide) (by rw [hobjects]; decide) hfirst hsecond
    exact absurd heq (by decide)
  · have hnone := @h.none_of_appear "marker-1" "marker-1002" (by rw [hobjects]; decide)
      (by rw [hobjects]; decide) (by decide)
    exact absurd (hstays.symm.trans hnone) (by decide)

end Observing

end Reasoning
