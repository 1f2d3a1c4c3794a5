import R2DTU.Reasoning.WorldModel

/-!
# New objects are announced

A movable object is announced by a `NewObject` event when it is promoted. Its name says what it is,
so no name should be announced twice. Two hypotheses of one name are created when a frame has two
percepts that nothing matches; from then on every percept goes to the one that comes first in the
vector, and the other is never promoted and times out.

This is an argument about the order of the vector, and a deletion changes it: the last object takes
the place of the deleted one. When that puts a hypothesis in front of an object of the same name
that has been promoted, the hypothesis gets the next percept and is promoted too
(`announced_twice`). `KeepsOrder` excludes this for one round of the loop over the objects, and
`announced_once` is the result for the runs that meet it at every deletion.

The invariant has two parts. `Behind` is the order: of two movables with one name, the one behind is
unconfirmed. The other is a count: as many events announce a name as there are promoted objects of
that name, because a promoted object is never deleted.
-/

namespace WorldModel

open Reasoning (WorldObjectStatus)

variable {order : SetOrder}

/-! ### Names -/

theorem dash_notMem_toDigits {n : ℕ} : '-' ∉ Nat.toDigits 10 n := fun h ↦ by
  simpa using Nat.isDigit_of_mem_toDigits (by decide) (by decide) h

/-- The id of a movable can be read off its name. -/
theorem id_eq_of_movableName_eq {base base' : String} {i j : ℕ}
    (h : movableName base i = movableName base' j) : i = j := by
  have hlist : base.toList ++ '-' :: Nat.toDigits 10 i =
      base'.toList ++ '-' :: Nat.toDigits 10 j := by
    simpa [movableName, toString, Nat.repr] using congrArg String.toList h
  -- from the end, the id is what comes before the first dash
  have hread : ∀ (l : List Char) (n : ℕ), ((l ++ '-' :: Nat.toDigits 10 n).reverse.takeWhile
      (· ≠ '-')) = (Nat.toDigits 10 n).reverse := by
    intro l n
    rw [List.reverse_append, List.reverse_cons, List.append_assoc, List.takeWhile_append_of_pos]
    · simp
    · intro c hc
      rw [decide_eq_true_eq]
      rintro rfl
      exact dash_notMem_toDigits (List.mem_reverse.1 hc)
  have hdigits := congrArg (fun l : List Char ↦ l.reverse.takeWhile (· ≠ '-')) hlist
  simp only [hread, List.reverse_inj] at hdigits
  rw [← @Nat.ofDigitChars_ten_toDigits i, hdigits, Nat.ofDigitChars_ten_toDigits]

namespace WorldObject

variable {a b obj : WorldObject} {percept : Percept}

/-- Both are movables, of one name. -/
def SameName (a b : WorldObject) : Prop := a.type = .movable ∧ b.type = .movable ∧ a.name = b.name

/-- A hypothesis without the sightings it needs. -/
def Unconfirmed (obj : WorldObject) : Prop :=
  obj.status = .hypothetical ∧ obj.sightingsCounter < obj.neededSightings

/-- Of two movables with one name, the one behind is unconfirmed. -/
def Behind (a b : WorldObject) : Prop := SameName a b → b.Unconfirmed

/-- A movable has the name it was created with. -/
def Named (obj : WorldObject) : Prop :=
  obj.type = .movable → ∃ base, obj.name = movableName base obj.id

/-- A promoted movable of the name. -/
def promoted (name : String) (obj : WorldObject) : Bool :=
  obj.type = .movable && obj.name = name && obj.status ≠ .hypothetical

/-- **Movables of one name match the same percepts.** -/
theorem isMatch_eq_of_sameName (ha : a.Named) (hb : b.Named) (h : SameName a b) :
    a.isMatch percept = b.isMatch percept := by
  obtain ⟨hta, htb, hname⟩ := h
  obtain ⟨base, hbase⟩ := ha hta
  obtain ⟨base', hbase'⟩ := hb htb
  have hid : a.id = b.id := id_eq_of_movableName_eq (hbase ▸ hbase' ▸ hname)
  cases percept with
  | marker p => simp only [isMatch, hta, htb, hid]
  | person p => simp [isMatch, hta, htb]
  | object p => simp only [isMatch, hta, htb, hname]

/-! ### Sightings -/

/-- What a sighting leaves as it is. -/
theorem runUpdate_spec (obj : WorldObject) (percept : Percept) :
    (obj.runUpdate percept).type = obj.type ∧ (obj.runUpdate percept).status = obj.status ∧
      (obj.runUpdate percept).shouldDelete = obj.shouldDelete ∧
      (obj.type = .movable → (obj.runUpdate percept).name = obj.name ∧
        (obj.runUpdate percept).id = obj.id) := by
  have hsight : obj.produceSighting.type = obj.type ∧ obj.produceSighting.status = obj.status ∧
      obj.produceSighting.shouldDelete = obj.shouldDelete ∧
      obj.produceSighting.name = obj.name ∧ obj.produceSighting.id = obj.id := by
    unfold produceSighting
    split <;> exact ⟨rfl, rfl, rfl, rfl, rfl⟩
  obtain ⟨htype, hstatus, hdelete, hname, hid⟩ := hsight
  unfold runUpdate update
  split
  · split_ifs with hperson
    · refine ⟨htype, hstatus, hdelete, fun hmov ↦ ?_⟩
      rw [htype, hmov] at hperson
      exact WorldObjectType.noConfusion hperson
    · exact ⟨htype, hstatus, hdelete, fun _ ↦ ⟨hname, hid⟩⟩
  · exact ⟨htype, hstatus, hdelete, fun _ ↦ ⟨hname, hid⟩⟩

theorem named_runUpdate (h : obj.Named) : (obj.runUpdate percept).Named := by
  obtain ⟨htype, -, -, hmov⟩ := runUpdate_spec obj percept
  intro ht
  obtain ⟨hname, hid⟩ := hmov (htype ▸ ht)
  rw [hname, hid]
  exact h (htype ▸ ht)

theorem promoted_runUpdate (name : String) :
    (obj.runUpdate percept).promoted name = obj.promoted name := by
  obtain ⟨htype, hstatus, -, hmov⟩ := runUpdate_spec obj percept
  unfold promoted
  rw [htype, hstatus]
  by_cases ht : obj.type = .movable
  · rw [(hmov ht).1]
  · simp [ht]

theorem sameName_runUpdate_left : SameName (a.runUpdate percept) b ↔ SameName a b := by
  obtain ⟨htype, -, -, hmov⟩ := runUpdate_spec a percept
  unfold SameName
  rw [htype]
  exact and_congr_right fun ht ↦ by rw [(hmov ht).1]

theorem sameName_comm : SameName a b ↔ SameName b a :=
  ⟨fun ⟨ha, hb, h⟩ ↦ ⟨hb, ha, h.symm⟩, fun ⟨hb, ha, h⟩ ↦ ⟨ha, hb, h.symm⟩⟩

/-- One sighting is not enough where more are needed. -/
theorem unconfirmed_new {uid id : ℕ} {type : WorldObjectType} {name : String}
    {needed lock lose : ℤ} (h : 1 < needed) :
    ((new uid type name id needed lock lose).runUpdate percept).Unconfirmed := by
  have hsight : (new uid type name id needed lock lose).produceSighting.Unconfirmed :=
    ⟨rfl, by simpa [produceSighting, new] using h⟩
  unfold runUpdate update
  split
  · split_ifs
    · exact hsight
    · exact hsight
  · exact hsight

/-! ### Ticks -/

/-- What a tick leaves as it is. -/
theorem tick_spec (obj : WorldObject) :
    obj.tick.1.type = obj.type ∧ obj.tick.1.name = obj.name ∧ obj.tick.1.id = obj.id := by
  unfold tick tickStatus
  simp only
  split <;> split_ifs <;> exact ⟨rfl, rfl, rfl⟩

/-- **What a tick does to the status**: a hypothesis with the sightings it needs is promoted and
announced, one without them stays a hypothesis and may be deleted, and nothing else is either. -/
theorem tick_cases (h : obj.shouldDelete = false) :
    (obj.Unconfirmed ∧ obj.tick.1.Unconfirmed ∧ obj.tick.2 = none) ∨
      (¬ obj.Unconfirmed ∧ obj.tick.1.shouldDelete = false ∧
        obj.tick.1.status ≠ .hypothetical ∧
        (obj.tick.2 = some .newObject ↔ obj.status = .hypothetical)) := by
  unfold tick tickStatus Unconfirmed
  simp only
  rcases hstatus : obj.status with _ | _ | _
  · by_cases hneed : obj.sightingsCounter ≥ obj.neededSightings
    · exact Or.inr (by simp [hneed, h])
    · refine Or.inl ?_
      rw [if_neg hneed]
      split_ifs
      all_goals
        simp only [hstatus]
        exact ⟨⟨trivial, by omega⟩, ⟨trivial, by omega⟩, trivial⟩
  · refine Or.inr ?_
    split_ifs <;> simp [h, hstatus]
  · refine Or.inr ?_
    split_ifs <;> simp [h, hstatus]

theorem promoted_tick (h : obj.shouldDelete = false) (name : String) :
    (obj.tick.1.promoted name = true ↔ obj.promoted name = true ∨
      (obj.tick.2 = some .newObject ∧ obj.type = .movable ∧ obj.name = name)) ∧
    ¬ (obj.promoted name = true ∧ obj.tick.2 = some .newObject) := by
  obtain ⟨htype, hname, -⟩ := tick_spec obj
  simp only [promoted, htype, hname, Bool.and_eq_true, decide_eq_true_eq]
  rcases tick_cases h with ⟨⟨hhyp, -⟩, ⟨hhyp', -⟩, hnone⟩ | ⟨-, -, hstatus, hnew⟩
  · simp [hhyp, hhyp', hnone]
  · rw [hnew]
    tauto

end WorldObject

/-! ### The order of the objects -/

/-- The event announces a movable of the name. -/
def WorldEvent.announces (name : String) (e : WorldEvent) : Bool :=
  e.type = .newObject && e.obj.type = .movable && e.obj.name = name

/-- **The invariant** of the objects and of the events so far. -/
structure Announced (objects : List WorldObject) (log : List WorldEvent) : Prop where
  /-- Of two movables with one name, the one behind is unconfirmed. -/
  behind : objects.Pairwise WorldObject.Behind
  /-- A name fits its object. -/
  named {obj : WorldObject} (h : obj ∈ objects) : obj.Named
  /-- Nothing waits for its deletion. -/
  alive {obj : WorldObject} (h : obj ∈ objects) : obj.shouldDelete = false
  /-- A name was announced once for each object that is believed in. -/
  count_eq (name : String) :
    log.countP (WorldEvent.announces name) = objects.countP (WorldObject.promoted name)

variable {objects : List WorldObject} {log : List WorldEvent}

/-- What the invariant is for: at most one promoted object of a name, and one event. -/
theorem Announced.countP_le_one (h : Announced objects log) (name : String) :
    objects.countP (WorldObject.promoted name) ≤ 1 := by
  have hbehind := h.behind
  clear h
  induction objects with
  | nil => exact Nat.zero_le _
  | cons a objects ih =>
    obtain ⟨ha, htail⟩ := List.pairwise_cons.1 hbehind
    rw [List.countP_cons]
    by_cases hp : a.promoted name = true
    · -- behind a promoted object nobody of its name is promoted
      have hzero : objects.countP (WorldObject.promoted name) = 0 := by
        rw [List.countP_eq_zero]
        intro b hb hpb
        simp only [WorldObject.promoted, Bool.and_eq_true, decide_eq_true_eq] at hp hpb
        exact hpb.2 (ha b hb ⟨hp.1.1, hpb.1.1, hp.1.2.trans hpb.1.2.symm⟩).1
      rw [hzero, if_pos hp]
    · rw [if_neg hp]
      exact ih htail

/-- **One object changes.** Nobody in front of it gets a reason to mind, and the count follows the
events. -/
theorem Announced.set (h : Announced objects log) {i : ℕ} {x y : WorldObject}
    {log' : List WorldEvent} (hi : objects[i]? = some x)
    (hleft : ∀ a ∈ objects.take i, a.Behind x → a.Behind y)
    (hright : ∀ b, y.SameName b → x.SameName b) (hnamed : y.Named) (halive : y.shouldDelete = false)
    (hcount : ∀ name, log'.countP (WorldEvent.announces name) +
      (if x.promoted name then 1 else 0) = log.countP (WorldEvent.announces name) +
        (if y.promoted name then 1 else 0)) :
    Announced (objects.set i y) log' := by
  refine ⟨SwapPop.pairwise_set h.behind hi hleft fun b hb hyb ↦ hb (hright b hyb),
    fun {obj} hobj ↦ ?_, fun {obj} hobj ↦ ?_, fun name ↦ ?_⟩
  · exact (List.mem_or_eq_of_mem_set hobj).elim h.named fun he ↦ he ▸ hnamed
  · exact (List.mem_or_eq_of_mem_set hobj).elim h.alive fun he ↦ he ▸ halive
  · have hold := h.count_eq name
    obtain ⟨pre, post, rfl, rfl⟩ := SwapPop.exists_split hi
    rw [SwapPop.set_middle]
    rw [List.countP_append, List.countP_cons] at hold ⊢
    have hnew := hcount name
    omega

/-! ### Percepts -/

/-- A percept goes to the first object it matches, and objects of one name match alike. -/
theorem Announced.matchPercept (h : Announced objects log) {percept : Percept}
    {objects' : List WorldObject} (hm : World.matchPercept objects percept = some objects') :
    Announced objects' log := by
  obtain ⟨i, hi, rfl⟩ := Option.map_eq_some_iff.1 hm
  obtain ⟨hlt, hmatch, hfirst⟩ := List.findIdx?_eq_some_iff_getElem.1 hi
  have hget : objects[i]? = some objects[i] := List.getElem?_eq_getElem hlt
  have hmem : objects[i] ∈ objects := List.getElem_mem hlt
  rw [List.modify_eq_set_getElem?, hget]
  refine h.set hget (fun a ha _ hsame ↦ ?_) (fun b ↦ WorldObject.sameName_runUpdate_left.1)
    (WorldObject.named_runUpdate (h.named hmem)) ?_ fun name ↦ ?_
  · -- an object of that name in front would have matched first
    obtain ⟨j, hj, rfl⟩ := List.getElem_of_mem ha
    rw [List.getElem_take] at hsame
    rw [List.length_take] at hj
    have hsame' := WorldObject.sameName_comm.1 (WorldObject.sameName_runUpdate_left.1
      (WorldObject.sameName_comm.1 hsame))
    have hj' := hfirst j (by omega)
    rw [WorldObject.isMatch_eq_of_sameName (h.named (List.getElem_mem _)) (h.named hmem) hsame']
      at hj'
    exact absurd hmatch hj'
  · rw [(WorldObject.runUpdate_spec _ percept).2.2.1]
    exact h.alive hmem
  · rw [WorldObject.promoted_runUpdate]

/-- A hypothesis is unconfirmed after its first sighting, whoever is in front of it. -/
theorem Announced.addObject {w : World} (h : Announced w.objects log) {obj : WorldObject}
    {percept : Percept} (hnew : (obj.runUpdate percept).Unconfirmed) (hnamed : obj.Named)
    (halive : obj.shouldDelete = false) :
    Announced (w.addObject obj percept).objects log := by
  refine ⟨List.pairwise_append.2 ⟨h.behind, List.pairwise_singleton _ _, fun a _ b hb _ ↦ ?_⟩,
    fun {o} ho ↦ ?_, fun {o} ho ↦ ?_, fun name ↦ ?_⟩
  · rwa [List.mem_singleton.1 hb]
  · rcases List.mem_append.1 ho with ho | ho
    · exact h.named ho
    · rw [List.mem_singleton.1 ho]
      exact WorldObject.named_runUpdate hnamed
  · rcases List.mem_append.1 ho with ho | ho
    · exact h.alive ho
    · rw [List.mem_singleton.1 ho, (WorldObject.runUpdate_spec _ _).2.2.1]
      exact halive
  · have hzero : (obj.runUpdate percept).promoted name = false := by
      simp [WorldObject.promoted, hnew.1]
    rw [h.count_eq, World.addObject, List.countP_append, List.countP_singleton, hzero]
    rfl

theorem Announced.createHypothesis {w : World} (h : Announced w.objects log) (percept : Percept) :
    Announced (w.createHypothesis percept).objects log := by
  rcases w.createHypothesis_cases percept with hsame | ⟨obj, ⟨id, name, hobj⟩, hadd⟩
  · rwa [hsame]
  · rw [hadd]
    rcases hobj with rfl | rfl
    · exact h.addObject (WorldObject.unconfirmed_new (by decide))
        (fun ht ↦ WorldObjectType.noConfusion ht) rfl
    · exact h.addObject (WorldObject.unconfirmed_new (by decide)) (fun _ ↦ ⟨name, rfl⟩) rfl

/-- **A message** keeps the order. -/
theorem Announced.processPercepts {w w' : World} (h : Announced w.objects log)
    {msg : PerceptsMsg} (hp : w.processPercepts order msg = some w') :
    Announced w'.objects log :=
  World.processPercepts_rule (P := fun w ↦ Announced w.objects log)
    (fun _ _ _ hw hmatch ↦ hw.matchPercept hmatch) (fun _ percept hw ↦ hw.createHypothesis percept)
    (fun _ hw ↦ hw) (fun _ _ hw ↦ hw) h hp

/-! ### The loop over the objects -/

/-- When the round deletes its object, the last object is not moved in front of one of its own name
that has the sightings it needs. -/
def World.TickState.KeepsOrder (st : World.TickState) (obj : WorldObject) : Prop :=
  obj.tick.1.shouldDelete = true → ∀ last ∈ st.objects.getLast?,
    ∀ y ∈ (st.objects.drop (st.index + 1)).dropLast, last.Behind y

/-- Every round of the loop keeps the order. -/
def World.LoopKeepsOrder : ℕ → World.TickState → Prop
  | 0, _ => True
  | fuel + 1, st =>
    match st.objects[st.index]? with
    | none => True
    | some obj => st.KeepsOrder obj ∧ World.LoopKeepsOrder fuel (st.visit obj)

instance (a b : WorldObject) : Decidable (a.Behind b) :=
  inferInstanceAs (Decidable (a.type = .movable ∧ b.type = .movable ∧ a.name = b.name →
    b.status = .hypothetical ∧ b.sightingsCounter < b.neededSightings))

instance (st : World.TickState) (obj : WorldObject) : Decidable (st.KeepsOrder obj) :=
  inferInstanceAs (Decidable (_ → ∀ last ∈ st.objects.getLast?,
    ∀ y ∈ (st.objects.drop (st.index + 1)).dropLast, last.Behind y))

instance World.decidableLoopKeepsOrder :
    (fuel : ℕ) → (st : World.TickState) → Decidable (World.LoopKeepsOrder fuel st)
  | 0, _ => .isTrue trivial
  | fuel + 1, st =>
    match hget : st.objects[st.index]? with
    | none => .isTrue (by simp only [World.LoopKeepsOrder, hget])
    | some obj =>
      have := World.decidableLoopKeepsOrder fuel (st.visit obj)
      decidable_of_iff (st.KeepsOrder obj ∧ World.LoopKeepsOrder fuel (st.visit obj))
        (by simp only [World.LoopKeepsOrder, hget])

/-- A tick that does not delete its object. -/
theorem Announced.tickObject (h : Announced objects log) {i : ℕ} {obj : WorldObject}
    (hi : objects[i]? = some obj) (hkeep : obj.tick.1.shouldDelete = false) :
    Announced (objects.set i obj.tick.1)
      (log ++ (obj.tick.2.map fun type ↦ (⟨type, obj.tick.1⟩ : WorldEvent)).toList) := by
  have hmem := List.mem_of_getElem? hi
  have halive := h.alive hmem
  obtain ⟨htype, hname, hid⟩ := obj.tick_spec
  have hsame : ∀ {a : WorldObject}, a.SameName obj.tick.1 ↔ a.SameName obj := by
    intro a
    rw [WorldObject.SameName, htype, hname]
    rfl
  refine h.set hi (fun a _ hb hab ↦ ?_) (fun b hb ↦ ?_) (fun ht ↦ ?_) hkeep fun name ↦ ?_
  · have hun := hb (hsame.1 hab)
    rcases WorldObject.tick_cases halive with ⟨-, hun', -⟩ | ⟨hnot, -⟩
    · exact hun'
    · exact absurd hun hnot
  · exact WorldObject.sameName_comm.1 (hsame.1 (WorldObject.sameName_comm.1 hb))
  · rw [hname, hid]
    exact h.named hmem (htype ▸ ht)
  · obtain ⟨hiff, hnot⟩ := WorldObject.promoted_tick halive name
    rw [List.countP_append]
    rcases hevent : obj.tick.2 with _ | type
    · simp only [hevent, reduceCtorEq, false_and, or_false, Bool.coe_iff_coe] at hiff
      simp [hiff]
    · have hone : [(⟨type, obj.tick.1⟩ : WorldEvent)].countP (WorldEvent.announces name) =
          if type = .newObject ∧ obj.type = .movable ∧ obj.name = name then 1 else 0 := by
        simp [WorldEvent.announces, htype, hname, and_assoc]
      rw [Option.map_some, Option.toList_some, hone]
      simp only [hevent, Option.some.injEq] at hiff hnot
      simp only [hiff]
      split_ifs <;> first | omega | tauto

/-- **One round of the loop.** -/
theorem Announced.visit {st : World.TickState} {obj : WorldObject}
    (h : Announced st.objects (log ++ st.events)) (hget : st.objects[st.index]? = some obj)
    (hk : st.KeepsOrder obj) :
    Announced (st.visit obj).objects (log ++ (st.visit obj).events) := by
  have hlt := (List.getElem?_eq_some_iff.1 hget).1
  unfold World.TickState.visit
  simp only
  split_ifs with hdelete
  · rw [SwapPop.swapPop_set hlt]
    have hperm := SwapPop.perm_swapPop hget
    have hobj : obj.Unconfirmed ∧ obj.tick.2 = none := by
      rcases WorldObject.tick_cases (h.alive (List.mem_of_getElem? hget)) with
        ⟨hun, -, hnone⟩ | ⟨-, hfalse, -⟩
      · exact ⟨hun, hnone⟩
      · exact absurd hdelete (by simp [hfalse])
    rw [hobj.2, Option.map_none, Option.toList_none, List.append_nil]
    refine ⟨SwapPop.pairwise_swapPop hlt h.behind (hk hdelete), fun ho ↦ ?_, fun ho ↦ ?_,
      fun name ↦ ?_⟩
    · exact h.named (hperm.mem_iff.2 (List.mem_cons_of_mem _ ho))
    · exact h.alive (hperm.mem_iff.2 (List.mem_cons_of_mem _ ho))
    · have hzero : obj.promoted name = false := by simp [WorldObject.promoted, hobj.1.1]
      rw [h.count_eq, hperm.countP_eq, List.countP_cons_of_neg (by simp [hzero])]
  · rw [← List.append_assoc]
    exact h.tickObject hget (by simpa using hdelete)

/-- **The whole loop.** -/
theorem Announced.tickLoop {fuel : ℕ} {st : World.TickState}
    (h : Announced st.objects (log ++ st.events)) (hk : World.LoopKeepsOrder fuel st) :
    Announced (World.tickLoop fuel st).objects (log ++ (World.tickLoop fuel st).events) := by
  induction fuel generalizing st with
  | zero => exact h
  | succ fuel ih =>
    unfold World.tickLoop
    unfold World.LoopKeepsOrder at hk
    cases hget : st.objects[st.index]? with
    | none => exact h
    | some obj =>
      rw [hget] at hk
      exact ih (h.visit hget hk.1) hk.2

/-! ### Runs -/

/-- What happens to a world, apart from `World::clear`. -/
inductive Command
  | percepts (msg : PerceptsMsg)
  | tick (pending : List PerceptsMsg)
  | pause (paused : Bool)
  | requestCalibration (id : ℕ)

namespace World

def exec (order : SetOrder) (w : World) : Command → Option World
  | .percepts msg => w.processPercepts order msg
  | .tick pending => w.tick order pending
  | .pause paused => some (w.pause paused)
  | .requestCalibration id => some (w.requestCalibration id)

/-- The events a command emits. A paused tick leaves the old ones alone. -/
def emitted (w w' : World) : Command → List WorldEvent
  | .tick _ => if w.isPaused then [] else w'.latestEvents
  | _ => []

/-- A run of commands, with all events it emits. -/
def run (order : SetOrder) : World → List Command → Option (World × List WorldEvent)
  | w, [] => some (w, [])
  | w, c :: cs => (w.exec order c).bind fun w' ↦
      (run order w' cs).map fun r ↦ (r.1, w.emitted w' c ++ r.2)

/-- Every deletion of the command keeps the order. A tick deletes only in the loop over the objects,
which it runs when percepts have come in. -/
def KeepsOrder (order : SetOrder) (w : World) : Command → Prop
  | .tick pending => w.isPaused = false →
      ∀ w' ∈ pending.foldlM (processPercepts order) { w with latestEvents := [] },
        w'.newPercepts = true → LoopKeepsOrder w'.objects.length ⟨w'.objects, 0, [], []⟩
  | _ => True

/-- Every deletion of the run keeps the order. -/
def RunKeepsOrder (order : SetOrder) : World → List Command → Prop
  | _, [] => True
  | w, c :: cs => w.KeepsOrder order c ∧ ∀ w' ∈ w.exec order c, RunKeepsOrder order w' cs

instance (w : World) (c : Command) : Decidable (w.KeepsOrder order c) :=
  match c with
  | .tick pending => inferInstanceAs (Decidable (_ → ∀ w' ∈ pending.foldlM (processPercepts order)
      { w with latestEvents := [] }, w'.newPercepts = true →
        LoopKeepsOrder w'.objects.length ⟨w'.objects, 0, [], []⟩))
  | .percepts _ => .isTrue trivial
  | .pause _ => .isTrue trivial
  | .requestCalibration _ => .isTrue trivial

instance decidableRunKeepsOrder :
    (w : World) → (cs : List Command) → Decidable (w.RunKeepsOrder order cs)
  | _, [] => .isTrue trivial
  | w, c :: cs =>
    have := fun w' ↦ decidableRunKeepsOrder w' cs
    inferInstanceAs (Decidable (w.KeepsOrder order c ∧
      ∀ w' ∈ w.exec order c, RunKeepsOrder order w' cs))

end World

theorem World.latestEvents_createHypothesis (w : World) (percept : Percept) :
    (w.createHypothesis percept).latestEvents = w.latestEvents := by
  rcases w.createHypothesis_cases percept with hsame | ⟨obj, -, hadd⟩
  · rw [hsame]
  · rw [hadd]
    rfl

/-- Messages emit no events. -/
theorem World.latestEvents_foldlM {w w' : World} {pending : List PerceptsMsg}
    (hw : pending.foldlM (World.processPercepts order) w = some w') :
    w'.latestEvents = w.latestEvents :=
  World.foldlM_processPercepts_rule (P := fun w' ↦ w'.latestEvents = w.latestEvents)
    (fun _ _ _ h hp ↦ World.processPercepts_rule (P := fun w' ↦ w'.latestEvents = w.latestEvents)
      (fun _ _ _ h _ ↦ h) (fun w' percept h ↦ (w'.latestEvents_createHypothesis percept).trans h)
      (fun _ h ↦ h) (fun _ _ h ↦ h) h hp) rfl hw

theorem Announced.foldlM_processPercepts {w w' : World} {pending : List PerceptsMsg}
    (h : Announced w.objects log)
    (hw : pending.foldlM (World.processPercepts order) w = some w') : Announced w'.objects log :=
  World.foldlM_processPercepts_rule (P := fun w ↦ Announced w.objects log)
    (fun _ _ _ h hp ↦ h.processPercepts hp) h hw

/-- **One command.** -/
theorem Announced.exec {w w' : World} {c : Command} (h : Announced w.objects log)
    (hw : w.exec order c = some w') (hk : w.KeepsOrder order c) :
    Announced w'.objects (log ++ w.emitted w' c) := by
  cases c with
  | percepts msg =>
    rw [show w.emitted w' (.percepts msg) = [] from rfl, List.append_nil]
    exact h.processPercepts hw
  | tick pending =>
    simp only [World.exec, World.tick] at hw
    simp only [World.emitted]
    split_ifs at hw ⊢ with hpaused
    · obtain rfl := Option.some.inj hw
      rwa [List.append_nil]
    · obtain ⟨w₁, hw₁, rfl⟩ := Option.map_eq_some_iff.1 hw
      have hstart : Announced w₁.objects log :=
        Announced.foldlM_processPercepts (w := { w with latestEvents := [] }) h hw₁
      split_ifs with hnew
      · have hloop := @Announced.tickLoop log w₁.objects.length ⟨w₁.objects, 0, [], []⟩
          (by rwa [List.append_nil]) (hk (by simpa using hpaused) w₁ hw₁ hnew)
        exact hloop
      · rw [World.latestEvents_foldlM hw₁, List.append_nil]
        exact hstart
  | pause paused =>
    obtain rfl := Option.some.inj hw
    rwa [show w.emitted _ (.pause paused) = [] from rfl, List.append_nil]
  | requestCalibration id =>
    obtain rfl := Option.some.inj hw
    rwa [show w.emitted _ (.requestCalibration id) = [] from rfl, List.append_nil]

/-- **A whole run.** -/
theorem Announced.run {w w' : World} {cs : List Command} {emitted : List WorldEvent}
    (h : Announced w.objects log) (hrun : w.run order cs = some (w', emitted))
    (hk : w.RunKeepsOrder order cs) : Announced w'.objects (log ++ emitted) := by
  induction cs generalizing w log emitted with
  | nil =>
    obtain ⟨rfl, rfl⟩ := Prod.mk.inj (Option.some.inj hrun)
    rwa [List.append_nil]
  | cons c cs ih =>
    obtain ⟨w₁, hw₁, hrest⟩ := Option.bind_eq_some_iff.1 hrun
    obtain ⟨⟨w₂, later⟩, hlater, hpair⟩ := Option.map_eq_some_iff.1 hrest
    obtain ⟨rfl, rfl⟩ := Prod.mk.inj hpair
    rw [← List.append_assoc]
    exact ih (h.exec hw₁ hk.1) hlater (hk.2 w₁ hw₁)

/-- **Each object is announced once.** In a run where no deletion moves a hypothesis in front of an
object of its name that has the sightings it needs, every movable name is announced at most once,
and no two promoted movables have one name. -/
theorem announced_once (order : SetOrder) (newPercepts : Bool) (cs : List Command) (w : World)
    (log : List WorldEvent) (hrun : (World.new newPercepts).run order cs = some (w, log))
    (hk : (World.new newPercepts).RunKeepsOrder order cs) :
    (∀ name, log.countP (WorldEvent.announces name) ≤ 1) ∧
      w.objects.Pairwise fun a b ↦ ¬ (a.SameName b ∧ a.status ≠ .hypothetical ∧
        b.status ≠ .hypothetical) := by
  have hstart : Announced (World.new newPercepts).objects [] :=
    ⟨List.Pairwise.nil, fun h ↦ absurd h List.not_mem_nil, fun h ↦ absurd h List.not_mem_nil,
      fun _ ↦ rfl⟩
  have hend : Announced w.objects log := hstart.run hrun hk
  refine ⟨fun name ↦ ?_, hend.behind.imp fun hab ⟨hsame, _, hb⟩ ↦ hb (hab hsame).1⟩
  rw [hend.count_eq]
  exact hend.countP_le_one name

namespace Cups

/-- A marker of id 0, which calibrates source 0. -/
def calibration : Command := .percepts ⟨[⟨0, fun _ _ ↦ 1⟩], [], [], 0⟩

def cup : ObjectPercept := ⟨101, "cup", .cup⟩

/-- A frame with marker 1 and `n` cups. -/
def frame (markers : List ℕ) (n : ℕ) : Command :=
  .tick [⟨markers.map fun id ↦ ⟨id, fun _ _ ↦ 1⟩, [], List.replicate n cup, 0⟩]

/-- A marker that is seen once and two cups in one frame, and one cup from then on. -/
def commands : List Command :=
  List.replicate 21 calibration ++ frame [1] 2 :: List.replicate 11 (frame [] 1)

end Cups

theorem announced_once_cup :
    ∃ w log, (World.new false).run SetOrder.insertion
        (List.replicate 21 Cups.calibration ++ [Cups.frame [] 2, Cups.frame [] 1]) =
          some (w, log) ∧ (log.map fun e ↦ (e.type, e.obj.name)) = [(.newObject, "cup-101")] ∧
      ∀ name, log.countP (WorldEvent.announces name) ≤ 1 := by
  have hlog : (((World.new false).run SetOrder.insertion
      (List.replicate 21 Cups.calibration ++ [Cups.frame [] 2, Cups.frame [] 1])).map
        fun r ↦ r.2.map fun e ↦ (e.type, e.obj.name)) = some [(.newObject, "cup-101")] := by
    decide +kernel
  obtain ⟨⟨w, log⟩, hrun, hnames⟩ := Option.map_eq_some_iff.1 hlog
  exact ⟨w, log, hrun, hnames, (announced_once SetOrder.insertion false _ w log hrun
    (by decide +kernel)).1⟩

/-- **An object that is announced twice.** The marker times out in the tick in which the second cup
would, and is deleted first: the second cup takes its place and comes to stand in front of the one
that has been announced. -/
theorem announced_twice :
    ∃ w log, (World.new false).run SetOrder.insertion Cups.commands = some (w, log) ∧
      log.countP (WorldEvent.announces "cup-101") = 2 ∧
      w.objects.map (fun obj ↦ (obj.name, obj.status)) =
        [("cup-101", .tracked), ("cup-101", .tracked)] := by
  have hlog : (((World.new false).run SetOrder.insertion Cups.commands).map fun r ↦
      (r.2.countP (WorldEvent.announces "cup-101"),
        r.1.objects.map fun obj ↦ (obj.name, obj.status))) =
          some (2, [("cup-101", .tracked), ("cup-101", .tracked)]) := by decide +kernel
  obtain ⟨⟨w, log⟩, hrun, hpair⟩ := Option.map_eq_some_iff.1 hlog
  obtain ⟨hcount, hobjects⟩ := Prod.mk.inj hpair
  exact ⟨w, log, hrun, hcount, hobjects⟩

end WorldModel
