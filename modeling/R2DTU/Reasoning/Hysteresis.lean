import R2DTU.Reasoning.Views

/-!
# The life of an object

One counter of a `WorldObject` is used for two windows. While sightings are collected, in a
hypothesis or in an object that is lost, it is started by the first of them and is the time in which
the others have to come. While the object is tracked it is started again by every sighting, and is
the time without one after which the object is lost. The counter goes down at the end of a tick,
after the tick has looked at it.

A `Life` is an object with the sightings it got, counted tick by tick. `Hysteresis` is what the
counter is for, over the whole life, and `hysteresis_run` says that every life has it. The invariant
is `Sound`: what the counter says about the sightings is `Collecting` in the first use and `Holding`
in the second, and the number of events says which of the two it is.

A life ends in the tick that marks the object, since `World::tick` removes it there. `lived_run`
connects the lives with the world: every object of every state of a run has one.
-/

namespace WorldModel

open Reasoning (WorldObjectStatus)

variable {order : SetOrder}

/-! ### One tick of an object -/

namespace WorldObject

/-- The counter goes down. -/
def countDown (obj : WorldObject) : WorldObject :=
  { obj with timeoutCounter := max (obj.timeoutCounter - 1) 0 }

/-- **The outcomes of a tick** of an object that is not inconsistent. -/
inductive TickCase (obj : WorldObject) : WorldObject × Option EventType → Prop
  | promoted (hstatus : obj.status ≠ .tracked)
    (hneed : obj.neededSightings ≤ obj.sightingsCounter) :
    TickCase obj
      ({ obj with status := .tracked, timeoutCounter := obj.initialLoseCounter }.countDown,
        some (if obj.status = .hypothetical then .newObject else .appear))
  | marked (hstatus : obj.status = .hypothetical)
    (hneed : obj.sightingsCounter < obj.neededSightings) (htime : obj.timeoutCounter ≤ 0) :
    TickCase obj ({ obj with shouldDelete := true }.countDown, none)
  | collecting (hstatus : obj.status ≠ .tracked)
    (hneed : obj.sightingsCounter < obj.neededSightings) (htime : 0 < obj.timeoutCounter) :
    TickCase obj (obj.countDown, none)
  | forgotten (hstatus : obj.status = .lost)
    (hneed : obj.sightingsCounter < obj.neededSightings) (htime : obj.timeoutCounter ≤ 0) :
    TickCase obj ({ obj with sightingsCounter := 0 }.countDown, none)
  | lost (hstatus : obj.status = .tracked) (htime : obj.timeoutCounter ≤ 0) :
    TickCase obj
      ({ obj with status := .lost, sightingsCounter := 0, inconsistent := false }.countDown,
        some .disappear)
  | held (hstatus : obj.status = .tracked) (htime : 0 < obj.timeoutCounter) :
    TickCase obj (obj.countDown, none)

theorem tickCase {obj : WorldObject} (h : obj.inconsistent = false) : TickCase obj obj.tick := by
  obtain ⟨uid, type, status, name, id, timeout, sightings, needed, lock, lose, delete, _⟩ := obj
  obtain rfl := h
  rw [show ∀ obj : WorldObject, obj.tick = (obj.tickStatus.1.countDown, obj.tickStatus.2) from
    fun _ ↦ rfl, tickStatus]
  cases status with
  | hypothetical =>
    simp only
    split_ifs with hneed htime
    · exact .promoted WorldObjectStatus.noConfusion hneed
    · exact .marked rfl (Int.not_le.1 hneed) htime
    · exact .collecting WorldObjectStatus.noConfusion (Int.not_le.1 hneed) (Int.not_le.1 htime)
  | tracked =>
    simp only [Bool.or_false, decide_eq_true_eq]
    split_ifs with htime
    · exact .lost rfl htime
    · exact .held rfl (Int.not_le.1 htime)
  | lost =>
    simp only
    split_ifs with hneed htime
    · exact .promoted WorldObjectStatus.noConfusion hneed
    · exact .forgotten rfl (Int.not_le.1 hneed) htime
    · exact .collecting WorldObjectStatus.noConfusion (Int.not_le.1 hneed) (Int.not_le.1 htime)

theorem tick_of_held {obj : WorldObject} (h : obj.inconsistent = false)
    (hstatus : obj.status = .tracked) (htime : 0 < obj.timeoutCounter) :
    obj.tick = (obj.countDown, none) := by
  have hcase := tickCase h
  generalize obj.tick = r at hcase ⊢
  cases hcase with
  | promoted hother hneed => exact absurd hstatus hother
  | marked hother hneed htime => exact WorldObjectStatus.noConfusion (hstatus.symm.trans hother)
  | collecting hother hneed htime => exact absurd hstatus hother
  | forgotten hother hneed htime => exact WorldObjectStatus.noConfusion (hstatus.symm.trans hother)
  | lost _ hover => exact absurd htime (Int.not_lt.2 hover)
  | held _ _ => rfl

theorem tick_confirms {obj : WorldObject} (h : obj.inconsistent = false)
    (hevent : obj.tick.2 = some .newObject ∨ obj.tick.2 = some .appear) :
    obj.status ≠ .tracked ∧ obj.neededSightings ≤ obj.sightingsCounter := by
  have hcase := tickCase h
  generalize obj.tick = r at hcase hevent
  cases hcase with
  | promoted hstatus hneed => exact ⟨hstatus, hneed⟩
  | lost hstatus htime => simp at hevent
  | marked hstatus hneed htime => simp at hevent
  | collecting hstatus hneed htime => simp at hevent
  | forgotten hstatus hneed htime => simp at hevent
  | held hstatus htime => simp at hevent

theorem tick_loses {obj : WorldObject} (h : obj.inconsistent = false)
    (hevent : obj.tick.2 = some .disappear) :
    obj.status = .tracked ∧ obj.timeoutCounter ≤ 0 := by
  have hcase := tickCase h
  generalize obj.tick = r at hcase hevent
  cases hcase with
  | promoted hstatus hneed =>
    simp only [Option.some.injEq] at hevent
    split_ifs at hevent
  | lost hstatus htime => exact ⟨hstatus, htime⟩
  | marked hstatus hneed htime => exact absurd hevent (Option.some_ne_none _).symm
  | collecting hstatus hneed htime => exact absurd hevent (Option.some_ne_none _).symm
  | forgotten hstatus hneed htime => exact absurd hevent (Option.some_ne_none _).symm
  | held hstatus htime => exact absurd hevent (Option.some_ne_none _).symm

/-- What a sighting leaves as it is, and what it does to the counters. -/
theorem runUpdate_counters (obj : WorldObject) (percept : Percept) :
    (obj.runUpdate percept).status = obj.status ∧
      (obj.runUpdate percept).neededSightings = obj.neededSightings ∧
      (obj.runUpdate percept).initialLockCounter = obj.initialLockCounter ∧
      (obj.runUpdate percept).initialLoseCounter = obj.initialLoseCounter ∧
      (obj.runUpdate percept).inconsistent = obj.inconsistent ∧
      (obj.runUpdate percept).shouldDelete = obj.shouldDelete ∧
      (obj.runUpdate percept).timeoutCounter = obj.produceSighting.timeoutCounter ∧
      (obj.runUpdate percept).sightingsCounter = obj.produceSighting.sightingsCounter := by
  have hsight : obj.produceSighting = { obj with
      timeoutCounter := obj.produceSighting.timeoutCounter
      sightingsCounter := obj.produceSighting.sightingsCounter } := by
    rw [produceSighting]
    split <;> rfl
  have hupdate : obj.runUpdate percept = { obj.produceSighting with
      name := (obj.runUpdate percept).name
      id := (obj.runUpdate percept).id } := by
    rw [runUpdate]
    cases percept with
    | marker p => rfl
    | object p => rfl
    | person p =>
      rw [update]
      split_ifs <;> rfl
  rw [hupdate, hsight]
  exact ⟨rfl, rfl, rfl, rfl, rfl, rfl, rfl, rfl⟩

theorem timeoutCounter_produceSighting (obj : WorldObject) :
    obj.produceSighting.timeoutCounter = if obj.status = .tracked then obj.initialLoseCounter
      else if obj.sightingsCounter = 0 then obj.initialLockCounter else obj.timeoutCounter := by
  rw [produceSighting]
  cases obj.status with
  | hypothetical => rfl
  | tracked => rfl
  | lost => rfl

theorem sightingsCounter_produceSighting (obj : WorldObject) :
    obj.produceSighting.sightingsCounter =
      if obj.status = .tracked then obj.sightingsCounter else obj.sightingsCounter + 1 := by
  rw [produceSighting]
  cases obj.status with
  | hypothetical => rfl
  | tracked => rfl
  | lost => rfl

end WorldObject

/-! ### Lives -/

/-- What happens to an object. -/
inductive Input
  | sighting (percept : Percept)
  | tick

/-- An object, with the sightings before each of its ticks. The counts of `sightings` go back to
when it was created, and those of `sinceLost` only to when it was last lost. The latest count comes
first: it is of the sightings after the last tick. -/
structure Life where
  /-- The object. -/
  obj : WorldObject
  /-- The sightings of each tick, the last one first. -/
  sightings : List ℕ
  /-- Those since it was lost or created. -/
  sinceLost : List ℕ
  /-- The events so far. -/
  events : List EventType

namespace Life

/-- An object is created with a first sighting. -/
def create (obj : WorldObject) (percept : Percept) : Life := ⟨obj.runUpdate percept, [1], [1], []⟩

/-- One more sighting after the last tick. -/
def countSighting : List ℕ → List ℕ
  | [] => [1]
  | n :: counts => (n + 1) :: counts

/-- What the object does, and the counts with it. -/
def step (l : Life) : Input → Life
  | .sighting percept =>
    { l with
      obj := l.obj.runUpdate percept
      sightings := countSighting l.sightings
      sinceLost := countSighting l.sinceLost }
  | .tick =>
    { obj := l.obj.tick.1
      sightings := 0 :: l.sightings
      sinceLost := if l.obj.tick.2 = some .disappear then [0] else 0 :: l.sinceLost
      events := l.events ++ l.obj.tick.2.toList }

/-- An object that was marked is gone. -/
def next (l : Life) (input : Input) : Life := if l.obj.shouldDelete then l else l.step input

/-- The life after some inputs. -/
def run (l : Life) (inputs : List Input) : Life := inputs.foldl next l

/-- The event of the next tick, if that is the next input. -/
def nextEvent (l : Life) : Option EventType := if l.obj.shouldDelete then none else l.obj.tick.2

/-- `NewObject`, and from then on `Disappear` and `Appear` in turn. -/
def nthEvent : ℕ → EventType
  | 0 => .newObject
  | n + 1 => if n % 2 = 0 then .disappear else .appear

/-- There is a sighting before each tick, after the tick before it; `seen` if there was one
already. -/
def sightedBeforeTicks : Bool → List Input → Bool
  | _, [] => true
  | _, .sighting _ :: inputs => sightedBeforeTicks true inputs
  | seen, .tick :: inputs => seen && sightedBeforeTicks false inputs

/-- **What the counter is for.** The tick that emits an event is the last of the ticks that the
event is about, so the first `n` counts are those of the last `n` ticks. -/
structure Hysteresis (needed lock lose : ℤ) (l : Life) : Prop where
  /-- It is announced, and then lost and found in turn. -/
  events_eq : l.events = (List.range l.events.length).map nthEvent
  /-- It is announced or found after enough sightings in a short time. -/
  sighted (h : l.nextEvent = some .newObject ∨ l.nextEvent = some .appear) :
    needed ≤ (l.sinceLost.take (lock.toNat + 1)).sum
  /-- It is lost after no sightings for long. -/
  unsighted (h : l.nextEvent = some .disappear) : (l.sightings.take lose.toNat).sum = 0
  /-- It is not lost while it is seen before every tick. -/
  stays_tracked {inputs : List Input} (h : l.obj.status = .tracked)
    (hinputs : sightedBeforeTicks false inputs = true) : (l.run inputs).events = l.events
  /-- The timeout does not get below zero. -/
  timeout_nonneg : 0 ≤ l.obj.timeoutCounter

/-! ### The invariant -/

/-- While sightings are collected: there is none yet, or the counter was started with the first,
`age` counts ago. -/
def Collecting (lock : ℤ) (l : Life) : Prop :=
  (l.obj.sightingsCounter = 0 ∧ l.sinceLost.head? = some 0) ∨
    (0 < l.obj.sightingsCounter ∧ ∃ age : ℕ, l.obj.timeoutCounter + (age + 1 : ℕ) = lock + 1 ∧
      l.obj.sightingsCounter = (l.sinceLost.take (age + 1)).sum)

/-- While the object is tracked: the counter was started `age` ticks ago, and there was no sighting
after that. -/
def Holding (lose : ℤ) (l : Life) : Prop :=
  ∃ age : ℕ, l.obj.timeoutCounter + age = lose ∧ (l.sightings.take age).sum = 0

/-- **The invariant** of a life. -/
structure Sound (needed lock lose : ℤ) (l : Life) : Prop where
  needed_eq : l.obj.neededSightings = needed
  lock_eq : l.obj.initialLockCounter = lock
  lose_eq : l.obj.initialLoseCounter = lose
  consistent : l.obj.inconsistent = false
  timeout_nonneg : 0 ≤ l.obj.timeoutCounter
  events_eq : l.events = (List.range l.events.length).map nthEvent
  hypothetical_iff : l.obj.status = .hypothetical ↔ l.events.length = 0
  tracked_iff : l.obj.status = .tracked ↔ l.events.length % 2 = 1
  collecting (h : l.obj.status ≠ .tracked) (hdelete : l.obj.shouldDelete = false) :
    Collecting lock l
  holding (h : l.obj.status = .tracked) : Holding lose l

variable {needed lock lose : ℤ} {l : Life}

theorem sum_take_countSighting (counts : List ℕ) (n : ℕ) :
    ((countSighting counts).take (n + 1)).sum = (counts.take (n + 1)).sum + 1 := by
  cases counts with
  | nil => simp [countSighting]
  | cons count counts =>
    rw [countSighting, List.take_succ_cons, List.take_succ_cons, List.sum_cons, List.sum_cons]
    omega

/-- One more event, the one that is due. -/
theorem events_concat (h : l.events = (List.range l.events.length).map nthEvent) :
    l.events ++ [nthEvent l.events.length] =
      (List.range (l.events ++ [nthEvent l.events.length]).length).map nthEvent := by
  rw [List.length_append, List.length_singleton, List.range_succ, List.map_append,
    List.map_singleton, ← h]

theorem nthEvent_of_odd {n : ℕ} (h : n % 2 = 1) : nthEvent n = .disappear := by
  obtain ⟨m, rfl⟩ : ∃ m, n = m + 1 := ⟨n - 1, by omega⟩
  rw [nthEvent, if_pos (by omega)]

theorem nthEvent_of_even {n : ℕ} (hpos : n ≠ 0) (h : n % 2 ≠ 1) : nthEvent n = .appear := by
  obtain ⟨m, rfl⟩ : ∃ m, n = m + 1 := ⟨n - 1, by omega⟩
  rw [nthEvent, if_neg (by omega)]

theorem sound_create (uid : ℕ) (type : WorldObjectType) (name : String) (id : ℕ)
    (percept : Percept) (hlock : 0 < lock) :
    (create (.new uid type name id needed lock lose) percept).Sound needed lock lose := by
  obtain ⟨hstatus, hneed, hlock', hlose, hincons, -, htime, hcount⟩ :=
    (WorldObject.new uid type name id needed lock lose).runUpdate_counters percept
  refine ⟨hneed, hlock', hlose, hincons, ?_, rfl, ?_, ?_, fun _ _ ↦ Or.inr ⟨?_, 0, ?_, ?_⟩, ?_⟩
  · show 0 ≤ (WorldObject.runUpdate _ _).timeoutCounter
    rw [htime]
    exact le_of_lt hlock
  · exact iff_of_true hstatus rfl
  · exact iff_of_false (fun h ↦ WorldObjectStatus.noConfusion (hstatus.symm.trans h))
      (show ¬ 0 % 2 = 1 by decide)
  · show 0 < (WorldObject.runUpdate _ _).sightingsCounter
    rw [hcount]
    exact Int.zero_lt_one
  · show (WorldObject.runUpdate _ _).timeoutCounter + _ = _
    rw [htime]
    rfl
  · show (WorldObject.runUpdate _ _).sightingsCounter = _
    rw [hcount]
    rfl
  · exact fun h ↦ WorldObjectStatus.noConfusion (hstatus.symm.trans h)

/-- **A sighting.** -/
theorem Sound.sighting (h : l.Sound needed lock lose) (hlock : 0 < lock) (hlose : 0 < lose)
    (hdelete : l.obj.shouldDelete = false) (percept : Percept) :
    (l.step (.sighting percept)).Sound needed lock lose := by
  obtain ⟨hstatus, hneed, hlock', hlose', hincons, -, htime, hcount⟩ :=
    l.obj.runUpdate_counters percept
  have hnonneg := h.timeout_nonneg
  refine ⟨hneed.trans h.needed_eq, hlock'.trans h.lock_eq, hlose'.trans h.lose_eq,
    hincons.trans h.consistent, ?_, h.events_eq, ?_, ?_, ?_, ?_⟩
  · show 0 ≤ (l.obj.runUpdate percept).timeoutCounter
    rw [htime, WorldObject.timeoutCounter_produceSighting, h.lose_eq, h.lock_eq]
    split_ifs <;> omega
  · exact hstatus ▸ h.hypothetical_iff
  · exact hstatus ▸ h.tracked_iff
  · intro htracked _
    have htracked' : l.obj.status ≠ .tracked := hstatus ▸ htracked
    rw [WorldObject.timeoutCounter_produceSighting, if_neg htracked'] at htime
    rw [WorldObject.sightingsCounter_produceSighting, if_neg htracked'] at hcount
    refine Or.inr ?_
    rcases h.collecting htracked' hdelete with ⟨hzero, hhead⟩ | ⟨hpos, age, hage, hsum⟩
    · -- the first sighting starts the counter
      rw [if_pos hzero, h.lock_eq] at htime
      refine ⟨by show 0 < (l.obj.runUpdate percept).sightingsCounter; omega, 0, ?_, ?_⟩
      · show (l.obj.runUpdate percept).timeoutCounter + _ = _
        rw [htime]
        rfl
      · show (l.obj.runUpdate percept).sightingsCounter =
          ((countSighting l.sinceLost).take (0 + 1)).sum
        obtain ⟨counts, hcounts⟩ : ∃ counts, l.sinceLost = 0 :: counts :=
          List.head?_eq_some_iff.1 hhead
        rw [hcount, hzero, sum_take_countSighting, hcounts]
        rfl
    · rw [if_neg (by omega)] at htime
      refine ⟨by show 0 < (l.obj.runUpdate percept).sightingsCounter; omega, age, ?_, ?_⟩
      · show (l.obj.runUpdate percept).timeoutCounter + _ = _
        rw [htime, hage]
      · show (l.obj.runUpdate percept).sightingsCounter =
          ((countSighting l.sinceLost).take (age + 1)).sum
        rw [hcount, hsum, sum_take_countSighting]
        rfl
  · intro htracked
    have htracked' : l.obj.status = .tracked := hstatus ▸ htracked
    refine ⟨0, ?_, rfl⟩
    show (l.obj.runUpdate percept).timeoutCounter + 0 = lose
    rw [htime, WorldObject.timeoutCounter_produceSighting, if_pos htracked', h.lose_eq, add_zero]

/-- The counts of a tick that does not lose the object. -/
theorem step_tick (l : Life) {obj : WorldObject} {event : Option EventType}
    (h : l.obj.tick = (obj, event)) (hevent : event ≠ some .disappear) :
    l.step .tick = ⟨obj, 0 :: l.sightings, 0 :: l.sinceLost, l.events ++ event.toList⟩ := by
  rw [step, h]
  simp only [if_neg hevent]

/-- A tick without an event. -/
theorem Sound.quiet (h : l.Sound needed lock lose) {obj : WorldObject}
    (hr : l.obj.tick = (obj, none))
    (hkept : obj.status = l.obj.status ∧ obj.neededSightings = l.obj.neededSightings ∧
      obj.initialLockCounter = l.obj.initialLockCounter ∧
      obj.initialLoseCounter = l.obj.initialLoseCounter ∧ obj.inconsistent = l.obj.inconsistent)
    (htime : 0 ≤ obj.timeoutCounter)
    (hcollecting : obj.status ≠ .tracked → obj.shouldDelete = false →
      Collecting lock ⟨obj, 0 :: l.sightings, 0 :: l.sinceLost, l.events⟩)
    (hholding : obj.status = .tracked →
      Holding lose ⟨obj, 0 :: l.sightings, 0 :: l.sinceLost, l.events⟩) :
    (l.step .tick).Sound needed lock lose := by
  obtain ⟨hstatus, hneed, hlock, hlose, hincons⟩ := hkept
  rw [l.step_tick hr (Option.some_ne_none _).symm, Option.toList_none, List.append_nil]
  exact ⟨hneed.trans h.needed_eq, hlock.trans h.lock_eq, hlose.trans h.lose_eq,
    hincons.trans h.consistent, htime, h.events_eq, hstatus ▸ h.hypothetical_iff,
    hstatus ▸ h.tracked_iff, hcollecting, hholding⟩

/-- A tick with the event that is due. -/
theorem Sound.loud (h : l.Sound needed lock lose) {l' : Life}
    (hevents : l'.events = l.events ++ [nthEvent l.events.length])
    (hkept : l'.obj.neededSightings = l.obj.neededSightings ∧
      l'.obj.initialLockCounter = l.obj.initialLockCounter ∧
      l'.obj.initialLoseCounter = l.obj.initialLoseCounter ∧ l'.obj.inconsistent = false)
    (htime : 0 ≤ l'.obj.timeoutCounter) (hhyp : l'.obj.status ≠ .hypothetical)
    (htracked : l'.obj.status = .tracked ↔ l.obj.status ≠ .tracked)
    (hcollecting : l'.obj.status ≠ .tracked → Collecting lock l')
    (hholding : l'.obj.status = .tracked → Holding lose l') : l'.Sound needed lock lose := by
  obtain ⟨hneed, hlock, hlose, hincons⟩ := hkept
  have hlength : l'.events.length = l.events.length + 1 := by
    rw [hevents, List.length_append, List.length_singleton]
  refine ⟨hneed.trans h.needed_eq, hlock.trans h.lock_eq, hlose.trans h.lose_eq, hincons, htime,
    ?_, ?_, ?_, fun hnot _ ↦ hcollecting hnot, hholding⟩
  · rw [hevents]
    exact events_concat h.events_eq
  · exact iff_of_false hhyp (by omega)
  · rw [htracked, ne_eq, h.tracked_iff, hlength]
    omega

/-- **A tick.** -/
theorem Sound.tick (h : l.Sound needed lock lose) (hlose : 0 < lose)
    (hdelete : l.obj.shouldDelete = false) : (l.step .tick).Sound needed lock lose := by
  have hcase := WorldObject.tickCase h.consistent
  have hnonneg := h.timeout_nonneg
  generalize hr : l.obj.tick = r at hcase
  cases hcase with
  | promoted hstatus hneed =>
    have heven : l.events.length % 2 ≠ 1 := fun hodd ↦ hstatus (h.tracked_iff.2 hodd)
    have hnth : (if l.obj.status = .hypothetical then EventType.newObject else .appear) =
        nthEvent l.events.length := by
      split_ifs with hhyp
      · rw [h.hypothetical_iff.1 hhyp]
        rfl
      · exact (nthEvent_of_even (mt h.hypothetical_iff.2 hhyp) heven).symm
    rw [hnth] at hr
    have hnot : some (nthEvent l.events.length) ≠ some .disappear := by
      rw [← hnth]
      split_ifs <;> decide
    rw [l.step_tick hr hnot]
    refine h.loud rfl ⟨rfl, rfl, rfl, h.consistent⟩ (Int.le_max_right _ _)
      WorldObjectStatus.noConfusion (iff_of_true rfl hstatus) (fun hnot ↦ absurd rfl hnot)
      fun _ ↦ ⟨1, ?_, rfl⟩
    show max (l.obj.initialLoseCounter - 1) 0 + 1 = lose
    rw [h.lose_eq]
    omega
  | marked hstatus hneed htime =>
    refine h.quiet hr ⟨rfl, rfl, rfl, rfl, rfl⟩ (Int.le_max_right _ _)
      (fun _ hkept ↦ Bool.noConfusion hkept) fun htracked ↦ ?_
    exact WorldObjectStatus.noConfusion (hstatus.symm.trans htracked)
  | collecting hstatus hneed htime =>
    refine h.quiet hr ⟨rfl, rfl, rfl, rfl, rfl⟩ (Int.le_max_right _ _) (fun _ _ ↦ ?_)
      fun htracked ↦ absurd htracked hstatus
    rcases h.collecting hstatus hdelete with ⟨hzero, -⟩ | ⟨hpos, age, hage, hsum⟩
    · exact Or.inl ⟨hzero, rfl⟩
    · refine Or.inr ⟨hpos, age + 1, ?_, ?_⟩
      · show max (l.obj.timeoutCounter - 1) 0 + _ = _
        omega
      · show l.obj.sightingsCounter = ((0 :: l.sinceLost).take (age + 1 + 1)).sum
        rw [hsum, List.take_succ_cons, List.sum_cons, zero_add]
  | forgotten hstatus hneed htime =>
    refine h.quiet hr ⟨rfl, rfl, rfl, rfl, rfl⟩ (Int.le_max_right _ _)
      (fun _ _ ↦ Or.inl ⟨rfl, rfl⟩) fun htracked ↦ ?_
    exact WorldObjectStatus.noConfusion (hstatus.symm.trans htracked)
  | lost hstatus htime =>
    rw [step, hr]
    refine h.loud ?_ ⟨rfl, rfl, rfl, rfl⟩ (Int.le_max_right _ _) WorldObjectStatus.noConfusion
      (iff_of_false WorldObjectStatus.noConfusion fun hnot ↦ hnot hstatus)
      (fun _ ↦ Or.inl ⟨rfl, rfl⟩) fun htracked ↦ WorldObjectStatus.noConfusion htracked
    rw [nthEvent_of_odd (h.tracked_iff.1 hstatus)]
    rfl
  | held hstatus htime =>
    refine h.quiet hr ⟨rfl, rfl, rfl, rfl, rfl⟩ (Int.le_max_right _ _)
      (fun htracked ↦ absurd hstatus htracked) fun _ ↦ ?_
    obtain ⟨age, hage, hsum⟩ := h.holding hstatus
    refine ⟨age + 1, ?_, ?_⟩
    · show max (l.obj.timeoutCounter - 1) 0 + _ = _
      omega
    · show ((0 :: l.sightings).take (age + 1)).sum = 0
      rw [List.take_succ_cons, List.sum_cons, zero_add, hsum]

/-- **A whole life.** -/
theorem Sound.run (h : l.Sound needed lock lose) (hlock : 0 < lock) (hlose : 0 < lose)
    (inputs : List Input) : (l.run inputs).Sound needed lock lose := by
  refine List.foldlRecOn _ _ (motive := Sound needed lock lose) h fun l hl input _ ↦ ?_
  rw [next]
  split_ifs with hdelete
  · exact hl
  · cases input with
    | sighting percept => exact hl.sighting hlock hlose (by simpa using hdelete) percept
    | tick => exact hl.tick hlose (by simpa using hdelete)

/-! ### What the invariant is for -/

theorem run_of_marked (h : l.obj.shouldDelete = true) (inputs : List Input) : l.run inputs = l :=
  List.foldlRecOn _ _ (motive := (· = l)) rfl fun l' hl' input _ ↦ by rw [hl', next, if_pos h]

/-- An object that is sighted before every tick gives no event. -/
theorem Sound.stays_tracked (h : l.Sound needed lock lose) (hlock : 0 < lock) (hlose : 0 < lose)
    {seen : Bool} {inputs : List Input} (htracked : l.obj.status = .tracked)
    (hseen : seen = true → 0 < l.obj.timeoutCounter)
    (hinputs : sightedBeforeTicks seen inputs = true) : (l.run inputs).events = l.events := by
  induction inputs generalizing l seen with
  | nil => rfl
  | cons input inputs ih =>
    by_cases hdelete : l.obj.shouldDelete = true
    · rw [run_of_marked hdelete]
    rw [Bool.not_eq_true] at hdelete
    have hrun : l.run (input :: inputs) = (l.step input).run inputs := by
      show (l.next input).run inputs = _
      rw [next, if_neg (by simp [hdelete])]
    rw [hrun]
    cases input with
    | sighting percept =>
      obtain ⟨hstatus, -, -, -, -, -, htime, -⟩ := l.obj.runUpdate_counters percept
      refine ih (h.sighting hlock hlose hdelete percept) (hstatus.trans htracked) (fun _ ↦ ?_)
        hinputs
      show 0 < (l.obj.runUpdate percept).timeoutCounter
      rw [htime, WorldObject.timeoutCounter_produceSighting, if_pos htracked, h.lose_eq]
      exact hlose
    | tick =>
      rw [sightedBeforeTicks, Bool.and_eq_true] at hinputs
      have htick := WorldObject.tick_of_held h.consistent htracked (hseen hinputs.1)
      have hstep := l.step_tick htick (Option.some_ne_none _).symm
      rw [Option.toList_none, List.append_nil] at hstep
      have hsound := h.tick hlose hdelete
      rw [hstep] at hsound ⊢
      exact ih hsound htracked (fun hfalse ↦ Bool.noConfusion hfalse) hinputs.2

theorem sum_take_le (counts : List ℕ) {m n : ℕ} (h : m ≤ n) :
    (counts.take m).sum ≤ (counts.take n).sum := by
  obtain ⟨k, rfl⟩ := Nat.exists_eq_add_of_le h
  rw [List.take_add, List.sum_append]
  exact Nat.le_add_right _ _

theorem Sound.hysteresis (h : l.Sound needed lock lose) (hneeded : 0 < needed) (hlock : 0 < lock)
    (hlose : 0 < lose) : l.Hysteresis needed lock lose := by
  have hnonneg := h.timeout_nonneg
  refine ⟨h.events_eq, fun hnext ↦ ?_, fun hnext ↦ ?_, fun htracked hinputs ↦
    h.stays_tracked hlock hlose htracked (fun hfalse ↦ Bool.noConfusion hfalse) hinputs, hnonneg⟩
  · have hdelete : l.obj.shouldDelete = false := by
      by_contra hmarked
      rw [nextEvent, if_pos (by simpa using hmarked)] at hnext
      simp at hnext
    rw [nextEvent, if_neg (by simp [hdelete])] at hnext
    obtain ⟨hstatus, hneed⟩ := WorldObject.tick_confirms h.consistent hnext
    rw [h.needed_eq] at hneed
    rcases h.collecting hstatus hdelete with ⟨hzero, -⟩ | ⟨hpos, age, hage, hsum⟩
    · omega
    · -- the counter was started at most `lock` ticks ago
      have hle := sum_take_le l.sinceLost (show age + 1 ≤ lock.toNat + 1 by omega)
      omega
  · rw [nextEvent] at hnext
    split_ifs at hnext
    obtain ⟨hstatus, htime⟩ := WorldObject.tick_loses h.consistent hnext
    obtain ⟨age, hage, hsum⟩ := h.holding hstatus
    rwa [show lose.toNat = age by omega]

end Life

/-- **The hysteresis of an object.** An object that is created by a first sighting, with positive
thresholds, has the hysteresis of `Life.Hysteresis` after every sequence of sightings and ticks. -/
theorem hysteresis_run (uid : ℕ) (type : WorldObjectType) (name : String) (id : ℕ)
    (needed lock lose : ℤ) (hneeded : 0 < needed) (hlock : 0 < lock) (hlose : 0 < lose)
    (percept : Percept) (inputs : List Input) :
    ((Life.create (.new uid type name id needed lock lose) percept).run inputs).Hysteresis
      needed lock lose :=
  ((Life.sound_create uid type name id percept hlock).run hlock hlose inputs).hysteresis hneeded
    hlock hlose

namespace Cups

/-- A cup that is seen a second time, so promoted, and lost when it is not seen again. -/
def lost : List Input :=
  .tick :: .sighting (.object cup) :: List.replicate 11 .tick

end Cups

theorem hysteresis_run_cup :
    ((Life.create (.newMovable 0 101 "cup") (.object Cups.cup)).run Cups.lost).events =
        [.newObject, .disappear] ∧
      ((Life.create (.newMovable 0 101 "cup") (.object Cups.cup)).run Cups.lost).Hysteresis
        2 10 10 :=
  ⟨by decide +kernel, hysteresis_run 0 .movable (movableName "cup" 101) 101 2 10 10 (by decide)
    (by decide) (by decide) (.object Cups.cup) Cups.lost⟩

/-! ### Every object of the world has a life -/

/-- The object is there after some inputs to an object that the world creates. -/
def WorldObject.Lived (obj : WorldObject) : Prop :=
  obj.shouldDelete = false ∧ ∃ uid id name percept inputs,
    ((Life.create (.newPerson uid id name) percept).run inputs).obj = obj ∨
      ((Life.create (.newMovable uid id name) percept).run inputs).obj = obj

theorem Life.run_concat (l : Life) (inputs : List Input) (input : Input) :
    l.run (inputs ++ [input]) = (l.run inputs).next input := List.foldl_concat ..

/-- One more input. -/
theorem WorldObject.Lived.next {obj : WorldObject} (h : obj.Lived) (input : Input)
    {obj' : WorldObject} (hstep : ∀ l : Life, l.obj = obj → (l.step input).obj = obj')
    (hdelete : obj'.shouldDelete = false) : obj'.Lived := by
  obtain ⟨hkept, uid, id, name, percept, inputs, hlife⟩ := h
  have hnext : ∀ l : Life, (l.run inputs).obj = obj → (l.run (inputs ++ [input])).obj = obj' := by
    intro l hl
    rw [Life.run_concat, Life.next, if_neg (by simp [hl, hkept])]
    exact hstep _ hl
  exact ⟨hdelete, uid, id, name, percept, inputs ++ [input], hlife.imp (hnext _) (hnext _)⟩

/-- All objects of the world have a life. -/
def World.Lived (w : World) : Prop := ∀ obj ∈ w.objects, obj.Lived

theorem World.Lived.processPercepts {w w' : World} {msg : PerceptsMsg} (h : w.Lived)
    (hp : w.processPercepts order msg = some w') : w'.Lived := by
  refine processPercepts_rule (P := World.Lived) ?_ ?_ (fun _ hv ↦ hv) (fun _ _ hv ↦ hv) h hp
  · intro v percept objects hv hmatch
    obtain ⟨i, -, rfl⟩ := Option.map_eq_some_iff.1 hmatch
    intro obj hobj
    obtain ⟨j, hj⟩ := List.mem_iff_getElem?.1 hobj
    rw [List.getElem?_modify] at hj
    obtain ⟨o, ho, rfl⟩ := Option.map_eq_some_iff.1 hj
    have hlived := hv o (List.mem_of_getElem? ho)
    show (if i = j then o.runUpdate percept else o).Lived
    split_ifs
    · obtain ⟨-, -, -, -, -, hdelete, -, -⟩ := o.runUpdate_counters percept
      exact hlived.next (.sighting percept) (fun l hl ↦ congrArg (·.runUpdate percept) hl)
        (hdelete.trans hlived.1)
    · exact hlived
  · intro v percept hv
    rcases v.createHypothesis_cases percept with hsame | ⟨obj, ⟨id, name, hnew⟩, hadd⟩
    · rwa [hsame]
    · rw [hadd]
      intro o ho
      rcases List.mem_append.1 ho with ho | ho
      · exact hv o ho
      · rw [List.mem_singleton.1 ho]
        obtain ⟨-, -, -, -, -, hdelete, -, -⟩ := obj.runUpdate_counters percept
        refine ⟨?_, v.nextUid, id, name, percept, [], ?_⟩
        · rcases hnew with rfl | rfl
          · exact hdelete
          · exact hdelete
        · rcases hnew with rfl | rfl
          · exact Or.inl rfl
          · exact Or.inr rfl

/-- **One operation.** -/
theorem World.Lived.operate {w w' : World} {op : Operation} (h : w.Lived)
    (hop : w.operate order op = some w') : w'.Lived := by
  cases op with
  | clear =>
    obtain rfl := Option.some.inj hop
    exact fun obj hobj ↦ absurd hobj List.not_mem_nil
  | command c =>
    cases c with
    | percepts msg => exact h.processPercepts hop
    | pause paused =>
      obtain rfl := Option.some.inj hop
      exact h
    | requestCalibration id =>
      obtain rfl := Option.some.inj hop
      exact h
    | tick pending =>
      have htick : w.tick order pending = some w' := hop
      rcases tick_cases htick with ⟨-, rfl⟩ | ⟨-, w₁, hmsgs, hrest⟩
      · exact h
      · have hstart : ({ w with latestEvents := [] } : World).Lived := h
        have hlived : w₁.Lived := foldlM_processPercepts_rule (P := World.Lived)
          (fun _ _ _ hv hp ↦ hv.processPercepts hp) hstart hmsgs
        rcases hrest with ⟨-, rfl⟩ | ⟨-, rfl⟩
        · exact hlived
        · show ∀ obj ∈ (tickObjects w₁.objects).objects, obj.Lived
          rw [show (tickObjects w₁.objects).objects = (passOver w₁.objects.length 0 w₁.objects).1
            from (tickLoop_eq_sweep _ _).1]
          exact SwapPop.forall_mem_sweep (fun obj hobj hkept ↦
            hobj.next .tick (fun l hl ↦ congrArg (fun o : WorldObject ↦ o.tick.1) hl) hkept) hlived

/-- **The lives of a run.** Every object in every state of a run of the world has a life, so it has
the hysteresis of `hysteresis_run`. -/
theorem lived_run (order : SetOrder) (newPercepts : Bool) (ops : List Operation) (w : World)
    (hrun : ops.foldlM (World.operate order) (World.new newPercepts) = some w) : w.Lived := by
  have hstart : (World.new newPercepts).Lived := fun obj hobj ↦ absurd hobj List.not_mem_nil
  generalize World.new newPercepts = v at hrun hstart
  induction ops generalizing v with
  | nil => rwa [← Option.some.inj hrun]
  | cons op ops ih =>
    rw [List.foldlM_cons] at hrun
    obtain ⟨v', hop, hrest⟩ := Option.bind_eq_some_iff.1 hrun
    exact ih v' hrest (hstart.operate hop)

end WorldModel
