import R2DTU.Library.SwapPop
import Mathlib.Data.Rat.Init
import Mathlib.Algebra.Order.Ring.Rat
import Mathlib.Algebra.BigOperators.Fin

/-!
# The world model

`World` keeps what the robot thinks is there. A percept goes to the first object of the vector that
matches it, and when there is none a **hypothesis** is created for it. An object is promoted once it
has been sighted often enough, and a hypothesis that is not sighted again is deleted; an object that
was promoted is tracked or lost, and never deleted.

Percepts of one array are all matched before any hypothesis is created, in the order of a hash set
of their indices. `SetOrder` stands for that order. The deletion in `World::tick` swaps with the
last object and goes on with the next index.

Positions and poses are read by no function of this module and left out, and with them the
transformation of percepts into the space of the world. A percept message comes from a source, and
only messages of calibrated active sources are used. Objects live on the heap; `uid` is the identity
of such an object, and the views of persons and movables are lists of these.
-/

namespace Reasoning

/-- `WorldObjectStatus`: seen too few times to be believed in, believed in, or not seen for too
long. -/
inductive WorldObjectStatus
  | hypothetical
  | tracked
  | lost
  deriving DecidableEq

end Reasoning

namespace WorldModel

open Reasoning (WorldObjectStatus)

/-- The order in which a hash set of indices is iterated, as a rearrangement of the indices in
insertion order. -/
structure SetOrder where
  indices : List ℕ → List ℕ
  indices_perm (l : List ℕ) : (indices l).Perm l

/-- Iteration in insertion order. -/
def SetOrder.insertion : SetOrder := ⟨id, fun l ↦ List.Perm.refl l⟩

/-! ### Percepts -/

/-- `PerceptionObjectType`: what a camera has recognised. -/
inductive PerceptionObjectType
  | bottle
  | knife
  | fruit
  | cup
  | marker
  | unknown
  deriving DecidableEq

/-- `MarkerPercept`. The transform has its columns first. -/
structure MarkerPercept where
  /-- The number on the marker. -/
  id : ℕ
  /-- Where it is. -/
  transform : Fin 4 → Fin 4 → ℚ
  deriving DecidableEq

/-- `PersonPercept`: a person in a message, by the id of the tracker. -/
structure PersonPercept where
  id : ℕ
  name : String
  deriving DecidableEq

/-- `ObjectPercept`: a thing in a message, by what was recognised. -/
structure ObjectPercept where
  id : ℕ
  name : String
  type : PerceptionObjectType
  deriving DecidableEq

/-- The three kinds of percepts, which the source overloads its functions on. -/
inductive Percept
  | marker (p : MarkerPercept)
  | person (p : PersonPercept)
  | object (p : ObjectPercept)
  deriving DecidableEq

/-- `PerceptsMsg`: what one camera has seen, and the number of the camera. -/
structure PerceptsMsg where
  markers : List MarkerPercept
  persons : List PersonPercept
  objects : List ObjectPercept
  sourceIndex : ℕ
  deriving DecidableEq

/-! ### Objects -/

/-- `WorldObjectType`: which of the views an object belongs to. -/
inductive WorldObjectType
  | person
  | movable
  deriving DecidableEq

/-- `WorldEvent::Type`: what happens to an object that the rest of the program is told. -/
inductive EventType
  | newObject
  | appear
  | disappear
  deriving DecidableEq

/-- `WorldObject` with the id of a `PersonObj` or the marker id of a `MovableObj`. -/
structure WorldObject where
  /-- Which object on the heap it is. -/
  uid : ℕ
  type : WorldObjectType
  status : WorldObjectStatus
  /-- The name of the percept, with the id behind it for movables. -/
  name : String
  id : ℕ
  /-- The ticks left without a sighting. -/
  timeoutCounter : ℤ
  /-- The sightings that count towards belief. -/
  sightingsCounter : ℤ
  /-- How many of them it takes. -/
  neededSightings : ℤ
  /-- The ticks in which they have to come. -/
  initialLockCounter : ℤ
  /-- The ticks without one after which it is lost. -/
  initialLoseCounter : ℤ
  /-- It is removed at the end of its tick. -/
  shouldDelete : Bool
  /-- It is lost by its next tick. -/
  inconsistent : Bool
  deriving DecidableEq

/-- `WorldEvent`: something that has happened to an object. -/
structure WorldEvent where
  type : EventType
  obj : WorldObject
  deriving DecidableEq

/-- The name of a movable: `name + "-" + std::to_string(id)`. -/
def movableName (name : String) (id : ℕ) : String := name ++ "-" ++ toString id

/-- The part of a name before its first dash, or all of it. -/
def className (name : String) : List Char := name.toList.takeWhile (· ≠ '-')

namespace WorldObject

/-- The constructor `WorldObject`. -/
def new (uid : ℕ) (type : WorldObjectType) (name : String) (id : ℕ)
    (neededSightings initialLockCounter initialLoseCounter : ℤ) : WorldObject :=
  ⟨uid, type, .hypothetical, name, id, 0, 0, neededSightings, initialLockCounter,
    initialLoseCounter, false, false⟩

/-- The constructor `PersonObj`, with the constants for persons. -/
def newPerson (uid id : ℕ) (name : String) : WorldObject := new uid .person name id 2 4 4

/-- The constructor `MovableObj`, with the constants for markers. -/
def newMovable (uid id : ℕ) (name : String) : WorldObject :=
  new uid .movable (movableName name id) id 2 10 10

/-- `match`, by the type of the object and the kind of the percept. -/
def isMatch (obj : WorldObject) : Percept → Bool
  | .marker p => obj.type = .movable && obj.id = p.id
  | .person p => obj.type = .person && ((p.name = "" && p.id = obj.id) || p.name = obj.name)
  | .object p => obj.type = .movable && className obj.name = className p.name

/-- `produce_sighting`: a sighting counts towards belief, or keeps what is believed in. -/
def produceSighting (obj : WorldObject) : WorldObject :=
  match obj.status with
  | .tracked => { obj with timeoutCounter := obj.initialLoseCounter }
  | _ =>
    { obj with
      timeoutCounter :=
        if obj.sightingsCounter = 0 then obj.initialLockCounter else obj.timeoutCounter
      sightingsCounter := obj.sightingsCounter + 1 }

/-- `update`: a person takes the name and id of its percept. -/
def update (obj : WorldObject) : Percept → WorldObject
  | .person p => if obj.type = .person then { obj with name := p.name, id := p.id } else obj
  | _ => obj

/-- `run_update`: a sighting with what was seen. -/
def runUpdate (obj : WorldObject) (percept : Percept) : WorldObject :=
  obj.produceSighting.update percept

/-- The branch of `tick` on the status. -/
def tickStatus (obj : WorldObject) : WorldObject × Option EventType :=
  match obj.status with
  | .hypothetical =>
    if obj.sightingsCounter ≥ obj.neededSightings then
      ({ obj with status := .tracked, timeoutCounter := obj.initialLoseCounter }, some .newObject)
    else if obj.timeoutCounter ≤ 0 then ({ obj with shouldDelete := true }, none)
    else (obj, none)
  | .tracked =>
    if obj.timeoutCounter ≤ 0 || obj.inconsistent then
      ({ obj with status := .lost, sightingsCounter := 0, inconsistent := false }, some .disappear)
    else (obj, none)
  | .lost =>
    if obj.sightingsCounter ≥ obj.neededSightings then
      ({ obj with status := .tracked, timeoutCounter := obj.initialLoseCounter }, some .appear)
    else if obj.timeoutCounter ≤ 0 then ({ obj with sightingsCounter := 0 }, none)
    else (obj, none)

/-- `WorldObject::tick`: a tick passes for an object; it may be believed in or lost by it, which is
an event. -/
def tick (obj : WorldObject) : WorldObject × Option EventType :=
  let (obj, event) := obj.tickStatus
  ({ obj with timeoutCounter := max (obj.timeoutCounter - 1) 0 }, event)

end WorldObject

/-! ### Sources -/

/-- `SensorSources::Type`: whether a camera is moved by the robot. -/
inductive SourceType
  | active
  | passive
  deriving DecidableEq

/-- `SensorSources`: a camera, with the sum of the samples of where it is, which is their mean once
twenty have been taken. -/
structure SensorSources where
  type : SourceType
  /-- The mean has been taken. -/
  calibrated : Bool
  samplesCollected : ℕ
  /-- The sum of the samples, or their mean. -/
  cameraToWorld : Fin 4 → Fin 4 → ℚ
  deriving DecidableEq

namespace SensorSources

/-- The constructor. -/
def new (type : SourceType) : SensorSources := ⟨type, false, 0, fun _ _ ↦ 0⟩

def canUsePercepts (s : SensorSources) : Bool := s.calibrated && s.type = .active

def shouldCalibrate (s : SensorSources) : Bool := !s.calibrated

def requestCalibration (s : SensorSources) : SensorSources := { s with calibrated := false }

/-- The fourth column is shorter than 0.1. -/
def isShort (transform : Fin 4 → Fin 4 → ℚ) : Bool :=
  ∑ row, transform 3 row * transform 3 row < 1 / 100

/-- `calibrate`: a sample of where a camera is. The call after the twentieth sample takes the
mean. -/
def calibrate (s : SensorSources) (transform : Fin 4 → Fin 4 → ℚ) : SensorSources :=
  if isShort transform then s
  else if s.samplesCollected < 20 then
    { s with
      cameraToWorld := fun column row ↦ s.cameraToWorld column row + transform column row
      samplesCollected := s.samplesCollected + 1 }
  else
    { s with
      cameraToWorld := fun column row ↦ s.cameraToWorld column row * (1 / 20)
      calibrated := true }

end SensorSources

/-! ### The world -/

/-- `World`. `nextUid` is the identity of the next object on the heap. -/
structure World where
  /-- The vector, in its order. -/
  objects : List WorldObject
  /-- The persons among them. -/
  personObjects : List ℕ
  /-- The movables among them. -/
  movableObjects : List ℕ
  /-- The cameras, by number. -/
  sources : ℕ → Option SensorSources
  /-- The events of the last tick. -/
  latestEvents : List WorldEvent
  /-- Whether ticks are left out. -/
  isPaused : Bool
  /-- A message has come that objects have not ticked for. -/
  newPercepts : Bool
  nextUid : ℕ

namespace World

/-- The constructor. `new_percepts` is not initialised. -/
def new (newPercepts : Bool) : World where
  objects := []
  personObjects := []
  movableObjects := []
  sources := fun id ↦ [SensorSources.new .active, SensorSources.new .active,
    SensorSources.new .passive][id]?
  latestEvents := []
  isPaused := false
  newPercepts := newPercepts
  nextUid := 0

/-- A new object gets its first sighting and is put at the end of the vector and of its view. -/
def addObject (w : World) (obj : WorldObject) (percept : Percept) : World :=
  { w with
    objects := w.objects ++ [obj.runUpdate percept]
    personObjects := if obj.type = .person then w.personObjects ++ [obj.uid] else w.personObjects
    movableObjects :=
      if obj.type = .movable then w.movableObjects ++ [obj.uid] else w.movableObjects
    nextUid := w.nextUid + 1 }

/-- `create_hypothesis`: something is seen for the first time. Markers with other numbers are
ignored. -/
def createHypothesis (w : World) (percept : Percept) : World :=
  match percept with
  | .marker p =>
    if p.id = 0 || (p.id > 4 && p.id < 100) || (p.id > 100 && p.id ≤ 1000) || p.id > 1004 then w
    else w.addObject (WorldObject.newMovable w.nextUid p.id "marker") percept
  | .person p => w.addObject (WorldObject.newPerson w.nextUid p.id p.name) percept
  | .object p =>
    if p.type = .unknown then w
    else w.addObject (WorldObject.newMovable w.nextUid p.id p.name) percept

/-- One percept is given to the first object that matches it; `none` when there is none. -/
def matchPercept (objects : List WorldObject) (percept : Percept) : Option (List WorldObject) :=
  (objects.findIdx? (·.isMatch percept)).map fun i ↦ objects.modify i (·.runUpdate percept)

/-- The first loop of `match_percepts`. The state is the objects and the indices not used. -/
def matchLoop (st : List WorldObject × List ℕ) (p : Percept × ℕ) : List WorldObject × List ℕ :=
  match matchPercept st.1 p.1 with
  | some objects => (objects, st.2)
  | none => (st.1, st.2 ++ [p.2])

/-- `match_percepts`: percepts go to the objects they belong to, and those left over to new ones. -/
def matchPercepts (order : SetOrder) (w : World) (percepts : List Percept) : World :=
  let (objects, unused) := percepts.zipIdx.foldl matchLoop (w.objects, [])
  (order.indices unused).foldl
    (fun w i ↦ (percepts[i]?).elim w fun percept ↦ w.createHypothesis percept) { w with objects }

/-- The source is calibrated with the first marker of id 0. -/
def calibrateSource (w : World) (id : ℕ) (source : SensorSources) (markers : List MarkerPercept) :
    World :=
  match markers.find? (·.id = 0) with
  | some marker =>
    { w with
      sources := fun id' ↦
        if id' = id then some (source.calibrate marker.transform) else w.sources id' }
  | none => w

/-- `process_percepts`. It throws, and is `none`, on the index of a source that does not exist. -/
def processPercepts (order : SetOrder) (w : World) (msg : PerceptsMsg) : Option World :=
  if w.isPaused then some w
  else (w.sources msg.sourceIndex).map fun source ↦
    let w :=
      if source.canUsePercepts then
        let w := { w with newPercepts := true }
        let w := w.matchPercepts order (msg.markers.map .marker)
        let w := w.matchPercepts order (msg.persons.map .person)
        w.matchPercepts order (msg.objects.map .object)
      else w
    if source.shouldCalibrate then w.calibrateSource msg.sourceIndex source msg.markers else w

/-! ### Ticks -/

/-- The state of the loop over the objects in `World::tick`: the vector, the index, the events so
far and the objects whose single triggers were run. -/
structure TickState where
  /-- The vector, with objects that were ticked or moved. -/
  objects : List WorldObject
  /-- The place that is ticked next. -/
  index : ℕ
  /-- The events so far. -/
  events : List WorldEvent
  triggered : List ℕ

/-- One round of the loop, for the object at the index. A deletion swaps with the last object; the
next round looks at the next index. -/
def TickState.visit (st : TickState) (obj : WorldObject) : TickState :=
  let (obj, event) := obj.tick
  let objects := st.objects.set st.index obj
  let events := st.events ++ (event.map fun type ↦ ⟨type, obj⟩).toList
  if obj.shouldDelete then
    ⟨SwapPop.swapPop objects st.index, st.index + 1, events, st.triggered⟩
  else ⟨objects, st.index + 1, events, st.triggered ++ [obj.uid]⟩

/-- The loop, with at most `fuel` rounds. -/
def tickLoop : ℕ → TickState → TickState
  | 0, st => st
  | fuel + 1, st =>
    match st.objects[st.index]? with
    | none => st
    | some obj => tickLoop fuel (st.visit obj)

/-- The loop over all objects. The index grows and the vector does not, so a round for every object
is enough. -/
def tickObjects (objects : List WorldObject) : TickState :=
  tickLoop objects.length ⟨objects, 0, [], []⟩

/-- `World::tick`, with the messages that are waiting for it. Triggers and transformers see the
objects and events and change neither. -/
def tick (order : SetOrder) (w : World) (pending : List PerceptsMsg) : Option World :=
  if w.isPaused then some w
  else (pending.foldlM (processPercepts order) { w with latestEvents := [] }).map fun w ↦
    if w.newPercepts then
      let st := tickObjects w.objects
      { w with objects := st.objects, latestEvents := st.events, newPercepts := false }
    else w

/-- `pause`: while the world is paused, ticks change nothing. -/
def pause (w : World) (paused : Bool) : World := { w with isPaused := paused }

/-- `request_calibration` of a source. -/
def requestCalibration (w : World) (id : ℕ) : World :=
  { w with
    sources := fun id' ↦
      if id' = id then (w.sources id').map (·.requestCalibration) else w.sources id' }

/-! ### What a message does

A message does four things to a world: it replaces the objects by those a percept was matched in,
it creates hypotheses, it sets `newPercepts`, and it replaces the sources. What each of these keeps
is kept by a message. -/

variable {order : SetOrder} {P : World → Prop}

/-- A hypothesis is not created at all, or it is a new person or movable. -/
theorem createHypothesis_cases (w : World) (percept : Percept) :
    w.createHypothesis percept = w ∨ ∃ obj : WorldObject, (∃ id name,
      obj = .newPerson w.nextUid id name ∨ obj = .newMovable w.nextUid id name) ∧
        w.createHypothesis percept = w.addObject obj percept := by
  cases percept with
  | marker p =>
    show (if _ then w else w.addObject (.newMovable w.nextUid p.id "marker") (.marker p)) = w ∨ _
    split_ifs with hignored
    · exact Or.inl rfl
    · refine Or.inr ⟨_, ⟨p.id, "marker", Or.inr rfl⟩, ?_⟩
      rw [createHypothesis, if_neg hignored]
  | person p => exact Or.inr ⟨_, ⟨p.id, p.name, Or.inl rfl⟩, rfl⟩
  | object p =>
    show (if _ then w else w.addObject (.newMovable w.nextUid p.id p.name) (.object p)) = w ∨ _
    split_ifs with hunknown
    · exact Or.inl rfl
    · refine Or.inr ⟨_, ⟨p.id, p.name, Or.inr rfl⟩, ?_⟩
      rw [createHypothesis, if_neg hunknown]

theorem matchPercepts_rule
    (hmatch : ∀ w percept objects, P w → matchPercept w.objects percept = some objects →
      P { w with objects })
    (hcreate : ∀ w percept, P w → P (w.createHypothesis percept)) {w : World} (h : P w)
    (percepts : List Percept) : P (w.matchPercepts order percepts) := by
  have hloop : P { w with objects := (percepts.zipIdx.foldl matchLoop (w.objects, [])).1 } := by
    refine List.foldlRecOn _ _ (motive := fun st : List WorldObject × List ℕ ↦
      P { w with objects := st.1 }) h fun st hst p _ ↦ ?_
    show P { w with objects := (matchLoop st p).1 }
    rw [matchLoop]
    cases hobjects : matchPercept st.1 p.1 with
    | none => exact hst
    | some objects => exact hmatch { w with objects := st.1 } p.1 objects hst hobjects
  refine List.foldlRecOn _ _ (motive := P) hloop fun w' hw' i _ ↦ ?_
  cases percepts[i]? with
  | none => exact hw'
  | some percept => exact hcreate w' percept hw'

/-- **The rule for a message.** -/
theorem processPercepts_rule
    (hmatch : ∀ w percept objects, P w → matchPercept w.objects percept = some objects →
      P { w with objects })
    (hcreate : ∀ w percept, P w → P (w.createHypothesis percept))
    (hnew : ∀ w, P w → P { w with newPercepts := true })
    (hsources : ∀ w sources, P w → P { w with sources }) {w w' : World} {msg : PerceptsMsg}
    (h : P w) (hp : w.processPercepts order msg = some w') : P w' := by
  rw [processPercepts] at hp
  split_ifs at hp
  · rwa [← Option.some.inj hp]
  · obtain ⟨source, -, rfl⟩ := Option.map_eq_some_iff.1 hp
    have hcalibrate : ∀ w, P w → P (if source.shouldCalibrate then
        w.calibrateSource msg.sourceIndex source msg.markers else w) := by
      intro w hw
      split_ifs
      · rw [calibrateSource]
        split
        · exact hsources w _ hw
        · exact hw
      · exact hw
    refine hcalibrate _ ?_
    have hpercepts : ∀ w, P w → ∀ percepts, P (w.matchPercepts order percepts) :=
      fun w hw ↦ matchPercepts_rule hmatch hcreate hw
    split_ifs
    · exact hpercepts _ (hpercepts _ (hpercepts _ (hnew w h) _) _) _
    · exact h

/-- The rule for the messages that are waiting for a tick. -/
theorem foldlM_processPercepts_rule
    (hmsg : ∀ w w' msg, P w → w.processPercepts order msg = some w' → P w') {w w' : World}
    {pending : List PerceptsMsg} (h : P w)
    (hw : pending.foldlM (processPercepts order) w = some w') : P w' := by
  induction pending generalizing w with
  | nil => rwa [← Option.some.inj hw]
  | cons msg pending ih =>
    rw [List.foldlM_cons] at hw
    obtain ⟨w₁, hw₁, hrest⟩ := Option.bind_eq_some_iff.1 hw
    exact ih (hmsg w w₁ msg h hw₁) hrest

end World

end WorldModel
