import R2DTU.Library.Reactive
import R2DTU.Reasoning.Observing
import R2DTU.Reasoning.Sentences
import Mathlib.Algebra.Order.Ring.Rat
import Mathlib.Algebra.Order.Group.Unbundled.Abs

/-!
# A session of observing

All of `Observing`, as programs that put out what is asked of the epistemic reasoner and of the
robot. A session starts with `enter`; then come world events with what the world holds, commands of
the terminal and ticks, and it ends with `leave`.

The state has everything that outlives a call: the members of the class, the variables of `tick`
that are `static`, and the number of animations that were drawn. The world is what it holds as the
last world tick left it; only a world tick with new percepts changes it, and `clear` empties it.

**Inputs and outputs.** A command of the terminal is an input when it is delivered, also one that a
session has published with `hear`. Outputs are the calls of the robot's functions, not the messages
it publishes for them. Those also depend on the members `current_pitch`, `current_yaw`,
`current_theta` and `last_look_at_update` of `Robot` and on its clock, by which `look_at` limits how
often the head turns. They outlive a session, belong to the robot, and are not part of the state
here.

**Parameters.** The order of hash maps, the position of the robot, which nothing here changes, and
the animations: `get_random_speaking_animation` shuffles a list with a generator of a fixed seed, so
that the n-th animation of a process is fixed too. What a microphone hears comes with the event or
the command that listens. Views, logs and positions of containers are left out, and so are the
triggers and the sequence that are not registered. What throws or indexes an empty result is a
failure.
-/

namespace Reasoning

/-! ### What the world holds -/

/-- `glm::vec3`: a point or a direction, in meters. -/
structure Vec3 where
  x : ℚ
  y : ℚ
  z : ℚ
  deriving DecidableEq

/-- The zero vector. -/
def Vec3.zero : Vec3 := ⟨0, 0, 0⟩

/-- All coordinates of the difference are at most those of the extent. -/
def Vec3.within (p q extent : Vec3) : Bool :=
  |p.x - q.x| ≤ extent.x && |p.y - q.y| ≤ extent.y && |p.z - q.z| ≤ extent.z

/-- The distance is less than a bound; both are squared. -/
def Vec3.near (p q : Vec3) (bound : ℚ) : Bool :=
  (p.x - q.x) ^ 2 + (p.y - q.y) ^ 2 + (p.z - q.z) ^ 2 < bound ^ 2

/-- `MovableObj` with its center. -/
structure Movable extends MovableObj where
  center : Vec3

/-- `SkeletonPercept`: where the joints of a person are, and how sure the camera is of each. -/
structure Pose where
  /-- Where the joints are. -/
  joints : Fin 25 → Vec3
  /-- How sure the camera is of them. -/
  certainty : Fin 25 → ℚ

/-- `PersonObj`: a person of the world with the last skeleton that was seen. -/
structure PersonObj where
  /-- The name that was learnt, or nothing. -/
  name : String
  status : WorldObjectStatus
  /-- The skeleton that was seen last. -/
  latestPose : Pose

/-- An object of the vector. -/
inductive Entity
  | person (person : PersonObj)
  | movable (movable : Movable)

/-- What events say about the object, for `Observing`. -/
def Entity.toWorldObject : Entity → WorldObject
  | .person p => .person p.name
  | .movable m => .movable m.toMovableObj

/-- What `World` holds: the vector and the views of persons and movables. -/
structure Contents where
  /-- The vector, in its order. -/
  objects : List Entity
  /-- The persons among them. -/
  persons : List PersonObj
  /-- The movables among them. -/
  movables : List Movable

/-- `World::clear`: nothing is left. -/
def Contents.clear : Contents := ⟨[], [], []⟩

/-- The middle of the space in a container: `center + aabb_offset`. -/
def Movable.origin (m : Movable) : Vec3 :=
  ⟨m.center.x, m.center.y - 35 / 100, m.center.z + 1 / 10⟩

/-- Where a thing that disappears is inside a container. -/
def Movable.holds (m : Movable) (p : Vec3) : Bool := p.within m.origin ⟨1 / 10, 30 / 100, 30 / 100⟩

/-- Where a hand is inside a container, or at an object. -/
def Movable.touchedBy (m : Movable) (p : Vec3) : Bool :=
  p.within m.origin ⟨1 / 10, 30 / 100, 25 / 100⟩

/-- The hand at a joint is seen well enough. -/
def PersonObj.handValid (p : PersonObj) (joint : Fin 25) : Bool :=
  p.latestPose.certainty joint > 3 / 10

/-- The right or the left hand is at an object. -/
def PersonObj.touches (p : PersonObj) (m : Movable) : Bool :=
  (m.touchedBy (p.latestPose.joints 4) && p.handValid 4) ||
    (m.touchedBy (p.latestPose.joints 7) && p.handValid 7)

/-! ### Outputs -/

deriving instance DecidableEq for EpistemicReasoning.Call

/-- What is asked of the epistemic reasoner, of the robot and of the terminal. A call of the robot
has its arguments; the message that the robot makes of it is left out. -/
inductive Output
  | epistemic (call : EpistemicReasoning.Call)
  | say (sentence : String)
  | playAnimation (name : String)
  | toggleBreathing (enabled : Bool)
  | push
  | lookAt (target : Vec3)
  | lookAtBox (target : Vec3)
  | turnTorsoTo (target : Vec3)
  | pointAt (target : Vec3)
  | restArmPosition
  | hear (text : String)
  | sendToTerminal (text : String)
  deriving DecidableEq

/-- The calls of the epistemic reasoner, and the commands of the robot to speak and to move. -/
def Output.isCommand : Output → Bool
  | .hear _ => false
  | .sendToTerminal _ => false
  | _ => true

/-- `ShowBoxSequence`: a box is being shown: what is said, which box it is, the ticks so far, and
where the box was at first. -/
structure ShowBoxSequence where
  /-- What is said when the box is shown. -/
  sentence : String
  /-- The number of the box. -/
  boxId : ℕ
  /-- The ticks so far. -/
  counter : ℕ
  /-- Where the robot was when it turned to the box. -/
  start : Vec3

/-- The constructor; `start` is not set before it is used. -/
def ShowBoxSequence.new (sentence : String) (boxId : ℕ) : ShowBoxSequence :=
  ⟨sentence, boxId, 0, .zero⟩

/-- `ShowBoxSequence::tick`: the sequence goes on, or is over. The position of the box is a local
variable that is set in one tick only, so that the arm points at the zero vector. -/
def ShowBoxSequence.tick (position : Vec3) (movables : List Movable) (q : ShowBoxSequence) :
    Option ShowBoxSequence × List Output :=
  if q.counter = 0 then
    (some { q with counter := 1 },
      .toggleBreathing false :: if q.sentence = "" then [] else [.say q.sentence])
  else if q.counter = 5 then
    let box := ((movables.find? (·.markerId = q.boxId)).map (·.center)).getD .zero
    (some { q with counter := 6, start := position }, [.turnTorsoTo box, .lookAtBox box])
  else if q.counter = 100 then (some { q with counter := 101 }, [.pointAt .zero])
  else if q.counter = 300 then (some { q with counter := 301 }, [.restArmPosition])
  else if q.counter = 330 then (none, [.turnTorsoTo q.start])
  else (some { q with counter := q.counter + 1 }, [])

/-- The variables of `tick` that are `static`. -/
structure HeadTracking where
  /-- The rounds since a cube was looked at, or a negative number. -/
  lastLookAtCube : ℤ
  /-- The person that was looked at last. -/
  currentlyTrackTarget : String
  /-- The rounds in which persons were looked at since the last change. -/
  personSwitchTimer : ℕ
  deriving DecidableEq

namespace HeadTracking

/-- No cube was looked at, or only `CUBE_TRACKING_TIMEOUT` ticks ago. -/
def isIdle (h : HeadTracking) : Bool := h.lastLookAtCube < 0 || h.lastLookAtCube > 8

/-- The person to look at, and the timer. With two persons it is the one that is tracked, or the
other when the timer has run out. -/
def choose (h : HeadTracking) : List (String × Vec3) → Option ((String × Vec3) × ℕ)
  | [] => none
  | [fst, snd] =>
    let (chosen, other) := if fst.1 = h.currentlyTrackTarget then (fst, snd) else (snd, fst)
    if h.personSwitchTimer > 100 then some (other, 0) else some (chosen, h.personSwitchTimer)
  | fst :: _ => some (fst, h.personSwitchTimer)

/-- The head turns to a cube, or to a person. -/
def look (h : HeadTracking) (cubes : List Vec3) (persons : List (String × Vec3)) :
    HeadTracking × List Output :=
  match cubes with
  | cube :: _ => ({ h with lastLookAtCube := 0 }, [.lookAt cube])
  | [] =>
    if h.isIdle then
      match h.choose persons with
      | some (person, timer) => (⟨-1, person.1, timer + 1⟩, [.lookAt person.2])
      | none => (h, [])
    else (h, [])

/-- The ticks after looking at a cube are counted. -/
def count (h : HeadTracking) : HeadTracking :=
  if h.lastLookAtCube ≥ 0 then { h with lastLookAtCube := h.lastLookAtCube + 1 } else h

/-- The end of `tick`. -/
def tick (h : HeadTracking) (cubes : List Vec3) (persons : List (String × Vec3)) :
    HeadTracking × List Output :=
  ((h.look cubes persons).1.count, (h.look cubes persons).2)

end HeadTracking

/-! ### The state -/

/-- `Observing` with all its members and the variables that are `static`. -/
structure Session (L : DelDomain) extends Observing L where
  /-- What the world holds. -/
  world : Contents
  /-- The box that is being shown. -/
  currentSequence : Option ShowBoxSequence
  /-- The answer to a question for the reason. -/
  explainSentence : String
  /-- The ticks since the session was entered. -/
  counter : ℕ
  /-- `turned_back` of a person. -/
  personInfo : String → Option Bool
  /-- Whether the microphone is recording. -/
  recording : Bool
  /-- Whether the operator wants views with nothing in them. -/
  blankViewsFlag : Bool
  /-- What the head does between sequences. -/
  tracking : HeadTracking
  /-- How many animations were drawn. -/
  animationsDrawn : ℕ

namespace Session

variable {L : DelDomain}

/-- The constructor. The epistemic reasoner has no domain before its first `reset`. -/
def new (epistemic : EpistemicReasoning L) : Session L where
  epistemic := epistemic
  currentContainer := fun _ ↦ none
  world := .clear
  currentSequence := none
  explainSentence := ""
  counter := 0
  personInfo := fun _ ↦ none
  recording := false
  blankViewsFlag := false
  tracking := ⟨-1, "", 0⟩
  animationsDrawn := 0

/-- Programs of a session. -/
abbrev Program (L : DelDomain) (α : Type) : Type := Reactive (Session L) Output α

open Reactive

/-- A call of the epistemic reasoner that changes it. -/
def perform (order : Del.HashOrder) (call : EpistemicReasoning.Call) : Program L Unit := do
  let e ← read (·.epistemic)
  let e ← ofOption (e.call order call)
  change fun s ↦ { s with epistemic := e }
  emit (.epistemic call)

/-- `epistemic.query`: the objects for which a query holds, in the present state. -/
def query (q : Query) : Program L (List String) := do
  let e ← read (·.epistemic)
  ofOption (e.query q)

/-- The loop over the accepted sentences and what the terminal shows, for a text that was heard. -/
def heard (text : String) : Program L Unit := do
  each (fun sentence ↦ emit (.hear sentence)) (acceptedSentences.filter (· = text))
  if text ∈ acceptedSentences then emit (.sendToTerminal "")
  else emit (.sendToTerminal ("hear: " ++ text))

/-- `start_listening`: what the microphone hears is taken as a sentence. -/
def startListening (text : String) : Program L Unit := heard text

/-- `stop_listening`: so is what a recording has heard, which ends with it. -/
def stopListening (text : String) : Program L Unit := do
  heard text
  change fun s ↦ { s with recording := false }

/-! ### Informing about false beliefs -/

/-- What an agent believes and is not so. -/
def falseBelief (agent : String) (q : Query) : Query := .and (.believes agent q) (.not q)

/-- The name of another person; the last one in the view. -/
def otherName (persons : List PersonObj) (agent : String) : String :=
  persons.foldl (fun name p ↦ if p.name ≠ "" ∧ p.name ≠ agent then p.name else name) ""

/-- `stoi(box.substr(box.size() - 4))`. -/
def boxNumber (box : String) : Option ℤ :=
  if box.length < 4 then none else stoi (box.toList.drop (box.length - 4))

/-- `plan`: everything after its first line is not reached. -/
def plan (_goalObject : String) (knowsLocation : Bool) : Bool := !knowsLocation

/-- The part the handlers share: an explanation is kept, and a box is going to be shown. -/
def showBox (agent thing box : String) (announce : String → String → String) :
    Program L Unit := do
  let persons ← read (·.world.persons)
  let number ← ofOption (boxNumber box)
  change fun s ↦
    { s with
      explainSentence := explain (otherName persons agent) thing (toString (number - 1000)) agent
      currentSequence := some
        (.new (announce thing (toString (number - 1000))) (number % 2 ^ 32).toNat) }

/-- The common text of `inform_about_false_belief_cube` and `inform_about_false_belief_box`: what is
asked of the agent, and the cube and the box that are believed in, read off the first answer. -/
def informAboutFalseBelief (order : Del.HashOrder) (agent : String) (belief : Query)
    (cubeOf boxOf : String → String) (announce : String → String → String) :
    Program L Unit := do
  let believed ← query (falseBelief agent belief)
  match believed with
  | [] => pure ()
  | answer :: _ => do
    let actual ← query (inPredicate (.const (cubeOf answer)) (.var "x"))
    if plan (cubeOf answer) actual.isEmpty then do
      let actualBox ← ofOption actual.head?
      showBox agent (colourOf (cubeOf answer)) actualBox announce
      perform order (.takeOutOfContainer Observing.robot (cubeOf answer) (boxOf answer))
      perform order (.putInContainer Observing.robot (cubeOf answer) actualBox)
    else pure ()

/-- `inform_about_false_belief_cube`: the agent is told where a cube is, if it is wrong about
that. -/
def informAboutFalseBeliefCube (order : Del.HashOrder) (agent cube : String) : Program L Unit :=
  informAboutFalseBelief order agent (inPredicate (.const cube) (.var "x")) (fun _ ↦ cube) id
    announceLocation

/-- `inform_about_false_belief_box`: the agent is told where the cube is that it takes to be in a
box. -/
def informAboutFalseBeliefBox (order : Del.HashOrder) (agent box : String) : Program L Unit :=
  informAboutFalseBelief order agent (inPredicate (.var "x") (.const box)) id (fun _ ↦ box)
    lookingFor

/-- `inform_about_false_belief_object`. It prints the first actual place before it asks whether
there is one. -/
def informAboutFalseBeliefObject (order : Del.HashOrder) (agent held : String) :
    Program L Unit := do
  let object := getMatchingAffordances (String.ofList (WorldModel.className held))
  let believed ← query (falseBelief agent (inPredicate (.const object) (.var "x")))
  match believed with
  | [] => pure ()
  | _ :: _ => do
    let actual ← query (inPredicate (.const object) (.var "x"))
    let boxName ← ofOption actual.head?
    if plan object actual.isEmpty then do
      showBox agent object boxName objectLookingFor
      perform order (.directConsciousAttention agent object boxName)
    else pure ()

/-- A person that is tracked and has a name touches an object that is not ignored. -/
def whenTouched (person : PersonObj) (movable : Movable) (ignored : Bool)
    (inform : Program L Unit) : Program L Unit :=
  if person.status ≠ .tracked ∨ person.name = "" then pure ()
  else if movable.status = .hypothetical ∨ ignored then pure ()
  else if person.touches movable then inform
  else pure ()

/-- `intention_trigger`: a hand at a box makes the robot tell where the cube is that is not in
it. -/
def intentionTrigger (order : Del.HashOrder) (person : PersonObj) (movable : Movable) :
    Program L Unit :=
  whenTouched person movable (movable.markerId ≤ 200)
    (informAboutFalseBeliefBox order person.name movable.name)

/-- `intention_trigger_complementary`: a hand at an object makes the robot tell where the object is
that goes with it. -/
def intentionTriggerComplementary (order : Del.HashOrder) (person : PersonObj)
    (movable : Movable) : Program L Unit :=
  whenTouched person movable (movable.markerId ≥ 200 || movable.markerId ≤ 100)
    (informAboutFalseBeliefObject order person.name movable.name)

/-! ### World events -/

/-- `object_new_transformer`, with what is heard when it listens. -/
def objectNewTransformer (order : Del.HashOrder) (text : String) : Entity → Program L Unit
  | .movable obj =>
    if obj.markerId < 200 then perform order (.addObject .storable obj.name)
    else if obj.markerId > 1000 then perform order (.addObject .container obj.name)
    else if obj.markerId = 100 then startListening text
    else pure ()
  | .person p =>
    if p.name = "" then pure ()
    else do
      perform order (.addObject .agent p.name)
      perform order (.agentAppear p.name)
      change fun s ↦
        { s with
          personInfo := Function.update s.personInfo p.name
            (some ((s.personInfo p.name).getD false)) }

/-- An object that was stored in a container is taken out. -/
def takeOut (order : Del.HashOrder) (name : String) : Program L Unit := do
  let container ← read (·.currentContainer name)
  match container with
  | some container => do
    perform order (.takeOutOfContainer Observing.robot name container)
    change fun s ↦ { s with currentContainer := Function.update s.currentContainer name none }
  | none => pure ()

/-- `object_appear_transformer`: a person has come, or a thing has been taken out of its container;
the marker of the microphone makes the robot listen. -/
def objectAppearTransformer (order : Del.HashOrder) (text : String) : Entity → Program L Unit
  | .person p =>
    if p.name = "" then pure () else perform order (.agentAppear p.name)
  | .movable obj => do
    takeOut order obj.name
    if obj.markerId = 100 then startListening text else pure ()

/-- The body of the loop of `object_disappear_transformer`. -/
def lookInto (order : Del.HashOrder) (obj movable : Movable) : Program L Unit :=
  if movable.markerId < 1000 then pure ()
  else if movable.status = .hypothetical then pure ()
  else if movable.holds obj.center then do
    change fun s ↦ { s with currentContainer := s.insertContainer obj.name movable.name }
    perform order (.putInContainer Observing.robot obj.name movable.name)
  else pure ()

/-- The object is looked for in every container. -/
def lookIntoAll (order : Del.HashOrder) (obj : Movable) : Program L Unit := do
  let movables ← read (·.world.movables)
  each (lookInto order obj) movables

/-- `object_disappear_transformer`. Marker 100 is below 200 and looked for as well. -/
def objectDisappearTransformer (order : Del.HashOrder) (text : String) : Entity → Program L Unit
  | .movable obj =>
    if obj.markerId ≥ 200 then pure ()
    else if obj.markerId = 100 then do
      stopListening text
      lookIntoAll order obj
    else lookIntoAll order obj
  | .person p =>
    if p.name = "" then pure ()
    else do
      perform order (.agentDisappear p.name)
      change fun s ↦ { s with personInfo := Function.update s.personInfo p.name (some false) }

/-- An event of the world, with what is heard when it makes the robot listen. -/
structure SeenEvent where
  type : WorldModel.EventType
  obj : Entity
  text : String

/-- The transformer that `enter` registers for the type of the event. -/
def transform (order : Del.HashOrder) (event : SeenEvent) : Program L Unit :=
  match event.type with
  | .newObject => objectNewTransformer order event.text event.obj
  | .appear => objectAppearTransformer order event.text event.obj
  | .disappear => objectDisappearTransformer order event.text event.obj

/-- The pair triggers that `enter` registers, for two objects of the vector. -/
def pairTriggers (order : Del.HashOrder) : Entity → Entity → Program L Unit
  | .person person, .movable movable => do
    intentionTrigger order person movable
    intentionTriggerComplementary order person movable
  | _, _ => pure ()

/-- `World::tick` with new percepts: what the world then holds, its events and its triggers. -/
def worldTick (order : Del.HashOrder) (world : Contents) (events : List SeenEvent) :
    Program L Unit := do
  change fun s ↦ { s with world := world }
  each (transform order) events
  each (fun fst ↦ each (pairTriggers order fst) world.objects) world.objects

/-! ### Commands of the terminal -/

/-- What a session runs in: the order of hash maps, the position of the robot, and the animations in
the order in which they are drawn. -/
structure Setting where
  /-- The order of hash maps. -/
  order : Del.HashOrder
  /-- Where the robot is. -/
  position : Vec3
  /-- The animations, in the order in which they are drawn. -/
  animation : ℕ → String

variable (c : Setting)

/-- The name of the last person of the view that is tracked. -/
def trackedName (persons : List PersonObj) : String :=
  persons.foldl (fun name p ↦ if p.status = .tracked then p.name else name) ""

/-- `goal_statement_trigger`: a sentence that names a colour makes the robot inform the person in
front of it about that cube. -/
def goalStatementTrigger (sentence : List Char) : Program L Bool :=
  match fromWord sentence "i have come for the " with
  | none => pure false
  | some rest =>
    match colours.findIdx? (hasWord rest) with
    | none => pure false
    | some i => do
      let persons ← read (·.world.persons)
      if trackedName persons = "" then pure false
      else do
        informAboutFalseBeliefCube c.order (trackedName persons) ("marker-" ++ toString (i + 1))
        pure true

/-- The number of cubes in a Danish sentence. -/
def cubesNeeded (rest : List Char) : Option ℕ :=
  if hasWord rest "en" then some 1
  else if hasWord rest "to" then some 2
  else if hasWord rest "tre" then some 3
  else none

/-- The body of the loop of `need_speech_trigger`. It evaluates a query with a variable. -/
def needStep (e : EpistemicReasoning L) (st : ℕ × String) (m : Movable) :
    Option (ℕ × String) :=
  if st.1 = 0 then some st
  else if m.markerId ≥ 100 then some st
  else do
    let res ← e.query (inPredicate (.const m.name) (.var "x"))
    match res with
    | [] => some st
    | box :: _ =>
      let found ← e.evaluate (inPredicate (.const m.name) (.var "x"))
      let sentence := st.2 ++ m.name ++ " klods " ++ if found then " den er i kasse " ++ box else ""
      some (st.1 - 1, sentence ++ if st.1 - 1 = 1 then " og " else "")

/-- `need_speech_trigger`: a sentence that says how many cubes are needed is answered with their
boxes. -/
def needSpeechTrigger (sentence : List Char) : Program L Bool :=
  match (fromWord sentence "jeg skal bruge ").bind cubesNeeded with
  | none => pure false
  | some n => do
    let persons ← read (·.world.persons)
    if trackedName persons = "" then pure false
    else do
      let movables ← read (·.world.movables)
      let e ← read (·.epistemic)
      let st ← ofOption (movables.foldlM (needStep e) (n, "tag den "))
      emit (.say st.2)
      pure true

/-- `why_speech_trigger`: a sentence that asks why is answered with the last explanation. -/
def whySpeechTrigger (sentence : List Char) : Program L Bool :=
  if hasWord sentence "hvorfor" || hasWord sentence "why" then do
    let text ← read (·.explainSentence)
    emit (.say text)
    pure true
  else pure false

/-- `epistemic_speech_trigger`. The animation is the next one that is drawn. -/
def epistemicSpeechTrigger (sentence : List Char) : Program L Bool := do
  let answer ← read (·.epistemic.answerQuestion sentence)
  if answer = "" then pure false
  else do
    emit (.say answer)
    update fun s ↦ ({ s with animationsDrawn := s.animationsDrawn + 1 },
      [.playAnimation (c.animation s.animationsDrawn)])
    pure true

/-- The loop over `speech_triggers`, up to the first that takes the sentence. -/
def firstOf : List (Program L Bool) → Program L Unit
  | [] => pure ()
  | trigger :: triggers => do
    let taken ← trigger
    if taken then pure () else firstOf triggers

/-- `terminal_cmd`, with what is heard when it listens. -/
def terminalCmd (cmd param text : String) : Program L Unit :=
  if cmd = "hear:" then
    firstOf [goalStatementTrigger c param.toList, whySpeechTrigger param.toList,
      needSpeechTrigger param.toList, epistemicSpeechTrigger c param.toList]
  else if cmd = "blank" then change fun s ↦ { s with blankViewsFlag := !s.blankViewsFlag }
  else if cmd = "sr" then startListening text
  else if cmd = "push" then do
    emit (.toggleBreathing false)
    emit .push
  else if cmd = "h1" then emit (.hear "blå klods")
  else if cmd = "h2" then emit (.hear "Lasse blå klods")
  else pure ()

/-! ### Ticks -/

/-- Persons that are tracked and have a name. -/
def isTarget (p : PersonObj) : Bool := p.status = .tracked && p.name ≠ ""

/-- `potential_person_targets`: the heads the robot may look at. -/
def personTargets (w : Contents) : List (String × Vec3) :=
  (w.persons.filter isTarget).map fun p ↦ (p.name, p.latestPose.joints 0)

/-- A cube is a target once for each hand that is near it. -/
def handTargets (p : PersonObj) (m : Movable) : List Vec3 :=
  if m.status = .hypothetical ∨ m.markerId ≥ 200 then []
  else
    (if p.handValid 7 && (p.latestPose.joints 7).near m.center (1 / 4) then [m.center] else []) ++
      if p.handValid 4 && (p.latestPose.joints 4).near m.center (1 / 4) then [m.center] else []

/-- `potential_cube_targets`: the objects near hands, which the robot may look at. -/
def cubeTargets (w : Contents) : List Vec3 :=
  (w.persons.filter isTarget).flatMap fun p ↦ w.movables.flatMap (handTargets p)

/-- `tick`, after the commands of the terminal. -/
def tick : Program L Unit := do
  let sequence ← read (·.currentSequence)
  match sequence with
  | some sequence =>
    update fun s ↦
      let (next, out) := sequence.tick c.position s.world.movables
      ({ s with currentSequence := next }, out)
  | none => do
    let counter ← read (·.counter)
    if counter % 3 = 0 then
      update fun s ↦
        let (tracking, out) := s.tracking.tick (cubeTargets s.world) (personTargets s.world)
        ({ s with tracking := tracking }, out)
    else pure ()

/-! ### Sessions -/

/-- `enter`: a session begins with a reasoner and a world in which there is nothing. -/
def enter : Program L Unit := do
  let e ← ofOption (EpistemicReasoning.reset c.order)
  change fun s ↦
    { s with epistemic := e, world := .clear, currentSequence := none, counter := 0 }
  emit (.toggleBreathing true)

/-- `leave`: the session ends, and the world is forgotten. -/
def leave : Program L Unit := change fun s ↦ { s with world := .clear }

/-- What comes to a session. -/
inductive Input
  | world (contents : Contents) (events : List SeenEvent)
  | terminalCmd (cmd param text : String)
  | tick

/-- One input. -/
def step : Input → Program L Unit
  | .world contents events => worldTick c.order contents events
  | .terminalCmd cmd param text => terminalCmd c cmd param text
  | .tick => tick c

/-- Entering and then some inputs. -/
def visit (inputs : List Input) : Program L Unit := do
  enter c
  each (step c) inputs

/-- Sessions one after the other, each from `enter` to `leave`. -/
def history (sessions : List (List Input)) : Program L Unit :=
  each (fun inputs ↦ do visit c inputs; leave) sessions

/-- The calls and commands of a program from a state; `none` when it fails. -/
def commands (p : Program L Unit) (s : Session L) : Option (List Output) :=
  (p.outputs s).map (List.filter Output.isCommand)

end Session

end Reasoning
