import R2DTU.Reasoning.EpistemicReasoning
import R2DTU.Reasoning.WorldModel
import Mathlib.Logic.Function.Basic

/-!
# What the robot makes of the things it sees

`Observing` turns events about objects into calls of the epistemic reasoner. A cube that disappears
inside a box was put into the box: it is looked for in **every** container, and the first one it is
found in is remembered. When the cube appears again it is taken out of the container that is
remembered.

Whether a cube is inside a container is a comparison of positions that depends on where the two are
at the time of the event; an event comes with its result for each container. Listening to a
microphone, which some of the markers start and stop, and the table of persons are left out.
-/

namespace Reasoning

/-- `MovableObj`: a thing of the world, whose marker says what it is. -/
structure MovableObj where
  /-- What it is and the number of its marker. -/
  name : String
  /-- The number of its marker. -/
  markerId : ℕ
  status : WorldObjectStatus
  deriving DecidableEq

/-- The objects events are about. -/
inductive WorldObject
  | person (name : String)
  | movable (obj : MovableObj)

/-- `Observing`, with `current_container` as a partial map. -/
structure Observing (L : DelDomain) where
  /-- The reasoner. -/
  epistemic : EpistemicReasoning L
  /-- The container a thing was put into. -/
  currentContainer : String → Option String

namespace Observing

variable {L : DelDomain}

/-- The name the robot has among the agents. -/
def robot : String := "R2DTU"

/-- `object_new_transformer`: what is new is registered, a thing or a container by the number of its
marker and a person by its name. -/
def objectNewTransformer (order : Del.HashOrder) (o : Observing L) :
    WorldObject → Option (Observing L)
  | .movable obj =>
    if obj.markerId < 200 then do
      let e ← o.epistemic.addObject order .storable obj.name
      return { o with epistemic := e }
    else if obj.markerId > 1000 then do
      let e ← o.epistemic.addObject order .container obj.name
      return { o with epistemic := e }
    else some o
  | .person name =>
    if name = "" then some o
    else do
      let e ← o.epistemic.addObject order .agent name
      let e ← e.agentAppear name
      return { o with epistemic := e }

/-- `object_appear_transformer`: a person has come, or a thing has been taken out of the container
it was in. -/
def objectAppearTransformer (o : Observing L) : WorldObject → Option (Observing L)
  | .person name =>
    if name = "" then some o
    else do
      let e ← o.epistemic.agentAppear name
      return { o with epistemic := e }
  | .movable obj =>
    match o.currentContainer obj.name with
    | none => some o
    | some container => do
      let e ← o.epistemic.takeOutOfContainer robot obj.name container
      return ⟨e, Function.update o.currentContainer obj.name none⟩

/-- `current_container.insert`, which keeps an entry that is there. -/
def insertContainer (o : Observing L) (name container : String) : String → Option String :=
  match o.currentContainer name with
  | some _ => o.currentContainer
  | none => Function.update o.currentContainer name (some container)

/-- The body of the loop of `object_disappear_transformer`. -/
def lookInto (obj : MovableObj) (inside : MovableObj → Bool) (o : Observing L)
    (movable : MovableObj) : Option (Observing L) :=
  if movable.markerId < 1000 then some o
  else if movable.status = .hypothetical then some o
  else if inside movable then do
    let e ← o.epistemic.putInContainer robot obj.name movable.name
    return ⟨e, o.insertContainer obj.name movable.name⟩
  else some o

/-- `object_disappear_transformer`, with the movables of the world and whether the object is inside
each of them. -/
def objectDisappearTransformer (o : Observing L) (movables : List MovableObj)
    (inside : MovableObj → Bool) : WorldObject → Option (Observing L)
  | .movable obj =>
    if obj.markerId ≥ 200 then some o
    else movables.foldlM (lookInto obj inside) o
  | .person name =>
    if name = "" then some o
    else do
      let e ← o.epistemic.agentDisappear name
      return { o with epistemic := e }

end Observing

end Reasoning
