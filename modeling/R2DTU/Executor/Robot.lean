import Mathlib.Data.Rat.Defs

/-!
# The robot as the states of the executor see it

A state tells the robot what to do, and the robot publishes a message for it. A command is such a
call: it has the arguments of the call. Angles that are computed from a position or from the
transform of a source have that position or transform instead.
-/

namespace Executor

universe u

/-- `PersonObj`, with the position of its head. -/
structure Person (V : Type u) where
  id : UInt32
  /-- Whether the world believes in the person. -/
  tracked : Bool
  /-- The name that was learnt, or nothing. -/
  name : String
  /-- Where its head is. -/
  head : V

/-- What the robot is told to do. -/
inductive Command (V : Type u)
  | setupTts (danish : Bool) (speed : ℚ)
  | toggleBreathing (enabled : Bool)
  | playAnimation (name : String)
  | calibrationDone (cameraToWorld : Fin 4 → Fin 4 → ℚ)
  | moveTo (x y z : ℚ)
  | turn (angle : ℚ)
  | turnTowards (head : V)
  | turnAhead (cameraToWorld : Fin 4 → Fin 4 → ℚ)
  | setHeadAngles (pitch yaw : ℚ)
  | startLearn (id : UInt32)
  | handshakeUp
  | handshakeReciprocate
  | handshakeDown
  | say (text : String)
  | lookAt (head : V)
  | startRecording
  | logInfo (text : String)
  | sendToTerminal (text : String)

end Executor
