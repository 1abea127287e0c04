import LightShow.Pad
import LightShow.Track

namespace LightShow

/-- What an actuator says when it cannot carry out a call. -/
structure ActuatorError where
  detail : String
  deriving DecidableEq, Repr

def ActuatorError.message (e : ActuatorError) : String := s!"Pad actuator failed: {e.detail}"

/-- What the lights are told to do. Lengths are in units of ten milliseconds. -/
inductive Action where
  | setColour (colour : Colour)
  | fade (colour : Colour) (pulseTime pulseCount : UInt8)
  | flash (colour : Colour) (onLength offLength pulseCount : UInt8)
  deriving DecidableEq, Repr

structure Call where
  target : Target
  action : Action
  deriving DecidableEq, Repr

/-- How a call ends. -/
inductive Reply where
  | done
  | failed (error : ActuatorError)
  /-- The actuator brings down the loop that called it. -/
  | panicked
  deriving DecidableEq, Repr

/-- The hardware, as it is seen from the loops: how it answers a call after the calls and answers
before it, latest first. -/
abbrev Actuator := List (Call × Reply) → Call → Reply

/-- The action of a command. The actuator takes no zero, so each number is raised to at least
one. -/
def Command.action {τ : Type} : Command τ → Action
  | .switch _ colour => .setColour colour
  | .fade _ colour pulseTime pulseCount => .fade colour (max pulseTime 1) (max pulseCount 1)
  | .flash _ colour onLength offLength pulseCount =>
    .flash colour (max onLength 1) (max offLength 1) (max pulseCount 1)

/-- The call that carries out a command on a pad. -/
def Command.call {τ : Type} (c : Command τ) (pad : Pad) : Call := ⟨.pad pad, c.action⟩

end LightShow
