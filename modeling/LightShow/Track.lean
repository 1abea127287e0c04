import LightShow.Clock
import LightShow.Colour

namespace LightShow

/-- A timed instruction for one pad. Lengths and pulse times are in the actuator's units. -/
inductive Command (τ : Type) where
  | switch (time : τ) (colour : Colour)
  /-- Fade to a colour in `pulseCount` pulses of `pulseTime` each. -/
  | fade (time : τ) (colour : Colour) (pulseTime pulseCount : UInt8)
  /-- Flash a colour `pulseCount` times. -/
  | flash (time : τ) (colour : Colour) (onLength offLength pulseCount : UInt8)
  deriving DecidableEq, Repr

namespace Command

variable {τ : Type}

/-- Seconds from the start of the loop. -/
def time : Command τ → τ
  | switch time _ => time
  | fade time _ _ _ => time
  | flash time _ _ _ _ => time

def colour : Command τ → Colour
  | switch _ colour => colour
  | fade _ colour _ _ => colour
  | flash _ colour _ _ _ => colour

end Command

/-- What one pad repeats: its commands in order of time, and the period of the loop. -/
structure Track (τ : Type) where
  commands : List (Command τ)
  duration : τ
  deriving DecidableEq, Repr

namespace Track

variable {τ : Type}

def length (t : Track τ) : Nat := t.commands.length

def isEmpty (t : Track τ) : Bool := t.commands.isEmpty

variable [Clock τ]

/-- The order of commands by their time. -/
def commandLe (a b : Command τ) : Bool :=
  Clock.le a.time b.time

/-- Puts the commands in order of time, commands of one time keeping their order. The period is at
least `duration`, reaches to the last command and is no shorter than ten milliseconds. -/
def ofCommands (commands : List (Command τ)) (duration : τ) : Track τ :=
  let sorted := commands.mergeSort commandLe
  let last := match sorted.getLast? with
    | some command => command.time
    | none => ((0 : Int) : τ)
  { commands := sorted
    duration := Clock.later (Clock.later duration last) Clock.minPeriod }

end Track

end LightShow
