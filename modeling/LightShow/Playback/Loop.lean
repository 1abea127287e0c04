import LightShow.Playback.Actuator
import LightShow.Playback.Timing

namespace LightShow

/-- Where a loop stands between two of its steps. -/
inductive Phase where
  /-- About to look for a request to stop, before the next command. -/
  | checking
  /-- Waiting for the next command to be due. -/
  | waiting
  | calling
  | exited
  /-- Brought down. -/
  | panicked
  deriving DecidableEq, Repr

/-- A loop that plays the commands of one track on one pad, cycle after cycle. Times are in
nanoseconds. -/
structure Loop where
  pad : Pad
  commands : List (Command Binary64)
  period : Nat
  /-- When the first cycle began. -/
  started : Nat
  /-- How many calls have been carried out. -/
  made : Nat
  phase : Phase
  stopRequested : Bool
  /-- Whether its end has been waited for. -/
  joined : Bool
  /-- The error of the call that ended the loop. -/
  fault : Option ActuatorError
  deriving DecidableEq, Repr

namespace Loop

def new (pad : Pad) (track : Track Binary64) (settings : PlaybackSettings) (now : Nat) : Loop where
  pad := pad
  commands := track.commands
  period := Timing.period track settings
  started := now
  made := 0
  phase := .checking
  stopRequested := false
  joined := false
  fault := none

def hasEnded (l : Loop) : Bool := l.phase = .exited ∨ l.phase = .panicked

/-- The command of the `k`-th call, counted from zero. There is none if the track is empty. -/
def command? (l : Loop) (k : Nat) : Option (Command Binary64) :=
  l.commands[k % l.commands.length]?

/-- When the command of the `k`-th call is due. -/
def dueTime (l : Loop) (k : Nat) (command : Command Binary64) : Nat :=
  l.started + k / l.commands.length * l.period + Timing.nanoseconds command.time

/-- Carries out a call, whose reply decides how the loop goes on. -/
def afterReply (l : Loop) : Reply → Loop
  | .done => { l with made := l.made + 1, phase := .checking }
  | .failed error => { l with fault := some error, phase := .exited }
  | .panicked => { l with phase := .panicked }

/-- One step of a loop at the time `now`, and the call that it makes in this step. A loop looks for
a request to stop before each command and while it waits for the command to be due; it does not
look again once it is about to call. A due time beyond the clock brings the loop down. -/
def step (l : Loop) (now : Nat) (answer : Call → Reply) : Loop × Option (Call × Reply) :=
  match l.phase, l.command? l.made with
  | .checking, some command =>
    if l.stopRequested then ({ l with phase := .exited }, none)
    else if Timing.clockLimit ≤ l.dueTime l.made command then ({ l with phase := .panicked }, none)
    else ({ l with phase := .waiting }, none)
  | .waiting, some command =>
    if l.stopRequested then ({ l with phase := .exited }, none)
    else if now < l.dueTime l.made command then (l, none)
    else ({ l with phase := .calling }, none)
  | .calling, some command =>
    let call := command.call l.pad
    let reply := answer call
    (l.afterReply reply, some (call, reply))
  | .exited, _ => (l, none)
  | .panicked, _ => (l, none)
  | _, none => ({ l with phase := .exited }, none)

end Loop

end LightShow
