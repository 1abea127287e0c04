import LightShow.PadEvent
import LightShow.Program
import LightShow.Tempo

namespace LightShow

/-- What an event has a pad show, with its colour looked up and the default transition filled in.
Lengths are in ticks. -/
inductive Cue where
  | switch (transition : UInt16) (colour : Colour) (hold : UInt16)
  | fade (ramp : UInt16) (pulses : UInt8) (colour : Colour) (hold : UInt16)
  | flash (on off : UInt16) (pulses : UInt8) (colour : Colour) (hold : UInt16)
  deriving DecidableEq, Repr

namespace Cue

def hold : Cue → UInt16
  | switch _ _ hold => hold
  | fade _ _ _ hold => hold
  | flash _ _ _ _ hold => hold

/-- The cue of an event, if it shows anything. Only a switch can ask for the default transition,
which is none at all unless it has been set. -/
def ofEvent? (palette : Palette) (defaultTransition : Option UInt16) :
    PadEvent → Except CodecError (Option Cue)
  | .switch transition colour hold => do
    let transition :=
      if transition = PadEvent.useDefaultTransition then defaultTransition.getD 0 else transition
    return some (.switch transition (← colour.resolve palette) hold)
  | .fade ramp pulses colour hold => do
    return some (.fade ramp pulses (← colour.resolve palette) hold)
  | .flash on off pulses colour hold => do
    return some (.flash on off pulses (← colour.resolve palette) hold)
  | .blackout transition hold => return some (.switch transition .black hold)
  | .defaultTransition _ => return none
  | .keyframe _ => return none

/-- The default transition after an event. -/
def defaultAfter (defaultTransition : Option UInt16) : PadEvent → Option UInt16
  | .defaultTransition transition => some transition
  | _ => defaultTransition

/-- The cues of a stream, each with its tick. -/
def ofEvents (palette : Palette) (defaultTransition : Option UInt16) :
    List (Int × PadEvent) → Except CodecError (List (Int × Cue))
  | [] => return []
  | (tick, event) :: rest => do
    let cue ← ofEvent? palette defaultTransition event
    let more ← ofEvents palette (defaultAfter defaultTransition event) rest
    match cue with
    | some cue => return (tick, cue) :: more
    | none => return more

variable {τ : Type} [Clock τ]

/-- The command that shows a cue at a tick. A transition becomes a fade of a single pulse. Pulse
counts, and the lengths of fades and flashes, are at least one. -/
def command (tempo : TempoMap τ) (tick : Int) : Cue → Except CodecError (Command τ)
  | switch transition colour _ => do
    let time ← tempo.secondsAt tick
    if transition = 0 then return .switch time colour
    else
      let span ← tempo.secondsBetween tick (tick + transition.toNat)
      return .fade time colour (Clock.units span) 1
  | fade ramp pulses colour _ => do
    let time ← tempo.secondsAt tick
    let count := max pulses 1
    let span ← tempo.secondsBetween tick (tick + ramp.toNat)
    let pulse := Clock.units (span / ((count.toNat : Int) : τ))
    return .fade time colour (max pulse 1) count
  | flash on off pulses colour _ => do
    let time ← tempo.secondsAt tick
    let onSpan ← tempo.secondsBetween tick (tick + on.toNat)
    let offSpan ← tempo.secondsBetween tick (tick + off.toNat)
    return .flash time colour (max (Clock.units onSpan) 1) (max (Clock.units offSpan) 1)
      (max pulses 1)

/-- When a cue ends: at once if it is not held. -/
def finish (tempo : TempoMap τ) (tick : Int) (cue : Cue) : Except CodecError τ :=
  tempo.secondsAt (tick + cue.hold.toNat)

/-- The track that shows the cues. It lasts until the last of them ends. -/
def track (tempo : TempoMap τ) (cues : List (Int × Cue)) : Except CodecError (Track τ) := do
  let commands ← cues.mapM fun (tick, cue) => cue.command tempo tick
  let ends ← cues.mapM fun (tick, cue) => cue.finish tempo tick
  return Track.ofCommands commands (ends.foldl Clock.later ((0 : Int) : τ))

end Cue

namespace Track

variable {τ : Type} [Clock τ]

/-- The track of a pad, from its payloads. It may be empty. -/
def decode (pad : Pad) (tempo : TempoMap τ) (palette : Palette) (payloads : List Bytes) :
    Except CodecError (Track τ) := do
  let events ← PadEvent.readAll pad payloads
  let cues ← Cue.ofEvents palette none events
  Cue.track tempo cues

end Track

end LightShow
