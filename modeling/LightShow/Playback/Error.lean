import LightShow.FileSystem.Error
import LightShow.Playback.Actuator

namespace LightShow

/-- Why playback or its configuration fails. -/
inductive PlaybackError where
  | emptyProgram
  | genericProgram
  | noTrackFor (pad : Pad)
  | padsMissing (found : Nat)
  | noSourceTrack (source pad : Pad)
  | loopPanicked (pad : Pad)
  /-- The system has no thread for a loop. -/
  | threadRefused (description : String)
  | actuator (error : ActuatorError)
  | configUnreadable (error : FileError)
  | configMalformed
  deriving DecidableEq, Repr

namespace PlaybackError

/-- Who is to blame for an error. -/
inductive Kind where
  /-- The caller asked for what cannot be. -/
  | request
  /-- A loop could not be started, or went wrong in a way that its actuator does not explain. -/
  | internal
  | actuator
  | configRead
  | configParse
  deriving DecidableEq, Repr

def kind : PlaybackError → Kind
  | emptyProgram => .request
  | genericProgram => .request
  | noTrackFor _ => .request
  | padsMissing _ => .request
  | noSourceTrack _ _ => .internal
  | loopPanicked _ => .internal
  | threadRefused _ => .internal
  | actuator _ => .actuator
  | configUnreadable _ => .configRead
  | configMalformed => .configParse

/-- What is wrong, without the kind of error in front. -/
def reason : PlaybackError → String
  | emptyProgram => "program has no pad tracks"
  | genericProgram => "generic programs must be bound to a pad"
  | noTrackFor pad => s!"program has no track for pad {pad.name}"
  | padsMissing found => s!"default track must define all three pads (got {found} pads)"
  | noSourceTrack source pad => s!"program has no {source.name} track to play on pad {pad.name}"
  | loopPanicked pad => s!"pad loop worker for {pad.name} panicked"
  | threadRefused description => description
  | actuator error => error.message
  | configUnreadable error => error.message
  | configMalformed => "not a valid document"

def message : PlaybackError → String
  | threadRefused description => s!"Failed to spawn pad loop thread: {description}"
  | e =>
    match e.kind with
    | .request => s!"Invalid input: {e.reason}"
    | .internal => s!"Internal error: {e.reason}"
    | .actuator => e.reason
    | .configRead => s!"Failed to read config file: {e.reason}"
    | .configParse => s!"Failed to parse config file: {e.reason}"

end PlaybackError

end LightShow
