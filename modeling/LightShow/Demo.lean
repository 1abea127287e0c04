import LightShow.Score

namespace LightShow

/-- An event of a demonstration track. Lengths are in beats. -/
inductive DemoEvent where
  | defaultTransition (transition : Rat)
  | switch (colour : ColourRef) (transition hold : Rat)
  /-- A switch with the pad's default transition. -/
  | switchDefault (colour : ColourRef) (hold : Rat)
  | fade (colour : ColourRef) (ramp : Rat) (pulses : UInt8) (hold : Rat)
  | flash (colour : ColourRef) (on off : Rat) (pulses : UInt8) (hold : Rat)
  | blackout (transition hold : Rat)
  deriving DecidableEq, Repr

/-- A demonstration track, laid out in beats. -/
structure Demo where
  name : String
  description : String
  overrides : List (UInt8 × Colour)
  tempo : List (Rat × UInt32)
  lanes : List (Pad × List (Rat × DemoEvent))
  deriving DecidableEq, Repr

namespace Demo

/-- The number of ticks in a beat of every demonstration track. -/
def ticksPerBeat : UInt16 := 960

/-- The length of a beat before any change of tempo: 120 beats a minute. -/
def microsecondsPerBeat : UInt32 := 500000

/-- The ticks nearest to a number of beats. -/
def ticks (beats : Rat) : Nat := (beats * ticksPerBeat.toNat + mkRat 1 2).floor.toNat

def position (beats : Rat) : UInt32 := UInt32.ofNat (ticks beats)

/-- A length in ticks, which must not be the mark of the default transition. -/
def span (beats : Rat) : UInt16 :=
  UInt16.ofNat (min (ticks beats) (PadEvent.useDefaultTransition.toNat - 1))

def padEvent : DemoEvent → PadEvent
  | .defaultTransition transition => .defaultTransition (span transition)
  | .switch colour transition hold => .switch (span transition) colour (span hold)
  | .switchDefault colour hold => .switch PadEvent.useDefaultTransition colour (span hold)
  | .fade colour ramp pulses hold => .fade (span ramp) pulses colour (span hold)
  | .flash colour on off pulses hold => .flash (span on) (span off) pulses colour (span hold)
  | .blackout transition hold => .blackout (span transition) (span hold)

/-- Writes the events of a lane into a score. -/
def addLane (s : Score) (pad : Pad) : List (Rat × DemoEvent) → Except CodecError Score
  | [] => .ok s
  | (beat, event) :: rest =>
    match s.addEvent pad (position beat) (padEvent event) with
    | (s, .ok ()) => addLane s pad rest
    | (_, .error error) => .error error

/-- The score of a demonstration track. -/
def score (d : Demo) : Except CodecError Score := do
  let s := Score.new ticksPerBeat microsecondsPerBeat
  let s ← d.overrides.foldlM (fun s (index, colour) => s.overrideColour index colour) s
  let s := d.tempo.foldl (fun s (beat, tempo) => s.setTempo (position beat) tempo) s
  d.lanes.foldlM (fun s (pad, events) => addLane s pad events) s

def bytes (d : Demo) : Except CodecError Bytes := do
  return (← d.score).toBytes

/-- The period of the longest track of a program, in seconds. -/
def period (program : Show) : Binary64 :=
  program.tracks.entries.foldl (fun longest (_, track) => Binary64.larger longest track.duration)
    Binary64.zero

/-- Demonstration tracks loop in five to fifteen seconds, give or take a rounding error. -/
def isFairPeriod (seconds : Binary64) : Bool :=
  !seconds.isNaN && Binary64.totalLe shortestLoop seconds && Binary64.totalLe seconds longestLoop
where
  /-- Five seconds less a millionth. -/
  shortestLoop : Binary64 := Binary64.ofInt 5 - Binary64.ofRat false (mkRat 1 1000000)
  /-- Fifteen seconds and a millionth. -/
  longestLoop : Binary64 := Binary64.ofInt 15 + Binary64.ofRat false (mkRat 1 1000000)

end Demo

end LightShow
