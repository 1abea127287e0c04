import LightShow.Clock
import LightShow.CodecError

namespace LightShow

/-- A change of the rate at which ticks pass. -/
inductive TempoChange where
  /-- A new length of the beat, in microseconds. -/
  | tempo (microsecondsPerBeat : UInt32)
  /-- A new number of ticks in a beat. -/
  | timebase (ticksPerBeat : UInt16)
  deriving DecidableEq, Repr

/-- A change and the tick from which it holds. -/
structure TempoEvent where
  tick : Int
  change : TempoChange
  deriving DecidableEq, Repr

/-- How long a beat is and how many ticks it has. -/
structure Rate where
  microsecondsPerBeat : UInt32
  ticksPerBeat : UInt16
  deriving DecidableEq, Repr

namespace Rate

variable {τ : Type} [Clock τ]

/-- The seconds that one tick takes. -/
def secondsPerTick (r : Rate) : τ :=
  ((r.microsecondsPerBeat.toNat : Int) : τ) / ((1000000 : Int) : τ) /
    ((r.ticksPerBeat.toNat : Int) : τ)

/-- The rate after a change. A change to zero is no change. -/
def change? (r : Rate) : TempoChange → Option Rate
  | .tempo 0 => none
  | .timebase 0 => none
  | .tempo value => some { r with microsecondsPerBeat := value }
  | .timebase value => some { r with ticksPerBeat := value }

end Rate

/-- A stretch of ticks that pass at one rate. -/
structure TempoSegment (τ : Type) where
  startTick : Int
  secondsPerTick : τ
  /-- The seconds that have passed at `startTick`. -/
  startTime : τ
  deriving DecidableEq, Repr

namespace TempoSegment

variable {τ : Type} [Clock τ]

/-- The seconds that have passed at a tick of the segment. -/
def secondsAt (s : TempoSegment τ) (tick : Int) : τ :=
  s.startTime + ((tick - s.startTick : Int) : τ) * s.secondsPerTick

/-- Runs on from a segment through the changes that follow, which are in order of tick. What comes
back is the segment itself, at its final rate, and the segments behind it. Changes before the
segment are dropped, and so are changes to zero; a change at the segment's own start takes the
place of its rate. -/
def extend (segment : TempoSegment τ) (rate : Rate) :
    List TempoEvent → TempoSegment τ × List (TempoSegment τ)
  | [] => (segment, [])
  | event :: rest =>
    if event.tick < segment.startTick then extend segment rate rest
    else match rate.change? event.change with
      | none => extend segment rate rest
      | some rate =>
        if segment.startTick = event.tick then
          extend { segment with secondsPerTick := rate.secondsPerTick } rate rest
        else
          let next : TempoSegment τ :=
            { startTick := event.tick
              secondsPerTick := rate.secondsPerTick
              startTime := segment.secondsAt event.tick }
          let (next, later) := extend next rate rest
          (segment, next :: later)

end TempoSegment

/-- The passage from ticks to seconds: a segment from tick zero on, and those that follow it. -/
structure TempoMap (τ : Type) where
  opening : TempoSegment τ
  later : List (TempoSegment τ)
  deriving DecidableEq, Repr

namespace TempoMap

variable {τ : Type} [Clock τ]

/-- Changes in order of tick; those at one tick keep their order. -/
def inOrder (events : List TempoEvent) : List TempoEvent :=
  events.mergeSort fun a b => decide (a.tick ≤ b.tick)

/-- The map that starts at a rate and follows the changes, which may be given in any order. -/
def build (rate : Rate) (events : List TempoEvent) : Except CodecError (TempoMap τ) :=
  if rate.ticksPerBeat = 0 then .error (.invalidRequest .zeroTimebase)
  else if rate.microsecondsPerBeat = 0 then .error (.invalidRequest .zeroTempo)
  else
    let start : TempoSegment τ :=
      { startTick := 0
        secondsPerTick := rate.secondsPerTick
        startTime := ((0 : Int) : τ) }
    let (opening, later) := start.extend rate (inOrder events)
    .ok { opening, later }

def segments (m : TempoMap τ) : List (TempoSegment τ) := m.opening :: m.later

/-- The last segment that starts at or before a tick. -/
def segmentAt (m : TempoMap τ) (tick : Int) : TempoSegment τ :=
  (m.later.takeWhile fun s => decide (s.startTick ≤ tick)).getLastD m.opening

/-- The seconds that have passed at a tick. -/
def secondsAt (m : TempoMap τ) (tick : Int) : Except CodecError τ :=
  if tick < 0 then .error (.invalidRequest (.negativeTick tick))
  else .ok ((m.segmentAt tick).secondsAt tick)

/-- The seconds from one tick to a later one. -/
def secondsBetween (m : TempoMap τ) (start stop : Int) : Except CodecError τ := do
  if stop < start then throw (.invalidRequest (.reversedInterval start stop))
  let stopTime ← m.secondsAt stop
  let startTime ← m.secondsAt start
  return stopTime - startTime

end TempoMap

end LightShow
