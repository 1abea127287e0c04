import LightShow.Settings
import LightShow.Track

namespace LightShow.Timing

def second : Nat := 1000000000

/-- The first time, in seconds, that a span cannot reach. -/
def spanLimit : Nat := 0x10000000000000000

/-- The first time that the clock cannot show, in nanoseconds. -/
def clockLimit : Nat := 0x8000000000000000 * second

/-- A span in whole nanoseconds, a half going to the even neighbour. What is no span (a negative
number, a NaN, or one too large) counts as none. -/
def nanoseconds (seconds : Binary64) : Nat :=
  if seconds.isPositive && seconds.isFinite then
    let n := seconds.scaledHalfEven second
    if n < spanLimit * second then n else 0
  else 0

/-- The period of a loop over a track: the track's own, unless the shortest period is longer. -/
def period (track : Track Binary64) (settings : PlaybackSettings) : Nat :=
  nanoseconds (Binary64.larger track.duration settings.shortestPeriod)

end LightShow.Timing
