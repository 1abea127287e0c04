import LightShow.Clock

namespace LightShow

/-- How loops are played. -/
structure PlaybackSettings where
  /-- How long a waiting loop may leave a request to stop unnoticed, in milliseconds. -/
  stopPollMs : UInt64
  /-- The shortest period of a loop, in seconds. -/
  minLoopSeconds : Binary64
  deriving DecidableEq, Repr

namespace PlaybackSettings

/-- The longest interval at which a loop looks for a request to stop, in milliseconds. -/
def longestPoll : UInt64 := 100

def default : PlaybackSettings := ⟨longestPoll, Binary64.hundredth⟩

/-- The interval in use, within one millisecond and the longest one. -/
def pollInterval (c : PlaybackSettings) : UInt64 :=
  max 1 (min longestPoll c.stopPollMs)

/-- The shortest period in use. A setting that is no positive finite number counts as the
default. -/
def shortestPeriod (c : PlaybackSettings) : Binary64 :=
  if c.minLoopSeconds.isFinite && c.minLoopSeconds.isPositive then c.minLoopSeconds
  else Binary64.hundredth

end PlaybackSettings

/-- How decoded tracks are kept. -/
structure CacheSettings where
  /-- Whether two paths that lead to one file name one track. -/
  canonicalizePaths : Bool
  deriving DecidableEq, Repr

def CacheSettings.default : CacheSettings := ⟨true⟩

structure Settings where
  playback : PlaybackSettings
  cache : CacheSettings
  deriving DecidableEq, Repr

def Settings.default : Settings := ⟨.default, .default⟩

end LightShow
