import LightShow.Tempo

namespace LightShow.TempoMap

variable {τ : Type} [Clock τ]

/-- The seconds that have passed at a tick, which must not lie before the start. -/
def time (m : TempoMap τ) (tick : Int) : τ := (m.segmentAt tick).secondsAt tick

/-- The seconds that some ticks take from a tick on. -/
def span (m : TempoMap τ) (tick : Int) (length : Nat) : τ := m.time (tick + length) - m.time tick

/-- Only ticks before zero have no time. -/
theorem secondsAt_of_nonneg (m : TempoMap τ) {tick : Int} (h : 0 ≤ tick) :
    m.secondsAt tick = .ok (m.time tick) := by
  rw [secondsAt, if_neg (by omega)]
  rfl

/-- A length that begins at zero or later can always be timed. -/
theorem secondsBetween_of_nonneg (m : TempoMap τ) {tick : Int} (h : 0 ≤ tick) (length : Nat) :
    m.secondsBetween tick (tick + length) = .ok (m.span tick length) := by
  have hstop : 0 ≤ tick + (length : Int) := by omega
  rw [secondsBetween, if_neg (by omega), m.secondsAt_of_nonneg h, m.secondsAt_of_nonneg hstop]
  rfl

/-- Only a rate of zero is refused. Changes never are, in whatever order they come. -/
theorem exists_build {rate : Rate} (hbase : rate.ticksPerBeat ≠ 0)
    (htempo : rate.microsecondsPerBeat ≠ 0) (events : List TempoEvent) :
    ∃ m : TempoMap τ, build rate events = .ok m := by
  rw [build, if_neg hbase, if_neg htempo]
  exact ⟨_, rfl⟩

/-- The order in which changes are given matters only for those at one tick. -/
theorem build_congr (rate : Rate) {events events' : List TempoEvent}
    (h : inOrder events = inOrder events') :
    (build rate events : Except CodecError (TempoMap τ)) = build rate events' := by
  simp only [build, h]

end LightShow.TempoMap
