import LightShow.Proofs.Outcome
import LightShow.Proofs.Tempo.Segments
import LightShow.Proofs.Ticks.Tally
import LightShow.Cue

namespace LightShow

variable {τ : Type} [Clock τ]

namespace TempoSegment

def tallySecondsAt (segment : TempoSegment τ) (tick : Int) : Tally τ := do
  let ticks ← .compute (.since tick segment.startTick)
  return segment.startTime + ((ticks : Int) : τ) * segment.secondsPerTick

/-- Runs on from a segment as `extend` does. -/
def tallyExtend (segment : TempoSegment τ) (rate : Rate) :
    List TempoEvent → Tally (TempoSegment τ × List (TempoSegment τ))
  | [] => return (segment, [])
  | event :: rest =>
    if event.tick < segment.startTick then tallyExtend segment rate rest
    else match rate.change? event.change with
      | none => tallyExtend segment rate rest
      | some rate =>
        if segment.startTick = event.tick then
          tallyExtend { segment with secondsPerTick := rate.secondsPerTick } rate rest
        else do
          let startTime ← segment.tallySecondsAt event.tick
          let next : TempoSegment τ :=
            { startTick := event.tick
              secondsPerTick := rate.secondsPerTick
              startTime }
          let (next, later) ← tallyExtend next rate rest
          return (segment, next :: later)

theorem outcome_tallySecondsAt (segment : TempoSegment τ) (tick : Int) :
    (segment.tallySecondsAt tick).outcome = .ok (segment.secondsAt tick) := rfl

/-- The seconds of a tick within a segment take one difference of ticks. -/
theorem keeps_tallySecondsAt {kind : TickSum → Prop} {segment : TempoSegment τ} {tick : Int}
    (h : kind (.since tick segment.startTick)) :
    (segment.tallySecondsAt tick).Keeps kind fun _ => True :=
  (Tally.Keeps.compute h).bind fun _ _ => .pure trivial

/-- Segments are the same with ticks and without: the recursion is that of `extend`, case by
case. -/
theorem outcome_tallyExtend (segment : TempoSegment τ) (rate : Rate) (events : List TempoEvent) :
    (segment.tallyExtend rate events).outcome = .ok (segment.extend rate events) := by
  fun_induction extend segment rate events with
  | case1 => rfl
  | case2 segment rate event rest hbefore ih => rw [tallyExtend, if_pos hbefore, ih]
  | case3 segment rate event rest hbefore hnone ih =>
    rw [tallyExtend, if_neg hbefore, hnone]
    exact ih
  | case4 segment rate event rest hbefore rate' hsome hsame ih =>
    rw [tallyExtend, if_neg hbefore, hsome]
    simp only [if_pos hsame]
    exact ih
  | case5 segment rate event rest hbefore rate' hsome hsame next final later hextend ih =>
    rw [tallyExtend, if_neg hbefore, hsome]
    simp only [if_neg hsame, Tally.outcome_bind, outcome_tallySecondsAt, Outcome.ok_bind]
    rw [ih, hextend]
    rfl

end TempoSegment

namespace TempoMap

def tallySecondsAt (m : TempoMap τ) (tick : Int) : Tally τ :=
  if tick < 0 then .ofExcept (.error (.invalidRequest (.negativeTick tick)))
  else (m.segmentAt tick).tallySecondsAt tick

/-- The seconds of a length that begins at a tick. -/
def tallySpan (m : TempoMap τ) (tick : Int) (length : UInt16) : Tally τ := do
  let stop ← .compute (.ahead tick length)
  if stop < tick then .ofExcept (.error (.invalidRequest (.reversedInterval tick stop)))
  else do
    let stopTime ← m.tallySecondsAt stop
    let startTime ← m.tallySecondsAt tick
    return stopTime - startTime

def tallyBuild (rate : Rate) (events : List TempoEvent) : Tally (TempoMap τ) :=
  if rate.ticksPerBeat = 0 then .ofExcept (.error (.invalidRequest .zeroTimebase))
  else if rate.microsecondsPerBeat = 0 then .ofExcept (.error (.invalidRequest .zeroTempo))
  else do
    let (opening, later) ← (TempoSegment.first rate).tallyExtend rate (inOrder events)
    return { opening, later }

@[simp] theorem outcome_tallySecondsAt (m : TempoMap τ) (tick : Int) :
    (m.tallySecondsAt tick).outcome = m.secondsAt tick := by
  rw [tallySecondsAt, secondsAt]
  split <;> rfl

/-- A length is timed as the interval from its tick on. -/
@[simp] theorem outcome_tallySpan (m : TempoMap τ) (tick : Int) (length : UInt16) :
    (m.tallySpan tick length).outcome = m.secondsBetween tick (tick + length.toNat) := by
  simp only [tallySpan, secondsBetween, Tally.outcome_bind, Tally.outcome_compute, TickSum.value,
    Outcome.ok_bind]
  split
  · rfl
  · simp only [Tally.outcome_bind, outcome_tallySecondsAt]
    rfl

/-- A tempo map is refused or built with ticks as it is without them. -/
theorem outcome_tallyBuild (rate : Rate) (events : List TempoEvent) :
    (tallyBuild rate events : Tally (TempoMap τ)).outcome = build rate events := by
  rw [tallyBuild, build]
  split
  next => rfl
  next =>
    split
    next => rfl
    next =>
      rw [Tally.outcome_bind, TempoSegment.outcome_tallyExtend]
      rfl

section

variable {kind : TickSum → Prop} {m : TempoMap τ} {tick : Int}

/-- Whatever is computed for a length that begins at the tick is of the kind. -/
structure Allows (kind : TickSum → Prop) (m : TempoMap τ) (tick : Int) : Prop where
  ahead : ∀ length, kind (.ahead tick length)
  since : ∀ length : UInt16,
    kind (.since (tick + length.toNat) (m.segmentAt (tick + length.toNat)).startTick)

/-- The seconds at the end of a length need nothing that is not of the kind. -/
theorem Allows.secondsAhead (h : m.Allows kind tick) (length : UInt16) :
    (m.tallySecondsAt (tick + length.toNat)).Keeps kind fun _ => True := by
  rw [tallySecondsAt]
  split
  · exact .ofExcept fun _ _ => trivial
  · exact TempoSegment.keeps_tallySecondsAt (h.since length)

/-- A tick is the end of a length of zero. -/
theorem Allows.secondsAt (h : m.Allows kind tick) :
    (m.tallySecondsAt tick).Keeps kind fun _ => True := by
  have hnone : tick + ((0 : UInt16).toNat : Int) = tick := Int.add_zero tick
  rw [← hnone]
  exact h.secondsAhead 0

/-- A length needs its end, and the seconds at both of its ends. -/
theorem Allows.span (h : m.Allows kind tick) (length : UInt16) :
    (m.tallySpan tick length).Keeps kind fun _ => True := by
  refine (Tally.Keeps.compute (h.ahead length)).bind fun stop hstop => ?_
  split
  · exact .ofExcept fun _ _ => trivial
  · rw [hstop]
    exact (h.secondsAhead length).bind fun _ _ => h.secondsAt.bind fun _ _ => .pure trivial

end

end TempoMap

namespace Cue

def tallyCommand (tempo : TempoMap τ) (tick : Int) : Cue → Tally (Command τ)
  | switch transition colour _ => do
    let time ← tempo.tallySecondsAt tick
    if transition = 0 then return .switch time colour
    else do
      let span ← tempo.tallySpan tick transition
      return .fade time colour (Clock.units span) 1
  | fade ramp pulses colour _ => do
    let time ← tempo.tallySecondsAt tick
    let count := max pulses 1
    let span ← tempo.tallySpan tick ramp
    let pulse := Clock.units (span / ((count.toNat : Int) : τ))
    return .fade time colour (max pulse 1) count
  | flash on off pulses colour _ => do
    let time ← tempo.tallySecondsAt tick
    let onSpan ← tempo.tallySpan tick on
    let offSpan ← tempo.tallySpan tick off
    return .flash time colour (max (Clock.units onSpan) 1) (max (Clock.units offSpan) 1)
      (max pulses 1)

/-- When a cue ends that begins at a tick and a time. No tick is computed if it is not held. -/
def tallyFinish (tempo : TempoMap τ) (tick : Int) (time : τ) (cue : Cue) : Tally τ :=
  if cue.hold = 0 then return time
  else do
    let stop ← .compute (.ahead tick cue.hold)
    tempo.tallySecondsAt stop

/-- A cue becomes the same command with ticks as without them, or fails with the same error. -/
theorem outcome_tallyCommand (tempo : TempoMap τ) (tick : Int) (cue : Cue) :
    (cue.tallyCommand tempo tick).outcome = cue.command tempo tick := by
  cases cue with
  | switch transition colour hold =>
    simp only [tallyCommand, command, Tally.outcome_bind, TempoMap.outcome_tallySecondsAt]
    congr 1
    funext time
    split
    · rfl
    · simp only [Tally.outcome_bind, TempoMap.outcome_tallySpan]
      rfl
  | fade ramp pulses colour hold =>
    simp only [tallyCommand, command, Tally.outcome_bind, TempoMap.outcome_tallySecondsAt,
      TempoMap.outcome_tallySpan]
    rfl
  | flash on off pulses colour hold =>
    simp only [tallyCommand, command, Tally.outcome_bind, TempoMap.outcome_tallySecondsAt,
      TempoMap.outcome_tallySpan]
    rfl

/-- A command begins at the time of its tick. -/
theorem secondsAt_of_command {tempo : TempoMap τ} {tick : Int} {cue : Cue} {command : Command τ}
    (h : cue.command tempo tick = .ok command) : tempo.secondsAt tick = .ok command.time := by
  cases cue with
  | switch transition colour hold =>
    obtain ⟨time, htime, h⟩ := Outcome.bind_eq_ok_iff.1 h
    rw [htime]
    split at h
    · cases h
      rfl
    · obtain ⟨span, _, h⟩ := Outcome.bind_eq_ok_iff.1 h
      cases h
      rfl
  | fade ramp pulses colour hold =>
    obtain ⟨time, htime, h⟩ := Outcome.bind_eq_ok_iff.1 h
    obtain ⟨span, _, h⟩ := Outcome.bind_eq_ok_iff.1 h
    cases h
    exact htime
  | flash on off pulses colour hold =>
    obtain ⟨time, htime, h⟩ := Outcome.bind_eq_ok_iff.1 h
    obtain ⟨onSpan, _, h⟩ := Outcome.bind_eq_ok_iff.1 h
    obtain ⟨offSpan, _, h⟩ := Outcome.bind_eq_ok_iff.1 h
    cases h
    exact htime

/-- Where a cue is not held, its end is the time of its command, which has been computed before. -/
theorem outcome_tallyFinish {tempo : TempoMap τ} {tick : Int} {cue : Cue} {command : Command τ}
    (h : cue.command tempo tick = .ok command) :
    (cue.tallyFinish tempo tick command.time).outcome = cue.finish tempo tick := by
  rw [tallyFinish, finish]
  split
  next hzero =>
    rw [hzero, show ((0 : UInt16).toNat : Int) = 0 from rfl, Int.add_zero, secondsAt_of_command h]
    rfl
  next => simp only [Tally.outcome_bind, TempoMap.outcome_tallySecondsAt]; rfl

/-- A command is made of lengths that begin at its tick. -/
theorem keeps_tallyCommand {kind : TickSum → Prop} {tempo : TempoMap τ} {tick : Int}
    (h : tempo.Allows kind tick) (cue : Cue) :
    (cue.tallyCommand tempo tick).Keeps kind fun _ => True := by
  cases cue with
  | switch transition colour hold =>
    refine h.secondsAt.bind fun time _ => ?_
    split
    · exact .pure trivial
    · exact (h.span transition).bind fun _ _ => .pure trivial
  | fade ramp pulses colour hold =>
    exact h.secondsAt.bind fun _ _ => (h.span ramp).bind fun _ _ => .pure trivial
  | flash on off pulses colour hold =>
    exact h.secondsAt.bind fun _ _ => (h.span on).bind fun _ _ => (h.span off).bind fun _ _ =>
      .pure trivial

/-- The end of a cue is that of a length which begins at its tick. -/
theorem keeps_tallyFinish {kind : TickSum → Prop} {tempo : TempoMap τ} {tick : Int}
    (h : tempo.Allows kind tick) (time : τ) (cue : Cue) :
    (cue.tallyFinish tempo tick time).Keeps kind fun _ => True := by
  rw [tallyFinish]
  split
  · exact .pure trivial
  · refine (Tally.Keeps.compute (h.ahead cue.hold)).bind fun stop hstop => ?_
    rw [hstop]
    exact h.secondsAhead cue.hold

end Cue

end LightShow
