import LightShow.Proofs.Sequence
import LightShow.Proofs.Tempo.Segments
import Mathlib.Data.List.Pairwise
import Mathlib.Data.List.Perm.Basic

namespace LightShow

namespace TempoChange

/-- The tempo that a change sets. A change to zero sets none. -/
def tempo? : TempoChange → Option UInt32
  | tempo value => if value = 0 then none else some value
  | timebase _ => none

/-- The timebase that a change sets. A change to zero sets none. -/
def timebase? : TempoChange → Option UInt16
  | tempo _ => none
  | timebase value => if value = 0 then none else some value

/-- The change sets nothing. -/
def IsIdle (change : TempoChange) : Prop := change.tempo? = none ∧ change.timebase? = none

end TempoChange

namespace Rate

/-- A change is skipped exactly if it sets neither tempo nor timebase. -/
theorem change?_eq_none_iff {rate : Rate} {change : TempoChange} :
    rate.change? change = none ↔ change.IsIdle := by
  cases change with
  | tempo value =>
    by_cases h : value = 0 <;>
      simp [change?, TempoChange.IsIdle, TempoChange.tempo?, TempoChange.timebase?, h]
  | timebase value =>
    by_cases h : value = 0 <;>
      simp [change?, TempoChange.IsIdle, TempoChange.tempo?, TempoChange.timebase?, h]

/-- A change replaces what it sets and leaves the rest of the rate as it was. -/
theorem getD_change? (rate : Rate) (change : TempoChange) :
    (rate.change? change).getD rate =
      ⟨change.tempo?.getD rate.microsecondsPerBeat, change.timebase?.getD rate.ticksPerBeat⟩ := by
  cases change with
  | tempo value =>
    by_cases h : value = 0 <;> simp [change?, TempoChange.tempo?, TempoChange.timebase?, h]
  | timebase value =>
    by_cases h : value = 0 <;> simp [change?, TempoChange.tempo?, TempoChange.timebase?, h]

end Rate

namespace TempoEvent

variable {α : Type} (value? : TempoChange → Option α)

/-- The last value of one kind that some events set, in the order in which they stand. -/
def last? (events : List TempoEvent) : Option α :=
  (events.filterMap fun event => value? event.change).getLast?

/-- The first of several events counts only if none behind it sets the same. -/
theorem getD_last?_cons (event : TempoEvent) (rest : List TempoEvent) (initial : α) :
    (last? value? (event :: rest)).getD initial =
      (last? value? rest).getD ((value? event.change).getD initial) := by
  cases hvalue : value? event.change with
  | none => simp only [last?, List.filterMap_cons, hvalue, Option.getD_none]
  | some value =>
    simp only [last?, List.filterMap_cons, hvalue, List.getLast?_cons, Option.getD_some]

end TempoEvent

namespace Rate

/-- The rate after some events, each part of it being the last value that they set. -/
def after (rate : Rate) (events : List TempoEvent) : Rate where
  microsecondsPerBeat :=
    (TempoEvent.last? TempoChange.tempo? events).getD rate.microsecondsPerBeat
  ticksPerBeat := (TempoEvent.last? TempoChange.timebase? events).getD rate.ticksPerBeat

/-- The rate after several events is reached event by event. -/
theorem after_cons (rate : Rate) (event : TempoEvent) (rest : List TempoEvent) :
    rate.after (event :: rest) = ((rate.change? event.change).getD rate).after rest := by
  simp only [after, getD_change?, TempoEvent.getD_last?_cons]

/-- Events cannot bring a rate to zero, since changes to zero are skipped. -/
theorem Positive.after {rate : Rate} (h : rate.Positive) (events : List TempoEvent) :
    (rate.after events).Positive := by
  induction events generalizing rate with
  | nil => exact h
  | cons event rest ih =>
    rw [after_cons]
    refine ih ?_
    rw [getD_change?]
    cases event.change with
    | tempo value =>
      refine ⟨?_, h.ticksPerBeat⟩
      by_cases hvalue : value = 0
      · simpa [TempoChange.tempo?, hvalue] using h.microsecondsPerBeat
      · simp [TempoChange.tempo?, hvalue]
    | timebase value =>
      refine ⟨h.microsecondsPerBeat, ?_⟩
      by_cases hvalue : value = 0
      · simpa [TempoChange.timebase?, hvalue] using h.ticksPerBeat
      · simp [TempoChange.timebase?, hvalue]

end Rate

variable {τ : Type} [Clock τ]

namespace TempoSegment

/-- The events that have come from the start of a segment up to a tick. -/
def passed (start tick : Int) (events : List TempoEvent) : List TempoEvent :=
  events.filter fun event => start ≤ event.tick ∧ event.tick ≤ tick

theorem passed_cons_of_mem {start tick : Int} {event : TempoEvent} (hstart : start ≤ event.tick)
    (htick : event.tick ≤ tick) (rest : List TempoEvent) :
    passed start tick (event :: rest) = event :: passed start tick rest :=
  List.filter_cons_of_pos (decide_eq_true ⟨hstart, htick⟩)

theorem passed_cons_of_lt {start tick : Int} {event : TempoEvent} (h : event.tick < start)
    (rest : List TempoEvent) : passed start tick (event :: rest) = passed start tick rest := by
  have hout : ¬ (start ≤ event.tick ∧ event.tick ≤ tick) := by omega
  exact List.filter_cons_of_neg (by simpa only [decide_eq_true_eq] using hout)

/-- No event has passed while all are still to come. -/
theorem passed_eq_nil {start tick : Int} {events : List TempoEvent}
    (h : ∀ event ∈ events, tick < event.tick) : passed start tick events = [] := by
  rw [passed, List.filter_eq_nil_iff]
  intro event hmem
  have hlt := h event hmem
  simp only [decide_eq_true_eq]
  omega

/-- Events that all come from a later start on have passed since the later start. -/
theorem passed_congr {start later tick : Int} {events : List TempoEvent} (hle : start ≤ later)
    (h : ∀ event ∈ events, later ≤ event.tick) :
    passed start tick events = passed later tick events := by
  apply List.filter_congr
  intro event hmem
  have hlater := h event hmem
  simp only [decide_eq_decide]
  omega

/-- An event that is skipped does not enter the rate, whether it has passed or not. -/
theorem after_passed_cons_of_none {rate : Rate} {event : TempoEvent}
    (h : rate.change? event.change = none) (start tick : Int) (rest : List TempoEvent) :
    rate.after (passed start tick (event :: rest)) = rate.after (passed start tick rest) := by
  by_cases hin : start ≤ event.tick ∧ event.tick ≤ tick
  · rw [passed_cons_of_mem hin.1 hin.2, Rate.after_cons, h, Option.getD_none]
  · rw [passed, List.filter_cons_of_neg (by simpa only [decide_eq_true_eq] using hin), passed]

/-- The segment of a tick passes at the rate that the events up to that tick lead to. -/
theorem secondsPerTick_onward {segment : TempoSegment τ} {rate : Rate}
    (hrate : segment.secondsPerTick = rate.secondsPerTick) {events : List TempoEvent}
    (hsorted : events.Pairwise fun a b => a.tick ≤ b.tick) {tick : Int}
    (htick : segment.startTick ≤ tick) :
    ((segment.onward rate events).segmentAt tick).secondsPerTick =
      (rate.after (passed segment.startTick tick events)).secondsPerTick := by
  rw [onward]
  fun_induction extend segment rate events with
  | case1 => exact hrate
  | case2 segment rate event rest hbefore ih =>
    rw [ih hrate hsorted.of_cons htick, passed_cons_of_lt hbefore]
  | case3 segment rate event rest _ hchange ih =>
    rw [ih hrate hsorted.of_cons htick, after_passed_cons_of_none hchange]
  | case4 segment _ event rest _ rate hchange hsame ih =>
    rw [ih rfl hsorted.of_cons htick, passed_cons_of_mem (by omega) (by omega), Rate.after_cons,
      hchange, Option.getD_some]
  | case5 segment _ event rest hbefore rate hchange hsame next final later hextend ih =>
    have hlater : ∀ e ∈ rest, event.tick ≤ e.tick := (List.pairwise_cons.1 hsorted).1
    have hfinal : final.startTick = event.tick := by
      have hstart := (next.onward_opening rate rest).1
      rwa [onward, hextend] at hstart
    -- Either the segment that the event opens is reached, or nothing from the event on has passed.
    by_cases hreached : event.tick ≤ tick
    · rw [TempoMap.segmentAt_of_le (hfinal ▸ hreached), passed_cons_of_mem (by omega) hreached,
        Rate.after_cons, hchange, Option.getD_some, passed_congr (by omega) hlater]
      rw [hextend] at ih
      exact ih rfl hsorted.of_cons hreached
    · rw [TempoMap.segmentAt_of_lt (by omega), passed_eq_nil, hrate]
      · rfl
      · intro e he
        rcases List.mem_cons.1 he with rfl | he
        · omega
        · have hle := hlater e he
          omega

/-- Some event of a tick behind the start changes something. -/
def TurnsAt (start tick : Int) (events : List TempoEvent) : Prop :=
  start < tick ∧ ∃ event ∈ events, event.tick = tick ∧ ¬ event.change.IsIdle

/-- Where no segment starts for an event, it may be left out. -/
theorem turnsAt_cons_of_skipped {start tick : Int} {event : TempoEvent}
    (h : event.tick ≤ start ∨ event.change.IsIdle) (rest : List TempoEvent) :
    TurnsAt start tick (event :: rest) ↔ TurnsAt start tick rest := by
  have hnot : start < tick → ¬ (event.tick = tick ∧ ¬ event.change.IsIdle) := by
    rintro hlt ⟨heq, hbusy⟩
    rcases h with hle | hidle
    · omega
    · exact hbusy hidle
  simp only [TurnsAt, List.exists_mem_cons_iff]
  exact and_congr_right fun hlt => or_iff_right (hnot hlt)

/-- Segments start just where the first one does and where some event behind that changes
something. -/
theorem mem_startTicks_onward {segment : TempoSegment τ} {rate : Rate} {events : List TempoEvent}
    (hsorted : events.Pairwise fun a b => a.tick ≤ b.tick) {tick : Int} :
    tick ∈ (segment.onward rate events).segments.map (·.startTick) ↔
      tick = segment.startTick ∨ TurnsAt segment.startTick tick events := by
  rw [onward, TempoMap.segments]
  fun_induction extend segment rate events with
  | case1 => simp [TurnsAt]
  | case2 segment rate event rest hbefore ih =>
    rw [ih hsorted.of_cons, turnsAt_cons_of_skipped (.inl (by omega))]
  | case3 segment rate event rest _ hchange ih =>
    rw [ih hsorted.of_cons, turnsAt_cons_of_skipped (.inr (Rate.change?_eq_none_iff.1 hchange))]
  | case4 segment _ event rest _ rate hchange hsame ih =>
    rw [ih hsorted.of_cons, turnsAt_cons_of_skipped (.inl (by omega))]
  | case5 segment rate event rest hbefore rate' hchange hsame next final later hextend ih =>
    have hlater : ∀ e ∈ rest, event.tick ≤ e.tick := (List.pairwise_cons.1 hsorted).1
    have hbusy : ¬ event.change.IsIdle := by
      intro hidle
      rw [Rate.change?_eq_none_iff.2 hidle] at hchange
      cases hchange
    have hnext : next.startTick = event.tick := rfl
    rw [hextend] at ih
    rw [List.map_cons, List.mem_cons, ih hsorted.of_cons]
    refine or_congr_right ⟨?_, ?_⟩
    · rintro (rfl | ⟨hlt, e, he, htick, he'⟩)
      · exact ⟨by omega, event, List.mem_cons_self, rfl, hbusy⟩
      · exact ⟨by omega, e, List.mem_cons_of_mem _ he, htick, he'⟩
    · rintro ⟨hlt, e, he, htick, he'⟩
      rcases List.mem_cons.1 he with rfl | he
      · exact .inl htick.symm
      · have hle := hlater e he
        rcases Int.lt_or_eq_of_le hle with hlt' | heq
        · exact .inr ⟨htick ▸ hlt', e, he, htick, he'⟩
        · exact .inl (htick.symm.trans heq.symm)

end TempoSegment

namespace TempoMap

/-- The rate that holds at a tick: the last tempo and the last timebase that have been set from tick
zero on, in order of tick, or else the first ones. -/
def rateAt (rate : Rate) (events : List TempoEvent) (tick : Int) : Rate :=
  rate.after (TempoSegment.passed 0 tick (inOrder events))

theorem inOrder_trans (a b c : TempoEvent) (hab : decide (a.tick ≤ b.tick) = true)
    (hbc : decide (b.tick ≤ c.tick) = true) : decide (a.tick ≤ c.tick) = true :=
  decide_eq_true (Int.le_trans (of_decide_eq_true hab) (of_decide_eq_true hbc))

theorem inOrder_total (a b : TempoEvent) :
    (decide (a.tick ≤ b.tick) || decide (b.tick ≤ a.tick)) = true := by
  simp only [Bool.or_eq_true, decide_eq_true_eq]
  omega

/-- The events that a map is built from come in order of their ticks. -/
theorem pairwise_inOrder (events : List TempoEvent) :
    (inOrder events).Pairwise fun a b => a.tick ≤ b.tick :=
  (List.pairwise_mergeSort inOrder_trans inOrder_total events).imp of_decide_eq_true

/-- Putting events in order moves none past another one of its tick. -/
theorem filter_inOrder (events : List TempoEvent) (tick : Int) :
    ((inOrder events).filter fun event => event.tick = tick) =
      events.filter fun event => event.tick = tick := by
  refine Sequence.filter_mergeSort inOrder_trans inOrder_total (fun a b ha hb => ?_) events
  have ha := of_decide_eq_true ha
  have hb := of_decide_eq_true hb
  exact decide_eq_true (by omega)

/-- What has passed up to a tick are the events of tick zero, then those of tick one, and so on. -/
theorem passed_inOrder (events : List TempoEvent) (tick : Nat) :
    TempoSegment.passed 0 tick (inOrder events) =
      (List.range (tick + 1)).flatMap fun n : Nat =>
        events.filter fun event => event.tick = (n : Int) := by
  have hbound : ∀ event ∈ TempoSegment.passed 0 tick (inOrder events),
      event.tick.toNat < tick + 1 := by
    intro event hevent
    have hrange : 0 ≤ event.tick ∧ event.tick ≤ tick :=
      of_decide_eq_true (List.mem_filter.1 hevent).2
    omega
  have hsorted : (TempoSegment.passed 0 tick (inOrder events)).Pairwise
      fun a b => a.tick.toNat ≤ b.tick.toNat :=
    ((pairwise_inOrder events).filter _).imp fun {a b} hab => by omega
  rw [← Sequence.flatMap_filter_key hsorted hbound]
  apply List.flatMap_congr
  intro n hn
  rw [List.mem_range] at hn
  rw [TempoSegment.passed, ← filter_inOrder, List.filter_filter]
  apply List.filter_congr
  intro event _
  simp only [← Bool.decide_and, decide_eq_decide]
  omega

/-- The rate at a tick takes up the events tick by tick, however they are mixed. -/
theorem rateAt_eq (rate : Rate) (events : List TempoEvent) (tick : Nat) :
    rateAt rate events tick = rate.after ((List.range (tick + 1)).flatMap fun n : Nat =>
      events.filter fun event => event.tick = (n : Int)) := by
  rw [rateAt, passed_inOrder]

/-- In a map that has been built each tick passes at the rate that holds at it. -/
theorem secondsPerTick_segmentAt {rate : Rate} {events : List TempoEvent} {m : TempoMap τ}
    (h : build rate events = .ok m) {tick : Int} (htick : 0 ≤ tick) :
    (m.segmentAt tick).secondsPerTick = (rateAt rate events tick).secondsPerTick := by
  obtain ⟨_, rfl⟩ := build_eq_ok_iff.1 h
  exact TempoSegment.secondsPerTick_onward rfl (pairwise_inOrder events) htick

end TempoMap

end LightShow
