import LightShow.Proofs.Tempo.Rates
import Mathlib.Algebra.BigOperators.Group.Finset.Basic
import Mathlib.Algebra.Order.Field.Rat
import Mathlib.Order.Monotone.Basic
import Mathlib.Tactic.NormNum
import Mathlib.Tactic.Positivity
import Mathlib.Tactic.Ring

namespace LightShow

theorem TempoSegment.secondsAt_rat (segment : TempoSegment ℚ) (tick : Int) :
    segment.secondsAt tick =
      segment.startTime + ((tick - segment.startTick : Int) : ℚ) * segment.secondsPerTick :=
  rfl

/-- Without rounding a tick takes the microseconds of its beat divided by the ticks of the beat. -/
theorem Rate.secondsPerTick_rat (rate : Rate) :
    (rate.secondsPerTick : ℚ) =
      rate.microsecondsPerBeat.toNat / (1000000 * rate.ticksPerBeat.toNat) := by
  rw [← div_div]
  rfl

/-- Without rounding every tick takes some time. -/
theorem Rate.Positive.secondsPerTick_rat {rate : Rate} (h : rate.Positive) :
    0 < (rate.secondsPerTick : ℚ) := by
  obtain ⟨htempo, hbase⟩ := h.toNat_pos
  rw [Rate.secondsPerTick_rat]
  positivity

namespace TempoMap

/-- In exact time each tick adds what a tick takes in its segment, at the borders between segments
as anywhere. -/
theorem Linked.time_succ {m : TempoMap ℚ} (h : m.Linked) (tick : Int) :
    m.time (tick + 1) = m.time tick + (m.segmentAt tick).secondsPerTick := by
  have hrun (segment : TempoSegment ℚ) :
      segment.secondsAt (tick + 1) = segment.secondsAt tick + segment.secondsPerTick := by
    simp only [TempoSegment.secondsAt_rat]
    push_cast
    ring
  rw [time, time]
  rcases h.segmentAt_succ tick with hsame | ⟨hstart, htime⟩
  · rw [hsame, hrun]
  · rw [← hrun, ← htime, TempoSegment.secondsAt_rat, hstart]
    simp

theorem Linked.time_zero {m : TempoMap ℚ} (h : m.Linked) : m.time 0 = 0 := by
  rw [time, h.segmentAt_zero, TempoSegment.secondsAt_rat, h.startTick, h.startTime]
  simp

/-- Without rounding later ticks come at later times, on whichever sides of changes they lie. -/
theorem time_lt {rate : Rate} {events : List TempoEvent} {m : TempoMap ℚ}
    (h : build rate events = .ok m) {start stop : Int} (hstart : 0 ≤ start) (hlt : start < stop) :
    m.time start < m.time stop := by
  have hstep (tick : Nat) : m.time tick < m.time (tick + 1 : Nat) := by
    obtain ⟨hpositive, _⟩ := build_eq_ok_iff.1 h
    rw [Nat.cast_succ, (linked_of_build h).time_succ,
      secondsPerTick_segmentAt h (Int.natCast_nonneg tick)]
    exact lt_add_of_pos_right _ (hpositive.after _).secondsPerTick_rat
  have hstrict : StrictMono fun tick : Nat => m.time tick := strictMono_nat_of_lt_succ hstep
  lift start to Nat using hstart
  lift stop to Nat using (by omega)
  exact hstrict (by exact_mod_cast hlt)

theorem secondsBetween_of_le (m : TempoMap ℚ) {start stop : Int} (hstart : 0 ≤ start)
    (hstop : start ≤ stop) : m.secondsBetween start stop = .ok (m.time stop - m.time start) := by
  have hlength := m.secondsBetween_of_nonneg hstart (stop - start).toNat
  rwa [span, Int.toNat_of_nonneg (by omega), add_sub_cancel] at hlength

/-- Exact time through any changes. A map is always made, its segments start at tick zero and at
later and later ticks, and the time at a tick is the sum of what the ticks before it take, each at
the rate that holds at it. So the times of adjacent intervals add up, and no interval passes in no
time. -/
theorem secondsAt_eq_sum (rate : Rate) (htempo : rate.microsecondsPerBeat ≠ 0)
    (hbase : rate.ticksPerBeat ≠ 0) (events : List TempoEvent) :
    ∃ m : TempoMap ℚ, build rate events = .ok m ∧
      m.opening.startTick = 0 ∧ (m.segments.map (·.startTick)).Pairwise (· < ·) ∧
      (∀ tick : Nat, m.secondsAt tick = .ok (∑ k ∈ Finset.range tick,
        ((rateAt rate events k).microsecondsPerBeat.toNat : ℚ) /
          (1000000 * (rateAt rate events k).ticksPerBeat.toNat))) ∧
      (∀ a b c : Int, 0 ≤ a → a ≤ b → b ≤ c → ∃ x y, m.secondsBetween a b = .ok x ∧
        m.secondsBetween b c = .ok y ∧ m.secondsBetween a c = .ok (x + y)) ∧
      (∀ a b : Int, 0 ≤ a → a < b → ∃ x, m.secondsBetween a b = .ok x ∧ 0 < x) := by
  obtain ⟨m, hm⟩ : ∃ m : TempoMap ℚ, build rate events = .ok m := exists_build hbase htempo events
  have hlinked := linked_of_build hm
  have hstep (tick : Nat) : m.time ((tick + 1 : Nat) : Int) =
      m.time tick + (rateAt rate events tick).secondsPerTick := by
    rw [Nat.cast_succ, hlinked.time_succ, secondsPerTick_segmentAt hm (Int.natCast_nonneg tick)]
  have hsum (tick : Nat) : m.time tick =
      ∑ k ∈ Finset.range tick, (rateAt rate events k).secondsPerTick := by
    induction tick with
    | zero => exact hlinked.time_zero
    | succ tick ih => rw [hstep, ih, Finset.sum_range_succ]
  refine ⟨m, hm, hlinked.startTick, pairwise_startTick hlinked.follows, fun tick => ?_,
    fun a b c ha hab hbc => ?_, fun a b ha hab => ?_⟩
  · rw [secondsAt_of_nonneg _ (Int.natCast_nonneg tick), hsum]
    simp only [Rate.secondsPerTick_rat]
  · refine ⟨_, _, m.secondsBetween_of_le ha hab, m.secondsBetween_of_le (ha.trans hab) hbc, ?_⟩
    rw [m.secondsBetween_of_le ha (hab.trans hbc), add_comm, sub_add_sub_cancel]
  · exact ⟨_, m.secondsBetween_of_le ha hab.le, sub_pos.2 (time_lt hm ha hab)⟩

theorem secondsAt_eq_sum_scattered :
    let rate : Rate := ⟨1000000, 1⟩
    let events : List TempoEvent :=
      [⟨2, .timebase 2⟩, ⟨1, .tempo 3000000⟩, ⟨1, .tempo 0⟩, ⟨-4, .tempo 7⟩, ⟨2, .tempo 1000000⟩]
    rate.microsecondsPerBeat ≠ 0 ∧ rate.ticksPerBeat ≠ 0 ∧
      ∃ m : TempoMap ℚ, build rate events = .ok m ∧ m.secondsAt 3 = .ok (9 / 2) := by
  intro rate events
  have htempo : rate.microsecondsPerBeat ≠ 0 := by decide
  have hbase : rate.ticksPerBeat ≠ 0 := by decide
  obtain ⟨m, hm, _, _, hseconds, _⟩ := secondsAt_eq_sum rate htempo hbase events
  have hfirst : rateAt rate events 0 = ⟨1000000, 1⟩ := rateAt_eq rate events 0
  have hsecond : rateAt rate events 1 = ⟨3000000, 1⟩ := rateAt_eq rate events 1
  have hthird : rateAt rate events 2 = ⟨1000000, 2⟩ := rateAt_eq rate events 2
  refine ⟨htempo, hbase, m, hm, (hseconds 3).trans ?_⟩
  simp only [Finset.sum_range_succ, Finset.sum_range_zero, Nat.cast_zero, Nat.cast_one,
    Nat.cast_ofNat, hfirst, hsecond, hthird, UInt32.reduceToNat, UInt16.reduceToNat]
  norm_num

end TempoMap

end LightShow
