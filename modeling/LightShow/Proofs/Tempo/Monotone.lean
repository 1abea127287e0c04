import LightShow.Proofs.Binary64.Arithmetic
import LightShow.Proofs.Tempo.Exact

namespace LightShow

/-- A clock whose arithmetic may round but never turns an order around. That is asked only of the
numbers that times are made of: of spans, which are sums of paces taken a whole number of times, and
of paces, which are what a tick takes. -/
class MonotoneClock (τ : Type) [Clock τ] where
  IsSpan : τ → Prop
  IsPace : τ → Prop
  isSpan_intCast {n : Int} : 0 ≤ n → IsSpan (n : τ)
  isSpan_add {x y : τ} : IsSpan x → IsSpan y → IsSpan (x + y)
  isSpan_mul {x r : τ} : IsSpan x → IsPace r → IsSpan (x * r)
  isPace_secondsPerTick {rate : Rate} : rate.Positive → IsPace (rate.secondsPerTick : τ)
  le_trans {x y z : τ} : IsSpan x → IsSpan y → IsSpan z → Clock.le x y = true →
    Clock.le y z = true → Clock.le x z = true
  intCast_le {m n : Int} : 0 ≤ m → m ≤ n → Clock.le (m : τ) (n : τ) = true
  add_le_add_left {x y z : τ} : IsSpan x → IsSpan y → IsSpan z → Clock.le y z = true →
    Clock.le (x + y) (x + z) = true
  mul_le_mul_right {x y r : τ} : IsSpan x → IsSpan y → IsPace r → Clock.le x y = true →
    Clock.le (x * r) (y * r) = true
  /-- No ticks add nothing. -/
  add_zero_mul {x r : τ} : IsSpan x → IsPace r → x + ((0 : Int) : τ) * r = x

theorem Clock.le_rat_iff {x y : ℚ} : Clock.le x y = true ↔ x ≤ y :=
  decide_eq_true_iff

instance : MonotoneClock ℚ where
  IsSpan x := 0 ≤ x
  IsPace r := 0 < r
  isSpan_intCast h := Int.cast_nonneg h
  isSpan_add hx hy := add_nonneg hx hy
  isSpan_mul hx hr := mul_nonneg hx hr.le
  isPace_secondsPerTick h := h.secondsPerTick_rat
  le_trans _ _ _ hxy hyz := Clock.le_rat_iff.2 ((Clock.le_rat_iff.1 hxy).trans (Clock.le_rat_iff.1 hyz))
  intCast_le _ h := Clock.le_rat_iff.2 (Int.cast_le.2 h)
  add_le_add_left _ _ _ h := Clock.le_rat_iff.2 (add_le_add_right (Clock.le_rat_iff.1 h) _)
  mul_le_mul_right _ _ hr h :=
    Clock.le_rat_iff.2 (mul_le_mul_of_nonneg_right (Clock.le_rat_iff.1 h) hr.le)
  add_zero_mul {x r} _ _ := by
    change x + ((0 : Int) : ℚ) * r = x
    rw [Int.cast_zero, zero_mul, add_zero]

namespace Binary64

/-- What a tick takes is neither so short that it rounds to nothing nor so long that it rounds to
infinity. -/
theorem isPace_secondsPerTick {rate : Rate} (h : rate.Positive) :
    (rate.secondsPerTick : Binary64).IsPace := by
  obtain ⟨htempo, hbase⟩ := h.toNat_pos
  have htempoLt := rate.microsecondsPerBeat.toNat_lt
  have hbaseLt := rate.ticksPerBeat.toNat_lt
  have hbeat : ((rate.microsecondsPerBeat.toNat : Int) : Binary64).Between (0 : Nat) (32 : Nat) :=
    between_intCast (by omega) (by omega) (by omega)
  have hmillion : ((1000000 : Int) : Binary64).Between (19 : Nat) (20 : Nat) :=
    between_intCast (by omega) (by omega) (by omega)
  have hticks : ((rate.ticksPerBeat.toNat : Int) : Binary64).Between (0 : Nat) (16 : Nat) :=
    between_intCast (by omega) (by omega) (by omega)
  have hseconds := hbeat.div hmillion (by omega) (by omega)
  exact (hseconds.div hticks (by omega) (by omega)).toIsPace

instance : MonotoneClock Binary64 where
  IsSpan := IsSpan
  IsPace := IsPace
  isSpan_intCast := isSpan_intCast
  isSpan_add := IsSpan.add
  isSpan_mul := IsSpan.mul
  isPace_secondsPerTick := isPace_secondsPerTick
  le_trans hx hy hz hxy hyz :=
    (hx.totalLe_iff hz).2 (((hx.totalLe_iff hy).1 hxy).trans ((hy.totalLe_iff hz).1 hyz))
  intCast_le hm h :=
    ((isSpan_intCast hm).totalLe_iff (isSpan_intCast (hm.trans h))).2
      (ofRat_mono (Int.cast_nonneg hm) (Int.cast_le.2 h))
  add_le_add_left hx hy hz h :=
    ((hx.add hy).totalLe_iff (hx.add hz)).2 (add_le_add_left hx hy hz ((hy.totalLe_iff hz).1 h))
  mul_le_mul_right hx hy hr h :=
    ((hx.mul hr).totalLe_iff (hy.mul hr)).2 (mul_le_mul_right hx hy hr ((hx.totalLe_iff hy).1 h))
  add_zero_mul := add_zero_mul

end Binary64

open MonotoneClock (IsSpan IsPace)

variable {τ : Type} [Clock τ] [MonotoneClock τ]

/-- A segment as it is found at a tick: it has begun by then, at a time that can pass. -/
structure TempoSegment.Runs (segment : TempoSegment τ) (tick : Int) : Prop where
  startTick : segment.startTick ≤ tick
  startTime : IsSpan segment.startTime
  secondsPerTick : IsPace segment.secondsPerTick

namespace TempoSegment

variable {segment : TempoSegment τ} {tick : Int}

/-- What the ticks of a segment take together is a span. -/
theorem Runs.isSpan_ticks (h : segment.Runs tick) :
    IsSpan (((tick - segment.startTick : Int) : τ) * segment.secondsPerTick) := by
  have htick := h.startTick
  exact MonotoneClock.isSpan_mul (MonotoneClock.isSpan_intCast (by omega)) h.secondsPerTick

/-- The time of a tick is a span, being the sum of two. -/
theorem Runs.isSpan_secondsAt (h : segment.Runs tick) : IsSpan (segment.secondsAt tick) :=
  MonotoneClock.isSpan_add h.startTime h.isSpan_ticks

theorem Runs.mono {later : Int} (h : segment.Runs tick) (hle : tick ≤ later) :
    segment.Runs later :=
  ⟨h.startTick.trans hle, h.startTime, h.secondsPerTick⟩

/-- Within a segment a later tick comes no earlier: the product keeps the order, and so does the
sum. -/
theorem Runs.secondsAt_le {later : Int} (h : segment.Runs tick) (hle : tick ≤ later) :
    Clock.le (segment.secondsAt tick) (segment.secondsAt later) = true := by
  have htick := h.startTick
  refine MonotoneClock.add_le_add_left h.startTime h.isSpan_ticks (h.mono hle).isSpan_ticks ?_
  refine MonotoneClock.mul_le_mul_right ?_ ?_ h.secondsPerTick ?_
  · exact MonotoneClock.isSpan_intCast (by omega)
  · exact MonotoneClock.isSpan_intCast (by omega)
  · exact MonotoneClock.intCast_le (by omega) (by omega)

/-- At its first tick a segment is at its starting time, rounding or not. -/
theorem Runs.secondsAt_startTick (h : segment.Runs tick) :
    segment.secondsAt segment.startTick = segment.startTime := by
  rw [secondsAt, Int.sub_self]
  exact MonotoneClock.add_zero_mul h.startTime h.secondsPerTick

end TempoSegment

namespace TempoMap

variable {rate : Rate} {events : List TempoEvent} {m : TempoMap τ}

/-- Whatever segment a tick lies in, one of its ticks takes a time that is neither zero nor
infinite. -/
theorem isPace_segmentAt (h : build rate events = .ok m) {tick : Int} (htick : 0 ≤ tick) :
    IsPace (m.segmentAt tick).secondsPerTick := by
  obtain ⟨hpositive, _⟩ := build_eq_ok_iff.1 h
  rw [secondsPerTick_segmentAt h htick]
  exact MonotoneClock.isPace_secondsPerTick (hpositive.after _)

/-- From tick to tick a segment runs on, or the next one takes over at a time that is a span since
the one before it has reached it. -/
theorem runs_segmentAt (h : build rate events = .ok m) {tick : Int} (htick : 0 ≤ tick) :
    (m.segmentAt tick).Runs tick := by
  have hlinked := linked_of_build h
  induction tick, htick using Int.leInduction with
  | base =>
    have hpace := isPace_segmentAt h (Int.le_refl 0)
    rw [hlinked.segmentAt_zero] at hpace ⊢
    refine ⟨hlinked.startTick.le, ?_, hpace⟩
    rw [hlinked.startTime]
    exact MonotoneClock.isSpan_intCast le_rfl
  | succ tick htick ih =>
    have hlater := ih.mono (Int.le_add_one (Int.le_refl tick))
    rcases hlinked.segmentAt_succ tick with hsame | ⟨hstart, htime⟩
    · rwa [hsame]
    · refine ⟨hstart.le, ?_, isPace_segmentAt h (by omega)⟩
      rw [htime]
      exact hlater.isSpan_secondsAt

/-- Every tick from zero on has a time that can pass. -/
theorem isSpan_time (h : build rate events = .ok m) {tick : Int} (htick : 0 ≤ tick) :
    IsSpan (m.time tick) :=
  (runs_segmentAt h htick).isSpan_secondsAt

/-- Where a segment takes over, it starts at the time that the one before it has reached, so a tick
never comes before the one it follows. -/
theorem time_le_succ (h : build rate events = .ok m) {tick : Int} (htick : 0 ≤ tick) :
    Clock.le (m.time tick) (m.time (tick + 1)) = true := by
  have hnext : (m.segmentAt (tick + 1)).Runs (tick + 1) := runs_segmentAt h (by omega)
  have hruns := (runs_segmentAt h htick).secondsAt_le (Int.le_add_one (Int.le_refl tick))
  rw [time, time]
  rcases (linked_of_build h).segmentAt_succ tick with hsame | ⟨hstart, htime⟩
  · rwa [hsame]
  · have hreached := hnext.secondsAt_startTick
    rw [hstart, htime] at hreached
    rwa [hreached]

/-- Times keep the order of ticks, by induction on the ticks between. -/
theorem time_mono (h : build rate events = .ok m) {start stop : Int} (hstart : 0 ≤ start)
    (hle : start ≤ stop) : Clock.le (m.time start) (m.time stop) = true := by
  induction stop, hle using Int.leInduction with
  | base => exact (runs_segmentAt h hstart).secondsAt_le (Int.le_refl start)
  | succ stop hle ih =>
    have hstop := hstart.trans hle
    exact MonotoneClock.le_trans (isSpan_time h hstart) (isSpan_time h hstop)
      (isSpan_time h (by omega)) ih (time_le_succ h hstop)

end TempoMap

end LightShow
