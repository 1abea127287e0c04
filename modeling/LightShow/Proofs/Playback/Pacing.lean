import LightShow.Playback.Loop
import LightShow.Proofs.Binary64.Order
import LightShow.Proofs.Track.Normal

namespace LightShow

namespace Timing

variable {x y : Binary64}

open Binary64

/-- The first number that is too large for a span. -/
theorem absValue_limit : (⟨0x43F0000000000000⟩ : Binary64).absValue = spanLimit := by
  have hsignificand : (⟨0x43F0000000000000⟩ : Binary64).significand = 0x10000000000000 := rfl
  have hexponent : (⟨0x43F0000000000000⟩ : Binary64).exponent = 12 := rfl
  rw [absValue_eq, hsignificand, hexponent, spanLimit]
  norm_num

/-- The last number below the limit, by one unit in the last place. -/
theorem absValue_last : (⟨0x43EFFFFFFFFFFFFF⟩ : Binary64).absValue = (spanLimit - 2048 : Nat) := by
  have hsignificand : (⟨0x43EFFFFFFFFFFFFF⟩ : Binary64).significand = 0x1FFFFFFFFFFFFF := rfl
  have hexponent : (⟨0x43EFFFFFFFFFFFFF⟩ : Binary64).exponent = 11 := rfl
  rw [absValue_eq, hsignificand, hexponent, spanLimit]
  norm_num

/-- The last number below the limit of spans is so far below it that nanoseconds do not matter. -/
theorem absValue_le_of_lt (hfinite : x.isFinite = true) (h : x.absValue < spanLimit) :
    x.absValue ≤ (spanLimit - 2048 : Nat) := by
  rw [← absValue_limit, ← not_le, absValue_le_iff (by decide) hfinite, not_le] at h
  rw [← absValue_last, absValue_le_iff hfinite (by decide)]
  exact Nat.le_of_lt_succ h

theorem nearestWhole_mul_second (n : Nat) : nearestWhole ((n : ℚ) * second) = n * second := by
  rw [← Nat.cast_mul, nearestWhole_natCast]

/-- Rounding to nanoseconds does not carry a number over the limit of spans. -/
theorem nearestWhole_lt_limit_iff (hfinite : x.isFinite = true) (hpositive : 0 < x.value) :
    nearestWhole (x.value * second) < spanLimit * second ↔ x.value < spanLimit := by
  constructor
  · intro h
    by_contra hnot
    have hle := not_lt.1 hnot
    have hround : nearestWhole ((spanLimit : ℚ) * second) ≤ nearestWhole (x.value * second) :=
      nearestWhole_mono (by positivity) (by gcongr)
    rw [nearestWhole_mul_second] at hround
    exact hround.not_gt h
  · intro h
    rw [value_eq_of_pos hpositive] at h ⊢
    have hlast := absValue_le_of_lt hfinite h
    have hround : nearestWhole (x.absValue * second) ≤
        nearestWhole (((spanLimit - 2048 : Nat) : ℚ) * second) :=
      nearestWhole_mono (mul_nonneg (absValue_nonneg x) (Nat.cast_nonneg _)) (by gcongr)
    rw [nearestWhole_mul_second] at hround
    exact hround.trans_lt (by decide)

/-- A span is rounded to the nearest nanosecond up to its limit, from which on it is none. -/
theorem nanoseconds_eq (hfinite : x.isFinite = true) :
    nanoseconds x =
      if 0 < x.value ∧ x.value < spanLimit then nearestWhole (x.value * second) else 0 := by
  rw [nanoseconds, hfinite, Bool.and_true]
  by_cases hpositive : 0 < x.value
  · rw [if_pos ((isPositive_iff hfinite).2 hpositive), scaledHalfEven_eq,
      ← value_eq_of_pos hpositive]
    simp only [nearestWhole_lt_limit_iff hfinite hpositive, hpositive, true_and]
  · have hnot : x.isPositive = false := by
      rw [← Bool.not_eq_true, isPositive_iff hfinite]
      exact hpositive
    simp only [hnot, hpositive, Bool.false_eq_true, false_and, if_false]

/-- Seconds that do not fit into a span come to none at all. -/
theorem nanoseconds_eq_zero (hfinite : x.isFinite = true) (hlimit : spanLimit ≤ x.value) :
    nanoseconds x = 0 := by
  rw [nanoseconds_eq hfinite]
  exact if_neg fun h => h.2.not_ge hlimit

/-- Below the limit, more seconds come to no fewer nanoseconds. -/
theorem nanoseconds_mono (hx : x.isFinite = true) (hy : y.isFinite = true)
    (h : x.value ≤ y.value) (hlimit : y.value < spanLimit) : nanoseconds x ≤ nanoseconds y := by
  rw [nanoseconds_eq hx, nanoseconds_eq hy]
  split
  next hpositive =>
    rw [if_pos ⟨hpositive.1.trans_le h, hlimit⟩]
    have hnonneg := hpositive.1.le
    exact nearestWhole_mono (by positivity) (by gcongr)
  next => exact Nat.zero_le _

/-- A hundredth of a second comes to ten million nanoseconds, though it is not exact in binary. -/
theorem nanoseconds_hundredth : nanoseconds hundredth = second / 100 := by decide

end Timing

/-- Whatever is asked for, the shortest period is finite. -/
theorem PlaybackSettings.isFinite_shortestPeriod (settings : PlaybackSettings) :
    settings.shortestPeriod.isFinite = true := by
  rw [shortestPeriod]
  split
  next h => exact (Bool.and_eq_true_iff.1 h).1
  next => rfl

namespace Track

open Binary64

variable {commands : List (Command Binary64)} {duration : Binary64}

theorem mem_ofCommands {c : Command Binary64} :
    c ∈ (ofCommands commands duration).commands ↔ c ∈ commands := List.mem_mergeSort

/-- Commands of a track are in order of time. -/
theorem pairwise_ofCommands (hcommands : ∀ c ∈ commands, c.time.isFinite = true)
    (duration : Binary64) :
    (ofCommands commands duration).commands.Pairwise fun a b => a.time.value ≤ b.time.value := by
  refine (ordered_ofCommands commands duration).imp_of_mem fun ha hb hle => ?_
  exact value_le_of_totalLe (hcommands _ (mem_ofCommands.1 ha)) (hcommands _ (mem_ofCommands.1 hb)) hle

variable (hcommands : ∀ c ∈ commands, c.time.isFinite = true) (hduration : duration.isFinite = true)

include hcommands

theorem normal_of_finite : Normal commands duration (ofCommands commands duration) :=
  normal_ofCommands (fun c hc => isNaN_of_isFinite (hcommands c hc)) duration

include hduration

/-- The duration of a track is finite. -/
theorem isFinite_duration : (ofCommands commands duration).duration.isFinite = true := by
  rcases (normal_of_finite hcommands).least with hmin | ⟨_, hown⟩ | ⟨c, hc, htime⟩
  · rw [hmin]
    decide
  · rw [hown]
    exact hduration
  · rw [htime]
    exact hcommands c hc

/-- A track lasts a hundredth of a second at least. -/
theorem hundredth_le_duration :
    hundredth.value ≤ (ofCommands commands duration).duration.value :=
  value_le_of_totalLe (by decide) (isFinite_duration hcommands hduration)
    (normal_of_finite hcommands).minPeriod_le

/-- A track lasts to its last command. -/
theorem time_le_duration {c : Command Binary64} (hc : c ∈ commands) :
    c.time.value ≤ (ofCommands commands duration).duration.value :=
  value_le_of_totalLe (hcommands c hc) (isFinite_duration hcommands hduration)
    ((normal_of_finite hcommands).time_le c hc)

/-- A track is shorter than a bound if what was asked for is, and all of its commands come before
it. -/
theorem duration_lt_iff {bound : ℚ} (hbound : hundredth.value < bound) :
    (ofCommands commands duration).duration.value < bound ↔
      duration.value < bound ∧ ∀ c ∈ commands, c.time.value < bound := by
  have hnormal : Normal commands duration (ofCommands commands duration) := normal_of_finite hcommands
  constructor
  · intro hlt
    have hown := hnormal.duration_le (isNaN_of_isFinite hduration)
    have hfinite := isFinite_duration hcommands hduration
    exact ⟨(value_le_of_totalLe hduration hfinite hown).trans_lt hlt,
      fun c hc => (time_le_duration hcommands hduration hc).trans_lt hlt⟩
  · rintro ⟨hown, hall⟩
    rcases hnormal.least with hmin | ⟨_, hsame⟩ | ⟨c, hc, htime⟩
    · rw [hmin]
      exact hbound
    · rw [hsame]
      exact hown
    · rw [htime]
      exact hall c hc

end Track

namespace Loop

/-- When a cycle begins. -/
def cycleStart (l : Loop) (cycle : Nat) : Nat := l.started + cycle * l.period

/-- A loop that neither spins nor runs backwards: a cycle takes ten milliseconds at least and
reaches to its last command, and calls are due in the order in which they are made. -/
structure Steady (l : Loop) : Prop where
  floor : Timing.second / 100 ≤ l.period
  covers : ∀ c ∈ l.commands.getLast?, Timing.nanoseconds c.time ≤ l.period
  apart : ∀ cycle, l.cycleStart cycle + Timing.second / 100 ≤ l.cycleStart (cycle + 1)
  ordered : ∀ j k c d, j ≤ k → l.command? j = some c → l.command? k = some d →
    l.dueTime j c ≤ l.dueTime k d

variable {l : Loop}

/-- Cycles follow one another by a period. -/
theorem cycleStart_succ (l : Loop) (cycle : Nat) :
    l.cycleStart (cycle + 1) = l.cycleStart cycle + l.period := by
  rw [cycleStart, cycleStart, Nat.succ_mul, Nat.add_assoc]

theorem dueTime_eq (l : Loop) (k : Nat) (c : Command Binary64) :
    l.dueTime k c = l.cycleStart (k / l.commands.length) + Timing.nanoseconds c.time := rfl

theorem exists_command {k : Nat} {c : Command Binary64} (h : l.command? k = some c) (j : Nat) :
    ∃ d, l.command? j = some d := by
  obtain ⟨hlt, _⟩ := List.getElem?_eq_some_iff.1 h
  have hlt' := Nat.mod_lt j (Nat.zero_lt_of_lt hlt)
  exact ⟨_, List.getElem?_eq_getElem hlt'⟩

section Ordered

variable
  (hsorted : l.commands.Pairwise fun a b => Timing.nanoseconds a.time ≤ Timing.nanoseconds b.time)
  (hperiod : ∀ c ∈ l.commands, Timing.nanoseconds c.time ≤ l.period)

include hsorted hperiod

/-- A call is due no earlier than the one before it, within a cycle and from one to the next. -/
theorem dueTime_succ {k : Nat} {c d : Command Binary64} (hc : l.command? k = some c)
    (hd : l.command? (k + 1) = some d) : l.dueTime k c ≤ l.dueTime (k + 1) d := by
  obtain ⟨hlt, hget⟩ := List.getElem?_eq_some_iff.1 hc
  have hpos := Nat.zero_lt_of_lt hlt
  have hsplit := Nat.div_add_mod k l.commands.length
  rcases Nat.lt_or_eq_of_le (Nat.succ_le_of_lt hlt) with hwithin | hwrap
  · obtain ⟨hdiv, hmod⟩ : (k + 1) / l.commands.length = k / l.commands.length ∧
        (k + 1) % l.commands.length = k % l.commands.length + 1 :=
      (Nat.div_mod_unique hpos).2 ⟨by omega, hwithin⟩
    rw [command?, hmod] at hd
    obtain ⟨hlt', hget'⟩ := List.getElem?_eq_some_iff.1 hd
    have hle := List.pairwise_iff_getElem.1 hsorted _ _ hlt hlt' (Nat.lt_succ_self _)
    rw [hget, hget'] at hle
    rw [dueTime_eq, dueTime_eq, hdiv]
    exact Nat.add_le_add_left hle _
  · obtain ⟨hdiv, _⟩ : (k + 1) / l.commands.length = k / l.commands.length + 1 ∧
        (k + 1) % l.commands.length = 0 :=
      (Nat.div_mod_unique hpos).2 ⟨by rw [Nat.mul_add, Nat.mul_one]; omega, hpos⟩
    have hle := hperiod c (List.mem_of_getElem? hc)
    rw [dueTime_eq, dueTime_eq, hdiv, cycleStart_succ]
    omega

/-- Calls are due in the order in which they are made, by induction on how far they are apart. -/
theorem dueTime_mono {j k : Nat} (hjk : j ≤ k) {c d : Command Binary64}
    (hc : l.command? j = some c) (hd : l.command? k = some d) :
    l.dueTime j c ≤ l.dueTime k d := by
  induction k, hjk using Nat.le_induction generalizing d with
  | base =>
    obtain rfl := Option.some.inj (hc.symm.trans hd)
    exact Nat.le_refl _
  | succ k hjk ih =>
    obtain ⟨e, he⟩ := exists_command hc k
    exact (ih he).trans (dueTime_succ hsorted hperiod he hd)

/-- A period of ten milliseconds that reaches to the last command makes a loop steady. -/
theorem Steady.of_period (hfloor : Timing.second / 100 ≤ l.period) : l.Steady where
  floor := hfloor
  covers c hc := hperiod c (List.mem_of_getLast? hc)
  apart cycle := by
    rw [cycleStart_succ]
    exact Nat.add_le_add_left hfloor _
  ordered j k c d hjk hc hd := dueTime_mono hsorted hperiod hjk hc hd

end Ordered

open Binary64 Timing

section Period

variable {commands : List (Command Binary64)} {duration : Binary64}
  (hcommands : ∀ c ∈ commands, c.time.isFinite = true) (hduration : duration.isFinite = true)
  {settings : PlaybackSettings}

include hcommands hduration

/-- If the period does not fit into a span, the loop has none. -/
theorem period_eq_zero
    (hlimit : spanLimit ≤ (larger (Track.ofCommands commands duration).duration
      settings.shortestPeriod).value) :
    Timing.period (Track.ofCommands commands duration) settings = 0 :=
  nanoseconds_eq_zero (isFinite_larger (Track.isFinite_duration hcommands hduration)
    settings.isFinite_shortestPeriod) hlimit

/-- If the period fits into a span, the loop is steady: it is rounded from a duration that is long
enough and covers the commands. -/
theorem steady_of_lt
    (hlimit : (larger (Track.ofCommands commands duration).duration
      settings.shortestPeriod).value < spanLimit) (pad : Pad) (now : Nat) :
    (Loop.new pad (Track.ofCommands commands duration) settings now).Steady := by
  have hown := Track.isFinite_duration hcommands hduration
  have hshortest := settings.isFinite_shortestPeriod
  have hfinite := isFinite_larger hown hshortest
  have hreach {x : Binary64} (hle : x.value ≤ (Track.ofCommands commands duration).duration.value) :
      x.value ≤ (larger (Track.ofCommands commands duration).duration
        settings.shortestPeriod).value := by
    rw [value_larger hown hshortest]
    exact hle.trans (le_max_left _ _)
  have htime (c : Command Binary64) (hc : c ∈ (Track.ofCommands commands duration).commands) :
      c.time.isFinite = true ∧ c.time.value ≤
        (larger (Track.ofCommands commands duration).duration settings.shortestPeriod).value :=
    have hmem := Track.mem_ofCommands.1 hc
    ⟨hcommands c hmem, hreach (Track.time_le_duration hcommands hduration hmem)⟩
  refine .of_period ?_ (fun c hc => nanoseconds_mono (htime c hc).1 hfinite (htime c hc).2 hlimit) ?_
  · refine (Track.pairwise_ofCommands hcommands duration).imp_of_mem fun ha hb hle => ?_
    exact nanoseconds_mono (htime _ ha).1 (htime _ hb).1 hle ((htime _ hb).2.trans_lt hlimit)
  · rw [← nanoseconds_hundredth]
    exact nanoseconds_mono (by decide) hfinite
      (hreach (Track.hundredth_le_duration hcommands hduration)) hlimit

end Period

/-- A loop is steady exactly if the duration that its track was given, the times of its commands and
the shortest period of the settings are all below the limit of spans. If one of them is not, then
the loop has no period at all: its cycles all begin at one time. -/
theorem steady_iff {commands : List (Command Binary64)} {duration : Binary64}
    (hcommands : ∀ c ∈ commands, c.time.isFinite = true) (hduration : duration.isFinite = true)
    (pad : Pad) (settings : PlaybackSettings) (now : Nat) :
    let l := Loop.new pad (Track.ofCommands commands duration) settings now
    (l.Steady ↔ duration.value < spanLimit ∧ (∀ c ∈ commands, c.time.value < spanLimit) ∧
      settings.shortestPeriod.value < spanLimit) ∧
    (¬ l.Steady → l.period = 0) := by
  intro l
  have hbound : hundredth.value < spanLimit := by decide +kernel
  rw [← and_assoc, ← Track.duration_lt_iff hcommands hduration hbound, ← max_lt_iff,
    ← value_larger (Track.isFinite_duration hcommands hduration) settings.isFinite_shortestPeriod]
  rcases lt_or_ge (larger (Track.ofCommands commands duration).duration
    settings.shortestPeriod).value spanLimit with hlimit | hlimit
  · have hsteady : l.Steady := steady_of_lt hcommands hduration hlimit pad now
    exact ⟨iff_of_true hsteady hlimit, fun hnot => absurd hsteady hnot⟩
  · have hperiod : l.period = 0 := period_eq_zero hcommands hduration hlimit
    have hnot : ¬ l.Steady := by
      intro hsteady
      have hfloor := hsteady.floor
      rw [hperiod] at hfloor
      exact absurd hfloor (by decide)
    exact ⟨iff_of_false hnot hlimit.not_gt, fun _ => hperiod⟩

/-- Two commands, of which the second ends the track. -/
def blink : List (Command Binary64) :=
  [.switch ⟨0⟩ ⟨255, 0, 0⟩, .switch ⟨0x4000000000000000⟩ ⟨0, 255, 0⟩]

/-- A loop of two commands within two seconds is steady. -/
theorem steady_iff_blink :
    (∀ c ∈ blink, c.time.isFinite = true) ∧ (⟨0x4000000000000000⟩ : Binary64).isFinite = true ∧
    (Loop.new .centre (Track.ofCommands blink ⟨0x4000000000000000⟩) .default 0).Steady := by
  have hcommands : ∀ c ∈ blink, c.time.isFinite = true := by decide
  have hduration : (⟨0x4000000000000000⟩ : Binary64).isFinite = true := by decide
  have hshort : (⟨0x4000000000000000⟩ : Binary64).value < spanLimit := by decide +kernel
  have htimes : ∀ c ∈ blink, c.time.value < spanLimit := by decide +kernel
  have hshortest : PlaybackSettings.default.shortestPeriod.value < spanLimit := by decide +kernel
  exact ⟨hcommands, hduration,
    (steady_iff hcommands hduration .centre .default 0).1.2 ⟨hshort, htimes, hshortest⟩⟩

/-- With a shortest period of a hundred quintillion seconds, which are more than a span can have, a
loop is not steady. -/
theorem not_always_steady :
    let settings : PlaybackSettings := ⟨100, ⟨0x4415AF1D78B58C40⟩⟩
    (Loop.new .centre (Track.ofCommands blink ⟨0x4000000000000000⟩) settings 0).period = 0 ∧
    ¬ ∀ commands duration pad settings now, (∀ c ∈ commands, c.time.isFinite = true) →
      duration.isFinite = true →
      (Loop.new pad (Track.ofCommands commands duration) settings now).Steady := by
  intro settings
  have hcommands : ∀ c ∈ blink, c.time.isFinite = true := by decide
  have hduration : (⟨0x4000000000000000⟩ : Binary64).isFinite = true := by decide
  have hlong : spanLimit ≤ settings.shortestPeriod.value := by decide +kernel
  have hperiod : Timing.period (Track.ofCommands blink ⟨0x4000000000000000⟩) settings = 0 := by
    refine period_eq_zero hcommands hduration ?_
    rw [value_larger (Track.isFinite_duration hcommands hduration) settings.isFinite_shortestPeriod]
    exact hlong.trans (le_max_right _ _)
  refine ⟨hperiod, fun hall => ?_⟩
  have hfloor : second / 100 ≤ Timing.period (Track.ofCommands blink _) settings :=
    (hall blink _ .centre settings 0 hcommands hduration).floor
  rw [hperiod] at hfloor
  exact absurd hfloor (by decide)

end Loop

end LightShow
