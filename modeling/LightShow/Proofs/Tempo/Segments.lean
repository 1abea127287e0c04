import LightShow.Proofs.Tempo.Time
import Mathlib.Data.Int.Init
import Mathlib.Data.List.Chain

namespace LightShow

/-- A beat takes some time and has some ticks. -/
structure Rate.Positive (rate : Rate) : Prop where
  microsecondsPerBeat : rate.microsecondsPerBeat ≠ 0
  ticksPerBeat : rate.ticksPerBeat ≠ 0

theorem Rate.Positive.toNat_pos {rate : Rate} (h : rate.Positive) :
    0 < rate.microsecondsPerBeat.toNat ∧ 0 < rate.ticksPerBeat.toNat := by
  constructor
  · exact Nat.pos_of_ne_zero fun hzero => h.microsecondsPerBeat (UInt32.toNat_inj.1 hzero)
  · exact Nat.pos_of_ne_zero fun hzero => h.ticksPerBeat (UInt16.toNat_inj.1 hzero)

variable {τ : Type}

namespace TempoMap

/-- Before the second segment starts, a tick is in the first one. -/
theorem segmentAt_of_lt {opening next : TempoSegment τ} {later : List (TempoSegment τ)} {tick : Int}
    (h : tick < next.startTick) : segmentAt ⟨opening, next :: later⟩ tick = opening := by
  have hnot : ¬ next.startTick ≤ tick := by omega
  simp [segmentAt, hnot]

/-- From there on, the first segment does not matter any more. -/
theorem segmentAt_of_le {opening next : TempoSegment τ} {later : List (TempoSegment τ)} {tick : Int}
    (h : next.startTick ≤ tick) :
    segmentAt ⟨opening, next :: later⟩ tick = segmentAt ⟨next, later⟩ tick := by
  simp only [segmentAt, h, decide_true, List.takeWhile_cons_of_pos, List.getLastD_cons]

end TempoMap

variable [Clock τ]

namespace TempoSegment

/-- The segment that every map starts with, at its first rate. -/
def first (rate : Rate) : TempoSegment τ := ⟨0, rate.secondsPerTick, ((0 : Int) : τ)⟩

/-- What a segment and the changes behind it come to, as a map of its own. -/
def onward (segment : TempoSegment τ) (rate : Rate) (events : List TempoEvent) : TempoMap τ :=
  ⟨(segment.extend rate events).1, (segment.extend rate events).2⟩

/-- However many changes there are, the first segment starts at the same tick and time. -/
theorem onward_opening (segment : TempoSegment τ) (rate : Rate) (events : List TempoEvent) :
    (segment.onward rate events).opening.startTick = segment.startTick ∧
      (segment.onward rate events).opening.startTime = segment.startTime := by
  rw [onward]
  fun_induction extend segment rate events with
  | case1 => exact ⟨rfl, rfl⟩
  | case2 _ _ _ _ _ ih => exact ih
  | case3 _ _ _ _ _ _ ih => exact ih
  | case4 _ _ _ _ _ _ _ _ ih => exact ih
  | case5 => exact ⟨rfl, rfl⟩

/-- A segment comes behind another one and starts at the time that the other has reached by then. -/
def Follows (before after : TempoSegment τ) : Prop :=
  before.startTick < after.startTick ∧ after.startTime = before.secondsAt after.startTick

/-- A segment has its final rate before the one behind it is begun, so that one starts at the time
that the final segment reaches. -/
theorem isChain_onward (segment : TempoSegment τ) (rate : Rate) (events : List TempoEvent) :
    (segment.onward rate events).segments.IsChain Follows := by
  rw [onward, TempoMap.segments]
  fun_induction extend segment rate events with
  | case1 => exact .singleton _
  | case2 _ _ _ _ _ ih => exact ih
  | case3 _ _ _ _ _ _ ih => exact ih
  | case4 _ _ _ _ _ _ _ _ ih => exact ih
  | case5 segment _ event rest hbefore rate _ hsame next final later hextend ih =>
    obtain ⟨htick, htime⟩ := next.onward_opening rate rest
    rw [onward, hextend] at htick htime
    rw [hextend] at ih
    have hlt : segment.startTick < event.tick := by omega
    refine .cons_cons ⟨htick ▸ hlt, ?_⟩ ih
    rw [htime, htick]

end TempoSegment

namespace TempoMap

/-- A positive rate leads to a map, whatever the events are. -/
theorem build_eq {rate : Rate} (h : rate.Positive) (events : List TempoEvent) :
    (build rate events : Except CodecError (TempoMap τ)) =
      .ok ((TempoSegment.first rate).onward rate (inOrder events)) := by
  rw [build, if_neg h.ticksPerBeat, if_neg h.microsecondsPerBeat]
  rfl

/-- Only a rate with a zero in it is refused. -/
theorem build_eq_ok_iff {rate : Rate} {events : List TempoEvent} {m : TempoMap τ} :
    build rate events = .ok m ↔
      rate.Positive ∧ (TempoSegment.first rate).onward rate (inOrder events) = m := by
  constructor
  · intro h
    have hopen := h
    rw [build] at hopen
    split at hopen
    next => cases hopen
    next hbase =>
      split at hopen
      next => cases hopen
      next htempo =>
        rw [build_eq ⟨htempo, hbase⟩] at h
        exact ⟨⟨htempo, hbase⟩, Except.ok.inj h⟩
  · rintro ⟨hpositive, rfl⟩
    exact build_eq hpositive events

/-- The map starts at tick zero and time zero, and each segment follows the one before it. -/
structure Linked (m : TempoMap τ) : Prop where
  startTick : m.opening.startTick = 0
  startTime : m.opening.startTime = ((0 : Int) : τ)
  follows : m.segments.IsChain TempoSegment.Follows

/-- Whatever is built is linked. -/
theorem linked_of_build {rate : Rate} {events : List TempoEvent} {m : TempoMap τ}
    (h : build rate events = .ok m) : m.Linked := by
  obtain ⟨_, rfl⟩ := build_eq_ok_iff.1 h
  obtain ⟨htick, htime⟩ :=
    (TempoSegment.first rate : TempoSegment τ).onward_opening rate (inOrder events)
  exact ⟨htick, htime, TempoSegment.isChain_onward _ rate (inOrder events)⟩

/-- Segments that follow one another start at later and later ticks. -/
theorem pairwise_startTick {segments : List (TempoSegment τ)}
    (h : segments.IsChain TempoSegment.Follows) :
    (segments.map (·.startTick)).Pairwise (· < ·) := by
  have hchain : (segments.map (·.startTick)).IsChain (· < ·) := by
    rw [List.isChain_map]
    exact h.imp fun _ _ hab => hab.1
  exact hchain.pairwise

/-- Just where a segment begins, there is no other. -/
theorem segmentAt_startTick {segment : TempoSegment τ} {later : List (TempoSegment τ)}
    (h : (segment :: later).IsChain TempoSegment.Follows) :
    segmentAt ⟨segment, later⟩ segment.startTick = segment := by
  cases later with
  | nil => rfl
  | cons next later =>
    rw [List.isChain_cons_cons] at h
    exact segmentAt_of_lt h.1.1

/-- From one tick to the next the segment stays the same, unless another one starts at that tick and
follows it. -/
theorem segmentAt_succ_of_isChain {opening : TempoSegment τ} {later : List (TempoSegment τ)}
    (h : (opening :: later).IsChain TempoSegment.Follows) (tick : Int) :
    let here := segmentAt ⟨opening, later⟩ tick
    let next := segmentAt ⟨opening, later⟩ (tick + 1)
    next = here ∨ next.startTick = tick + 1 ∧ next.startTime = here.secondsAt (tick + 1) := by
  induction later generalizing opening with
  | nil => exact .inl rfl
  | cons segment later ih =>
    have hchain := h
    rw [List.isChain_cons_cons] at hchain
    obtain ⟨⟨_, htime⟩, htail⟩ := hchain
    intro here next
    rcases Int.lt_trichotomy (tick + 1) segment.startTick with hbefore | hstart | hbehind
    · have hhere : here = opening := segmentAt_of_lt (by omega)
      have hnext : next = opening := segmentAt_of_lt hbefore
      exact .inl (hnext.trans hhere.symm)
    · have hhere : here = opening := segmentAt_of_lt (by omega)
      have hnext : next = segment := by
        rw [← segmentAt_startTick htail, ← hstart]
        exact segmentAt_of_le (by omega)
      rw [hhere, hnext, hstart]
      exact .inr ⟨rfl, htime⟩
    · have hhere : here = segmentAt ⟨segment, later⟩ tick := segmentAt_of_le (by omega)
      have hnext : next = segmentAt ⟨segment, later⟩ (tick + 1) := segmentAt_of_le (by omega)
      rw [hhere, hnext]
      exact ih htail

/-- From one tick to the next, either the segment goes on, or another one starts just there, at the
time that the first one has reached. -/
theorem Linked.segmentAt_succ {m : TempoMap τ} (h : m.Linked) (tick : Int) :
    m.segmentAt (tick + 1) = m.segmentAt tick ∨
      (m.segmentAt (tick + 1)).startTick = tick + 1 ∧
        (m.segmentAt (tick + 1)).startTime = (m.segmentAt tick).secondsAt (tick + 1) :=
  segmentAt_succ_of_isChain h.follows tick

theorem Linked.segmentAt_zero {m : TempoMap τ} (h : m.Linked) : m.segmentAt 0 = m.opening := by
  rw [← h.startTick]
  exact segmentAt_startTick h.follows

/-- The segment of a tick has begun by then, and not before tick zero. -/
theorem Linked.segmentAt_begun {m : TempoMap τ} (h : m.Linked) {tick : Int} (htick : 0 ≤ tick) :
    0 ≤ (m.segmentAt tick).startTick ∧ (m.segmentAt tick).startTick ≤ tick := by
  induction tick, htick using Int.leInduction with
  | base =>
    rw [h.segmentAt_zero, h.startTick]
    exact ⟨Int.le_refl 0, Int.le_refl 0⟩
  | succ tick htick ih =>
    rcases h.segmentAt_succ tick with hsame | ⟨hstart, _⟩
    · rw [hsame]
      omega
    · rw [hstart]
      omega

end TempoMap

end LightShow
