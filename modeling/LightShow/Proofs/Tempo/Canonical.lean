import LightShow.Proofs.Tempo.Rates

namespace LightShow

namespace TempoEvent

section

variable {α : Type} (value? : TempoChange → Option α)

/-- The last value of one kind that is set at a tick, in the order in which the events stand. -/
def lastAt (events : List TempoEvent) (tick : Int) : Option α :=
  last? value? (events.filter fun event => event.tick = tick)

/-- Nothing is set at a tick exactly if no event there sets a value of the kind. -/
theorem lastAt_eq_none_iff {events : List TempoEvent} {tick : Int} :
    lastAt value? events tick = none ↔
      ∀ event ∈ events, event.tick = tick → value? event.change = none := by
  rw [lastAt, last?, List.getLast?_eq_none_iff, List.filterMap_eq_nil_iff]
  simp only [List.mem_filter, decide_eq_true_eq, and_imp]

/-- The last value up to a tick is the last one at the latest tick at which any is set. -/
theorem last?_passed (events : List TempoEvent) (tick : Nat) :
    last? value? (TempoSegment.passed 0 tick (TempoMap.inOrder events)) =
      (List.range (tick + 1)).reverse.findSome? fun n : Nat => lastAt value? events n := by
  rw [TempoMap.passed_inOrder, last?, List.filterMap_flatMap, List.getLast?_flatMap]
  rfl

end

/-- At each tick from zero on, the last tempo that is set is the same in both lists, and so is the
last timebase. -/
def SetAlike (events events' : List TempoEvent) : Prop :=
  ∀ tick : Int, 0 ≤ tick →
    lastAt TempoChange.tempo? events tick = lastAt TempoChange.tempo? events' tick ∧
      lastAt TempoChange.timebase? events tick = lastAt TempoChange.timebase? events' tick

/-- Lists that set the same have the same rate hold at each tick. -/
theorem SetAlike.rateAt_eq {events events' : List TempoEvent} (h : SetAlike events events')
    (rate : Rate) {tick : Int} (htick : 0 ≤ tick) :
    TempoMap.rateAt rate events tick = TempoMap.rateAt rate events' tick := by
  lift tick to Nat using htick
  have hlast {α : Type} {value? : TempoChange → Option α}
      (hat : ∀ n : Nat, lastAt value? events n = lastAt value? events' n) :
      last? value? (TempoSegment.passed 0 tick (TempoMap.inOrder events)) =
        last? value? (TempoSegment.passed 0 tick (TempoMap.inOrder events')) := by
    simp only [last?_passed, hat]
  rw [TempoMap.rateAt, TempoMap.rateAt, Rate.after, Rate.after,
    hlast fun n => (h n (Int.natCast_nonneg n)).1, hlast fun n => (h n (Int.natCast_nonneg n)).2]

/-- A segment starts behind zero wherever a tempo or a timebase is set. -/
theorem turnsAt_inOrder_iff {events : List TempoEvent} {tick : Int} :
    TempoSegment.TurnsAt 0 tick (TempoMap.inOrder events) ↔ 0 < tick ∧
      ¬ (lastAt TempoChange.tempo? events tick = none ∧
        lastAt TempoChange.timebase? events tick = none) := by
  simp only [TempoSegment.TurnsAt, TempoMap.inOrder, List.mem_mergeSort, lastAt_eq_none_iff,
    TempoChange.IsIdle]
  refine and_congr_right fun _ => ?_
  constructor
  · rintro ⟨event, hevent, htick, hbusy⟩ ⟨htempo, hbase⟩
    exact hbusy ⟨htempo event hevent htick, hbase event hevent htick⟩
  · intro hsome
    by_contra hnone
    push Not at hnone
    refine hsome ⟨fun event hevent htick => ?_, fun event hevent htick => ?_⟩
    · exact (hnone event hevent htick).1
    · exact (hnone event hevent htick).2

end TempoEvent

variable {τ : Type} [Clock τ]

namespace TempoMap

/-- Segments that follow one another are determined by where they start, by their rates and by the
time at which the first one starts. -/
theorem eq_of_isChain {as bs : List (TempoSegment τ)} (has : as.IsChain TempoSegment.Follows)
    (hbs : bs.IsChain TempoSegment.Follows) (hticks : as.map (·.startTick) = bs.map (·.startTick))
    (hrates : as.map (·.secondsPerTick) = bs.map (·.secondsPerTick))
    (htime : as.head?.map (·.startTime) = bs.head?.map (·.startTime)) : as = bs := by
  induction as generalizing bs with
  | nil => exact (List.map_eq_nil_iff.1 hticks.symm).symm
  | cons a as ih =>
    obtain _ | ⟨b, bs⟩ := bs
    · cases hticks
    simp only [List.map_cons, List.cons.injEq] at hticks hrates
    have hhead : a = b := by
      obtain ⟨_, _, _⟩ := a
      obtain ⟨_, _, _⟩ := b
      simp_all
    subst hhead
    refine congrArg (a :: ·) (ih has.tail hbs.tail hticks.2 hrates.2 ?_)
    cases as with
    | nil => rw [List.map_eq_nil_iff.1 hticks.2.symm]
    | cons next as =>
      obtain _ | ⟨next', bs⟩ := bs
      · cases hticks.2
      rw [List.isChain_cons_cons] at has hbs
      simp only [List.map_cons, List.cons.injEq] at hticks
      simp only [List.head?_cons, Option.map_some, has.1.2, hbs.1.2, hticks.2.1]

/-- The segment at the tick where a segment starts is that segment itself. -/
theorem segmentAt_of_mem {opening segment : TempoSegment τ} {later : List (TempoSegment τ)}
    (h : (opening :: later).IsChain TempoSegment.Follows) (hmem : segment ∈ opening :: later) :
    segmentAt ⟨opening, later⟩ segment.startTick = segment := by
  induction later generalizing opening with
  | nil => rw [List.mem_singleton.1 hmem]; rfl
  | cons next later ih =>
    rcases List.mem_cons.1 hmem with rfl | hbehind
    · exact segmentAt_startTick h
    · have hle : next.startTick ≤ segment.startTick := by
        have hordered := pairwise_startTick (List.isChain_cons_cons.1 h).2
        rw [List.map_cons, List.pairwise_cons] at hordered
        rcases List.mem_cons.1 hbehind with rfl | hlater
        · exact Int.le_refl _
        · exact Int.le_of_lt (hordered.1 _ (List.mem_map_of_mem hlater))
      rw [segmentAt_of_le hle]
      exact ih h.tail hbehind

/-- Each segment has the rate that holds at the tick where it starts. -/
theorem map_secondsPerTick {rate : Rate} {events : List TempoEvent} {m : TempoMap τ}
    (h : build rate events = .ok m) :
    m.segments.map (·.secondsPerTick) = (m.segments.map (·.startTick)).map fun tick =>
      (rateAt rate events tick).secondsPerTick := by
  have hlinked := linked_of_build h
  have hordered := pairwise_startTick hlinked.follows
  rw [segments, List.map_cons, List.pairwise_cons, hlinked.startTick] at hordered
  rw [List.map_map]
  refine List.map_congr_left fun segment hsegment => ?_
  have hstart : 0 ≤ segment.startTick := by
    rcases List.mem_cons.1 hsegment with rfl | hlater
    · exact Int.le_of_eq hlinked.startTick.symm
    · exact Int.le_of_lt (hordered.1 _ (List.mem_map_of_mem hlater))
  have hhere : m.segmentAt segment.startTick = segment := segmentAt_of_mem hlinked.follows hsegment
  rw [Function.comp_apply, ← secondsPerTick_segmentAt h hstart, hhere]

/-- Where segments start can be told from what is set at each tick alone. -/
theorem mem_startTicks_iff {rate : Rate} {events : List TempoEvent} {m : TempoMap τ}
    (h : build rate events = .ok m) {tick : Int} :
    tick ∈ m.segments.map (·.startTick) ↔ tick = 0 ∨ 0 < tick ∧
      ¬ (TempoEvent.lastAt TempoChange.tempo? events tick = none ∧
        TempoEvent.lastAt TempoChange.timebase? events tick = none) := by
  obtain ⟨_, rfl⟩ := build_eq_ok_iff.1 h
  rw [TempoSegment.mem_startTicks_onward (pairwise_inOrder events)]
  exact or_congr_right TempoEvent.turnsAt_inOrder_iff

/-- Maps of lists that set the same start their segments at the same ticks, at the same rates, and
therefore at the same times. -/
theorem eq_of_setAlike {rate : Rate} {events events' : List TempoEvent}
    (h : TempoEvent.SetAlike events events') {m m' : TempoMap τ} (hm : build rate events = .ok m)
    (hm' : build rate events' = .ok m') : m = m' := by
  have hlinked := linked_of_build hm
  have hlinked' := linked_of_build hm'
  have hticks : m.segments.map (·.startTick) = m'.segments.map (·.startTick) := by
    have hordered := pairwise_startTick hlinked.follows
    have hordered' := pairwise_startTick hlinked'.follows
    have hperm : (m.segments.map (·.startTick)).Perm (m'.segments.map (·.startTick)) := by
      rw [List.perm_ext_iff_of_nodup (hordered.imp Int.ne_of_lt)
        (hordered'.imp Int.ne_of_lt)]
      intro tick
      rw [mem_startTicks_iff hm, mem_startTicks_iff hm']
      refine or_congr_right (and_congr_right fun hpos => ?_)
      rw [(h tick (Int.le_of_lt hpos)).1, (h tick (Int.le_of_lt hpos)).2]
    exact hperm.eq_of_pairwise (fun _ _ _ _ hab hba => absurd hab (Int.lt_asymm hba)) hordered hordered'
  have hrates : m.segments.map (·.secondsPerTick) = m'.segments.map (·.secondsPerTick) := by
    rw [map_secondsPerTick hm, map_secondsPerTick hm', hticks]
    refine List.map_congr_left fun tick htick => ?_
    have hstart : 0 ≤ tick := by
      rcases (mem_startTicks_iff hm').1 htick with rfl | hpos
      · exact Int.le_refl _
      · exact Int.le_of_lt hpos.1
    rw [h.rateAt_eq rate hstart]
  have htime : m.segments.head?.map (·.startTime) = m'.segments.head?.map (·.startTime) :=
    congrArg some (hlinked.startTime.trans hlinked'.startTime.symm)
  have hsegments := eq_of_isChain hlinked.follows hlinked'.follows hticks hrates htime
  obtain ⟨_, _⟩ := m
  obtain ⟨_, _⟩ := m'
  obtain ⟨rfl, rfl⟩ := List.cons.inj hsegments
  rfl

end TempoMap

namespace TempoSegment

/-- Changes before a segment have no effect on it. -/
theorem onward_append_of_before {segment : TempoSegment τ} (rate : Rate)
    {before : List TempoEvent} (h : ∀ event ∈ before, event.tick < segment.startTick)
    (events : List TempoEvent) :
    segment.onward rate (before ++ events) = segment.onward rate events := by
  induction before with
  | nil => rfl
  | cons event before ih =>
    rw [List.forall_mem_cons] at h
    rw [← ih h.2, onward, List.cons_append, extend, if_pos h.1]
    rfl

/-- A change at tick zero replaces the rate of the first segment and starts no other one. -/
theorem onward_first_cons {rate rate' : Rate} {change : TempoChange}
    (h : rate.change? change = some rate') (events : List TempoEvent) :
    (first rate : TempoSegment τ).onward rate (⟨0, change⟩ :: events) =
      (first rate').onward rate' events := by
  simp only [onward, extend, first, Int.lt_irrefl, if_false, h, if_true]

end TempoSegment

namespace TempoMap

/-- A change at tick zero that stands before all others is as good as another first rate. -/
theorem build_cons_of_change? {rate rate' : Rate} (h : rate.Positive) (h' : rate'.Positive)
    {change : TempoChange} (hchange : rate.change? change = some rate') (events : List TempoEvent) :
    (build rate (⟨0, change⟩ :: events) : Except CodecError (TempoMap τ)) = build rate' events := by
  obtain ⟨before, behind, hcons, hevents, hbefore⟩ :=
    List.mergeSort_cons inOrder_trans inOrder_total ⟨0, change⟩ events
  have hearly : ∀ event ∈ before, event.tick < 0 := by
    intro event hevent
    have hnot := hbefore event hevent
    simp only [Bool.not_eq_true', decide_eq_false_iff_not] at hnot
    omega
  rw [build_eq h, build_eq h', inOrder, inOrder, hcons, hevents,
    TempoSegment.onward_append_of_before _ hearly, TempoSegment.onward_append_of_before _ hearly,
    TempoSegment.onward_first_cons hchange]

/-- A map depends only on the last tempo and the last timebase, other than zero, set at each tick
from zero on. The order in which events of different ticks or of different kinds are given, those
that a later one of their tick replaces, those that set nothing and those before tick zero make no
difference, and the first rate is as good as events at tick zero that stand before all others. -/
theorem build_canonical (rate : Rate) (htempo : rate.microsecondsPerBeat ≠ 0)
    (hbase : rate.ticksPerBeat ≠ 0) :
    (∀ events events', TempoEvent.SetAlike events events' →
      ∃ m : TempoMap τ, build rate events = .ok m ∧ build rate events' = .ok m) ∧
    (∀ value events, value ≠ 0 →
      (build rate (⟨0, .tempo value⟩ :: events) : Except CodecError (TempoMap τ)) =
        build { rate with microsecondsPerBeat := value } events) ∧
    (∀ value events, value ≠ 0 →
      (build rate (⟨0, .timebase value⟩ :: events) : Except CodecError (TempoMap τ)) =
        build { rate with ticksPerBeat := value } events) := by
  have hpositive : rate.Positive := ⟨htempo, hbase⟩
  refine ⟨fun events events' halike => ?_, fun value events hvalue => ?_,
    fun value events hvalue => ?_⟩
  · obtain ⟨m, hm⟩ : ∃ m : TempoMap τ, build rate events = .ok m := exists_build hbase htempo events
    obtain ⟨m', hm'⟩ : ∃ m' : TempoMap τ, build rate events' = .ok m' :=
      exists_build hbase htempo events'
    rw [← eq_of_setAlike halike hm hm'] at hm'
    exact ⟨m, hm, hm'⟩
  · have hpositive' : Rate.Positive { rate with microsecondsPerBeat := value } := ⟨hvalue, hbase⟩
    refine build_cons_of_change? hpositive hpositive' ?_ events
    simp [Rate.change?]
  · have hpositive' : Rate.Positive { rate with ticksPerBeat := value } := ⟨htempo, hvalue⟩
    refine build_cons_of_change? hpositive hpositive' ?_ events
    simp [Rate.change?]

theorem build_canonical_reordered :
    let rate : Rate := ⟨500000, 960⟩
    let events : List TempoEvent :=
      [⟨4, .timebase 48⟩, ⟨0, .tempo 7⟩, ⟨4, .tempo 8⟩, ⟨4, .tempo 9⟩, ⟨-1, .tempo 3⟩]
    let events' : List TempoEvent :=
      [⟨4, .tempo 9⟩, ⟨4, .tempo 0⟩, ⟨7, .timebase 0⟩, ⟨4, .timebase 48⟩, ⟨0, .tempo 7⟩]
    rate.microsecondsPerBeat ≠ 0 ∧ rate.ticksPerBeat ≠ 0 ∧ TempoEvent.SetAlike events events' ∧
      (∃ m : TempoMap Binary64, build rate events = .ok m ∧ build rate events' = .ok m) ∧
      (build rate (⟨0, .tempo 6⟩ :: events) : Except CodecError (TempoMap Binary64)) =
        build { rate with microsecondsPerBeat := 6 } events := by
  intro rate events events'
  have htempo : rate.microsecondsPerBeat ≠ 0 := by decide
  have hbase : rate.ticksPerBeat ≠ 0 := by decide
  have halike : TempoEvent.SetAlike events events' := by
    intro tick htick
    by_cases hzero : tick = 0
    · rw [hzero]
      exact ⟨rfl, rfl⟩
    · by_cases hfour : tick = 4
      · rw [hfour]
        exact ⟨rfl, rfl⟩
      · have hidle : ∀ event ∈ events ++ events', event.tick = tick → event.change.IsIdle := by
          simp [events, events', TempoChange.IsIdle, TempoChange.tempo?, TempoChange.timebase?]
          omega
        have hnone {list : List TempoEvent} (hlist : list ⊆ events ++ events') :
            TempoEvent.lastAt TempoChange.tempo? list tick = none ∧
              TempoEvent.lastAt TempoChange.timebase? list tick = none := by
          simp only [TempoEvent.lastAt_eq_none_iff]
          exact ⟨fun event hevent htick => (hidle event (hlist hevent) htick).1,
            fun event hevent htick => (hidle event (hlist hevent) htick).2⟩
        obtain ⟨htempo, hbase⟩ := hnone (List.subset_append_left events events')
        obtain ⟨htempo', hbase'⟩ := hnone (List.subset_append_right events events')
        exact ⟨htempo.trans htempo'.symm, hbase.trans hbase'.symm⟩
  obtain ⟨hbuild, hfirst, _⟩ := build_canonical (τ := Binary64) rate htempo hbase
  exact ⟨htempo, hbase, halike, hbuild events events' halike, hfirst 6 events (by decide)⟩

end TempoMap

end LightShow
