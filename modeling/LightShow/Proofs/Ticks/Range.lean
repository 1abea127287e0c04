import LightShow.Proofs.Codec.Chunk
import LightShow.Proofs.Codec.Ranges
import LightShow.Proofs.Ticks.Decoding

namespace LightShow

/-- The last tick to which the events of a file can lead. -/
def farthest : Int := 2 ^ 28 * (2 ^ 35 - 1)

/-- Running ticks start from zero and never fall back, and each event moves them on by fewer ticks
than thirty-five bits can count. -/
structure Climbs (ticks : List Int) : Prop where
  inOrder : (0 :: ticks).Pairwise (· ≤ ·)
  bounded : ∀ (n : Nat) tick, ticks[n]? = some tick → tick ≤ (n + 1 : Int) * (2 ^ 35 - 1)

namespace Stream

/-- Ticks never fall back, since no distance is negative. -/
theorem pairwise_ticksFrom (start : Int) (deltas : List Nat) :
    (start :: ticksFrom start deltas).Pairwise (· ≤ ·) := by
  induction deltas generalizing start with
  | nil => exact List.pairwise_singleton _ _
  | cons delta rest ih =>
    have hlater := ih (start + delta)
    rw [ticksFrom, List.pairwise_cons]
    refine ⟨fun tick hmem => ?_, hlater⟩
    rcases List.mem_cons.1 hmem with rfl | hmem
    · omega
    · have hle := (List.pairwise_cons.1 hlater).1 tick hmem
      omega

/-- After so many events no tick is farther than so many distances can lead. -/
theorem getElem?_ticksFrom_le {start : Int} {deltas : List Nat} (h : ∀ delta ∈ deltas, delta < 2 ^ 35)
    {n : Nat} {tick : Int} (htick : (ticksFrom start deltas)[n]? = some tick) :
    tick ≤ start + (n + 1) * (2 ^ 35 - 1) := by
  induction deltas generalizing start n with
  | nil => cases htick
  | cons delta rest ih =>
    obtain ⟨hdelta, hrest⟩ := List.forall_mem_cons.1 h
    rw [ticksFrom] at htick
    cases n with
    | zero =>
      obtain rfl := Option.some.inj htick
      omega
    | succ n =>
      have hle := ih hrest htick
      omega

theorem climbs_ticksFrom {deltas : List Nat} (h : ∀ delta ∈ deltas, delta < 2 ^ 35) :
    Climbs (ticksFrom 0 deltas) := by
  refine ⟨pairwise_ticksFrom 0 deltas, fun n tick htick => ?_⟩
  have hle := getElem?_ticksFrom_le h htick
  rwa [Int.zero_add] at hle

/-- The tick is one to which so many bytes can lead, of which an event takes at least two. -/
def Within (used : Nat) (tick : Int) : Prop :=
  0 ≤ tick ∧ tick ≤ ((used / 2 : Nat) : Int) * (2 ^ 35 - 1)

section

variable {used : Nat} {tick : Int} {delta : Nat}

/-- An event of at least two bytes moves the tick on by one distance at most. -/
theorem Within.onward (h : Within used tick) (hdelta : delta < 2 ^ 35) {length : Nat}
    (hlength : 2 ≤ length) : Within (used + length) (tick + delta) := by
  obtain ⟨hnonneg, hle⟩ := h
  have hmore : used / 2 + 1 ≤ (used + length) / 2 := by omega
  constructor <;> omega

/-- While there are bytes left, one more event does not lead too far. -/
theorem Within.next (h : Within used tick) (hdelta : delta < 2 ^ 35) (hroom : used < 2 ^ 29) :
    0 ≤ tick + delta ∧ tick + delta ≤ farthest := by
  obtain ⟨hnonneg, hle⟩ := h
  have hevents : used / 2 + 1 ≤ 2 ^ 28 := by omega
  rw [farthest]
  constructor <;> omega

/-- While there are bytes left, the running tick fits into its word. -/
theorem inRange_running (h : Within used tick) (hdelta : delta < 2 ^ 35) (hroom : used < 2 ^ 29) :
    (TickSum.running tick delta).InRange := by
  have hnext := h.next hdelta hroom
  rw [farthest] at hnext
  rw [TickSum.InRange, TickSum.value]
  omega

end

namespace Walk

variable {ε σ : Type} {w : Walk ε σ} {form : ε → Bytes → Prop} {next : σ → Nat × ε → σ} {s : σ}
  {kept : σ → Prop} {used : Nat}

/-- Each event keeps the tick within what the bytes up to its end can lead to. -/
theorem Follows.keeps_run (h : w.Follows form next)
    (htake : ∀ s tick e, kept s → 0 ≤ tick → tick ≤ farthest →
      (w.take s tick e).Keeps TickSum.InRange kept)
    {payload : Bytes} (hgoes : w.Goes next s payload) (hkept : kept s)
    (hs : Within used (w.tick s)) (hroom : used + payload.length ≤ 2 ^ 29) :
    (w.run s payload).Keeps TickSum.InRange fun s' =>
      kept s' ∧ Within (used + payload.length) (w.tick s') := by
  induction hgoes generalizing used with
  | finished s =>
    rw [run_nil]
    exact .pure ⟨hkept, hs⟩
  | lost hrun =>
    rw [hrun]
    refine .ofExcept ?_
    rintro _ ⟨⟩
  | stuck hne hdelta hsums houtcome =>
    have hpositive := List.length_pos_iff.2 hne
    constructor
    · rw [hsums]
      exact List.forall_mem_singleton.2 (inRange_running hs hdelta (by omega))
    · rw [houtcome]
      rintro _ ⟨⟩
  | @onward s front rest delta e hfront hdelta hnext hsums houtcome _ _ ih =>
    rw [List.length_append] at hroom ⊢
    obtain ⟨hnonneg, hle⟩ := hs.next hdelta (by omega)
    have htaken := htake s _ e hkept hnonneg hle
    have hwithin := hs.onward hdelta hfront
    rw [← h.tick_next s (delta, e)] at hwithin
    have hlater := ih (htaken.outcome _ hnext) hwithin (by omega)
    rw [Nat.add_assoc] at hlater
    constructor
    · rw [hsums, List.forall_mem_cons, List.forall_mem_append]
      exact ⟨inRange_running hs hdelta (by omega), htaken.sums, hlater.sums⟩
    · rw [houtcome]
      exact hlater.outcome

/-- From payload to payload the tick stays within what the bytes that have been used up can lead
to. -/
theorem Follows.keeps_runAll (h : w.Follows form next)
    (htake : ∀ s tick e, kept s → 0 ≤ tick → tick ≤ farthest →
      (w.take s tick e).Keeps TickSum.InRange kept)
    (payloads : List Bytes) (hkept : kept s) (hs : Within used (w.tick s))
    (hroom : used + payloads.flatten.length ≤ 2 ^ 29) :
    (w.runAll s payloads).Keeps TickSum.InRange fun s' =>
      kept s' ∧ Within (used + payloads.flatten.length) (w.tick s') := by
  induction payloads generalizing s used with
  | nil => exact .pure ⟨hkept, hs⟩
  | cons payload payloads ih =>
    rw [List.flatten_cons, List.length_append] at hroom ⊢
    rw [← Nat.add_assoc] at hroom ⊢
    rw [runAll_cons]
    have hrun := h.keeps_run htake (h.goes hs.1 payload) hkept hs (by omega)
    exact hrun.bind fun s' hs' => ih hs'.1 hs'.2 hroom

end Walk

end Stream

section

variable {τ : Type} [Clock τ]

namespace TempoMap

variable {m : TempoMap τ} {tick : Int}

/-- In a linked map whatever is computed for a tick that events can reach is in range: a length adds
fewer ticks than would fill the word, and no segment starts behind the tick that is looked up in
it. -/
theorem Linked.allows (h : m.Linked) (htick : 0 ≤ tick) (hle : tick ≤ farthest) :
    m.Allows TickSum.InRange tick := by
  rw [farthest] at hle
  constructor
  case ahead =>
    intro length
    have hlength := length.toNat_lt
    rw [TickSum.InRange, TickSum.value]
    omega
  case since =>
    intro length
    have hlength := length.toNat_lt
    have hstop : 0 ≤ tick + length.toNat := by omega
    have hbegun := h.segmentAt_begun hstop
    rw [TickSum.InRange, TickSum.value]
    omega

end TempoMap

/-- Each change comes behind the start of the segment that it ends, so the difference is not
negative. -/
theorem TempoSegment.keeps_tallyExtend {events : List TempoEvent}
    (hevents : ∀ event ∈ events, event.tick ≤ farthest) {segment : TempoSegment τ}
    (hsegment : 0 ≤ segment.startTick) (rate : Rate) :
    (segment.tallyExtend rate events).Keeps TickSum.InRange fun _ => True := by
  induction events generalizing segment rate with
  | nil => exact .pure trivial
  | cons event rest ih =>
    obtain ⟨hevent, hrest⟩ := List.forall_mem_cons.1 hevents
    rw [tallyExtend]
    split
    next => exact ih hrest hsegment rate
    next hbefore =>
      split
      next => exact ih hrest hsegment rate
      next rate' _ =>
        split
        next =>
          refine ih hrest ?_ rate'
          exact hsegment
        next =>
          have hsince : (TickSum.since event.tick segment.startTick).InRange := by
            rw [farthest] at hevent
            rw [TickSum.InRange, TickSum.value]
            omega
          refine (keeps_tallySecondsAt hsince).bind fun startTime _ => ?_
          exact (ih hrest (by simp only; omega) rate').bind fun _ _ => .pure trivial

/-- Building a map from changes that events can reach stays in range, and the map is linked. -/
theorem TempoMap.keeps_tallyBuild (rate : Rate) {events : List TempoEvent}
    (hevents : ∀ event ∈ events, event.tick ≤ farthest) :
    (tallyBuild rate events : Tally (TempoMap τ)).Keeps TickSum.InRange Linked := by
  have hsums : (tallyBuild rate events : Tally (TempoMap τ)).Keeps TickSum.InRange fun _ => True := by
    rw [tallyBuild]
    split
    · exact .ofExcept fun _ _ => trivial
    · split
      · exact .ofExcept fun _ _ => trivial
      · have hordered : ∀ event ∈ inOrder events, event.tick ≤ farthest :=
          fun event hevent => hevents event (List.mem_mergeSort.1 hevent)
        exact (TempoSegment.keeps_tallyExtend hordered (Int.le_refl 0) rate).bind
          fun _ _ => .pure trivial
  refine ⟨hsums.sums, fun m hm => ?_⟩
  rw [outcome_tallyBuild] at hm
  exact linked_of_build hm

/-- The running ticks of a tempo payload climb, and they are those of its changes. -/
theorem TempoEvent.running_tallyAll (payload : Bytes) :
    Climbs (tallyAll payload).running ∧ ∀ events, readAll payload = .ok events →
      (tallyAll payload).running = events.map (·.tick) := by
  have hstart : 0 ≤ walk.tick (0, []) := Int.le_refl 0
  obtain ⟨deltas, hdeltas, hrunning, hread⟩ :=
    follows_walk.running_run (follows_walk.goes hstart payload)
  have hsame : (tallyAll payload).running = Stream.ticksFrom 0 deltas :=
    (Tally.running_bind_pure _ _).trans hrunning
  rw [hsame]
  refine ⟨Stream.climbs_ticksFrom hdeltas, fun events hevents => ?_⟩
  obtain ⟨changes, hchanges, rfl⟩ := readAll_eq_ok_iff.1 hevents
  have hchanges : Stream.read walk.event payload = .ok changes :=
    (Stream.read_eq_ok_iff TempoChange.reads_read).2 hchanges
  rw [hread changes hchanges, ← Stream.map_fst_positions, ofChanges, List.map_map]
  rfl

/-- The running ticks of a pad climb through all of its payloads, and they are those of its
events. -/
theorem Track.running_tallyDecode (pad : Pad) (tempo : TempoMap τ) (palette : Palette)
    (payloads : List Bytes) :
    Climbs (tallyDecode pad tempo palette payloads).running ∧
      ∀ events, PadEvent.readAll pad payloads = .ok events →
        (tallyDecode pad tempo palette payloads).running = events.map (·.1) := by
  have hstart : 0 ≤ (Draft.walk pad tempo palette).tick .empty := Int.le_refl 0
  obtain ⟨deltas, hdeltas, hrunning, hread⟩ :=
    (Draft.follows_walk pad tempo palette).running_runAll hstart payloads
  have hsame : (tallyDecode pad tempo palette payloads).running = Stream.ticksFrom 0 deltas :=
    (Tally.running_bind_pure _ _).trans hrunning
  rw [hsame]
  refine ⟨Stream.climbs_ticksFrom hdeltas, fun events hevents => ?_⟩
  obtain ⟨streams, hstreams, rfl⟩ := PadEvent.readAll_eq_ok_iff.1 hevents
  rw [hread streams hstreams, Stream.map_fst_positions]

/-- The changes of a payload are at ticks to which its bytes can lead. -/
theorem TempoEvent.keeps_tallyAll {payload : Bytes} (hroom : payload.length ≤ 2 ^ 29) :
    (tallyAll payload).Keeps TickSum.InRange fun events =>
      ∀ event ∈ events, event.tick ≤ farthest := by
  let kept : Int × List TempoEvent → Prop := fun s => ∀ event ∈ s.2, event.tick ≤ farthest
  have htake : ∀ (s : Int × List TempoEvent) tick change, kept s → 0 ≤ tick → tick ≤ farthest →
      (walk.take s tick change).Keeps TickSum.InRange kept := by
    intro s tick change hs _ hle
    refine .pure fun event hevent => ?_
    rcases List.mem_append.1 hevent with hevent | hevent
    · exact hs event hevent
    · rw [List.mem_singleton.1 hevent]
      exact hle
  have hstart : Stream.Within 0 (walk.tick (0, [])) := ⟨Int.le_refl 0, Int.le_refl 0⟩
  have hkept : kept (0, []) := fun _ hmem => absurd hmem List.not_mem_nil
  have hrun := follows_walk.keeps_run htake (follows_walk.goes hstart.1 payload) hkept hstart
    (by omega)
  exact hrun.bind fun s hs => .pure hs.1

/-- Decoding a pad stays in range for as many bytes as a file may have. -/
theorem Track.keeps_tallyDecode (pad : Pad) {tempo : TempoMap τ} (htempo : tempo.Linked)
    (palette : Palette) {payloads : List Bytes} (hroom : payloads.flatten.length ≤ 2 ^ 29) :
    (tallyDecode pad tempo palette payloads).Keeps TickSum.InRange fun _ => True := by
  have htake (d : Draft τ) (tick : Int) (event : PadEvent) (_ : True) (hnonneg : 0 ≤ tick)
      (hle : tick ≤ farthest) :
      ((Draft.walk pad tempo palette).take d tick event).Keeps TickSum.InRange fun _ => True :=
    Draft.keeps_tallyTake (htempo.allows hnonneg hle) palette d event
  have hstart : Stream.Within 0 ((Draft.walk pad tempo palette).tick .empty) :=
    ⟨Int.le_refl 0, Int.le_refl 0⟩
  have hrun := (Draft.follows_walk pad tempo palette).keeps_runAll htake payloads trivial hstart
    (by omega)
  exact hrun.bind fun d _ => .pure trivial

namespace Container

/-- The payloads of one kind are no longer than the file of which they are parts. -/
theorem length_payloads_le (kind : ChunkKind) (chunks : List Chunk) :
    (payloads kind chunks).flatten.length ≤ (chunks.flatMap Chunk.encode).length := by
  induction chunks with
  | nil => exact Nat.le_refl 0
  | cons chunk rest ih =>
    have hchunk : (payloads kind [chunk]).flatten.length ≤ chunk.encode.length := by
      rw [payloads_singleton, Chunk.encode, List.length_append]
      split
      · rw [List.flatten_singleton]
        exact Nat.le_add_left _ _
      · exact Nat.zero_le _
    rw [← List.singleton_append, payloads_append, List.flatten_append, List.length_append,
      List.singleton_append, List.flatMap_cons, List.length_append]
    exact Nat.add_le_add hchunk ih

theorem length_payload_le {chunk : Chunk} {chunks : List Chunk} (h : chunk ∈ chunks) :
    chunk.payload.length ≤ (chunks.flatMap Chunk.encode).length := by
  obtain ⟨before, after, rfl⟩ := List.append_of_mem h
  rw [List.flatMap_append, List.flatMap_cons, Chunk.encode]
  simp only [List.length_append]
  omega

/-- Taking in a chunk stays in range, and no change that has been collected is too far. -/
theorem keeps_tallyAdd {c : Container} (hc : ∀ event ∈ c.tempo, event.tick ≤ farthest)
    {chunk : Chunk} (hroom : chunk.payload.length ≤ 2 ^ 29) :
    (c.tallyAdd chunk).Keeps TickSum.InRange fun c' => ∀ event ∈ c'.tempo, event.tick ≤ farthest := by
  rw [tallyAdd]
  split
  next hkind =>
    refine (TempoEvent.keeps_tallyAll hroom).bind fun events hevents => .pure fun event hevent => ?_
    exact (List.mem_append.1 hevent).elim (hc event) (hevents event)
  next hkind =>
    refine .ofExcept fun c' hc' => ?_
    have htempo := (add_eq_ok_iff.1 hc').tempo
    rw [payloads_singleton, if_neg hkind, List.foldlM_nil, Outcome.pure_eq_ok_iff] at htempo
    rwa [← htempo]

/-- The same of all chunks of a file, by induction on them. -/
theorem keeps_foldlM_tallyAdd {chunks : List Chunk}
    (hroom : ∀ chunk ∈ chunks, chunk.payload.length ≤ 2 ^ 29) {c : Container}
    (hc : ∀ event ∈ c.tempo, event.tick ≤ farthest) :
    (chunks.foldlM tallyAdd c).Keeps TickSum.InRange fun c' =>
      ∀ event ∈ c'.tempo, event.tick ≤ farthest := by
  induction chunks generalizing c with
  | nil => exact .pure hc
  | cons chunk rest ih =>
    obtain ⟨hchunk, hrest⟩ := List.forall_mem_cons.1 hroom
    rw [List.foldlM_cons]
    exact (keeps_tallyAdd hc hchunk).bind fun c' hc' => ih hrest hc'

/-- A container whose changes and payloads are not too far out leads to a program within range. -/
theorem keeps_tallyProgram {c : Container} (htempo : ∀ event ∈ c.tempo, event.tick ≤ farthest)
    (hpads : ∀ p, (c.pads.get p).flatten.length ≤ 2 ^ 29) :
    (c.tallyProgram : Tally (Program τ)).Keeps TickSum.InRange fun _ => True := by
  rw [tallyProgram]
  split
  · exact .ofExcept fun _ _ => trivial
  · refine (TempoMap.keeps_tallyBuild _ htempo).bind fun tempo hlinked => ?_
    have htrack (p : Pad) : (c.tallyTrack? tempo p).Keeps TickSum.InRange fun _ => True :=
      (Track.keeps_tallyDecode p hlinked _ (hpads p)).bind fun _ _ => .pure trivial
    refine (htrack .centre).bind fun centre _ => (htrack .left).bind fun left _ =>
      (htrack .right).bind fun right _ => ?_
    dsimp only
    split
    · exact .ofExcept fun _ _ => trivial
    · exact .pure trivial

end Container

namespace Program

/-- Parsing stays in range for every file that is not too long: the chunks bound the payloads, and
the payloads bound the ticks. -/
theorem keeps_tallyParse {data : Bytes} (hroom : data.length ≤ 2 ^ 29) :
    (tallyParse data : Tally (Program τ)).Keeps TickSum.InRange fun _ => True := by
  have hchunks : (Tally.ofExcept (Chunk.readAll data)).Keeps TickSum.InRange
      fun chunks => data = chunks.flatMap Chunk.encode :=
    .ofExcept fun chunks hread => (Chunk.readAll_eq_ok_iff.1 hread).1
  refine hchunks.bind fun chunks hdata => ?_
  rw [hdata] at hroom
  have hkept : (Container.tallyChunks chunks).Keeps TickSum.InRange fun c =>
      ∀ event ∈ c.tempo, event.tick ≤ farthest :=
    Container.keeps_foldlM_tallyAdd
      (fun chunk hchunk => (Container.length_payload_le hchunk).trans hroom)
      fun _ hmem => absurd hmem List.not_mem_nil
  have hcollected : (Container.tallyChunks chunks).Keeps TickSum.InRange fun c =>
      (∀ event ∈ c.tempo, event.tick ≤ farthest) ∧
        ∀ p, (c.pads.get p).flatten.length ≤ 2 ^ 29 := by
    refine ⟨hkept.sums, fun c hc => ⟨hkept.outcome c hc, fun p => ?_⟩⟩
    rw [Container.outcome_tallyChunks] at hc
    have hpads := (Container.foldlM_add_eq_ok_iff.1 hc).pads p
    have hempty : Container.empty.pads.get p = [] := PerPad.get_const [] p
    rw [hpads, hempty, List.nil_append]
    exact (Container.length_payloads_le _ chunks).trans hroom
  exact hcollected.bind fun c hc => Container.keeps_tallyProgram hc.1 hc.2

/-- Ticks stay within their words. Through the payloads of a pad, and through a payload of tempo
changes, the running tick is that of one event after another and climbs, also on the way to an
error. For a file of at most half a gibibyte, no tick that is computed is negative or takes more
than sixty-three bits, so that words of sixty-four bits, which could wrap around, come to the
same. -/
theorem ticks_in_range :
    (∀ (pad : Pad) (tempo : TempoMap τ) (palette : Palette) (payloads : List Bytes),
      let tally := Track.tallyDecode pad tempo palette payloads
      tally.outcome = Track.decode pad tempo palette payloads ∧ Climbs tally.running ∧
        ∀ events, PadEvent.readAll pad payloads = .ok events →
          tally.running = events.map (·.1)) ∧
    (∀ payload : Bytes,
      let tally := TempoEvent.tallyAll payload
      tally.outcome = TempoEvent.readAll payload ∧ Climbs tally.running ∧
        ∀ events, TempoEvent.readAll payload = .ok events → tally.running = events.map (·.tick)) ∧
    ∀ data : Bytes,
      let tally : Tally (Program τ) := tallyParse data
      tally.outcome = parse data ∧
        (data.length ≤ 2 ^ 29 →
          (∀ sum ∈ tally.sums, sum.InRange) ∧ tally.wrapped = parse data) := by
  refine ⟨fun pad tempo palette payloads => ?_, fun payload => ?_, fun data => ?_⟩
  · obtain ⟨hclimbs, hevents⟩ := Track.running_tallyDecode pad tempo palette payloads
    exact ⟨Track.outcome_tallyDecode pad tempo palette payloads, hclimbs, hevents⟩
  · obtain ⟨hclimbs, hevents⟩ := TempoEvent.running_tallyAll payload
    exact ⟨TempoEvent.outcome_tallyAll payload, hclimbs, hevents⟩
  · intro tally
    have houtcome : tally.outcome = parse data := outcome_tallyParse data
    refine ⟨houtcome, fun hroom => ?_⟩
    have hsums : ∀ sum ∈ tally.sums, sum.InRange := (keeps_tallyParse hroom).sums
    exact ⟨hsums, (tally.agree hsums).trans houtcome⟩

theorem ticks_in_range_distant :
    distantFile.length ≤ 2 ^ 29 ∧
      (tallyParse distantFile : Tally Show).sums =
        [.running 0 4194304, .since 4194304 0, .running 0 4194304, .since 4194304 4194304,
          .ahead 4194304 1, .since 4194305 4194304, .since 4194304 4194304] ∧
      (∀ sum ∈ (tallyParse distantFile : Tally Show).sums, sum.InRange) ∧
      (tallyParse distantFile : Tally Show).wrapped = parse distantFile := by
  have hlength : distantFile.length ≤ 2 ^ 29 := by decide +kernel
  obtain ⟨_, _, hfile⟩ := @ticks_in_range Binary64 _
  obtain ⟨_, hrange⟩ := hfile distantFile
  obtain ⟨hsums, hwrapped⟩ := hrange hlength
  exact ⟨hlength, by decide +kernel, hsums, hwrapped⟩

end Program

end

end LightShow
