import LightShow.Proofs.Codec.Meaning
import LightShow.Proofs.Codec.Program
import LightShow.Proofs.Ticks.Times
import LightShow.Proofs.Ticks.Walk

namespace LightShow

variable {τ : Type} [Clock τ]

namespace Draft

/-- Takes in an event at a tick, as `take` does. -/
def tallyTake (tempo : TempoMap τ) (palette : Palette) (d : Draft τ) (tick : Int)
    (event : PadEvent) : Tally (Draft τ) := do
  match ← .ofExcept (Cue.ofEvent? palette (some d.transition) event) with
  | none => return { d with tick, transition := event.transitionAfter d.transition }
  | some cue =>
    let command ← cue.tallyCommand tempo tick
    let finish ← cue.tallyFinish tempo tick command.time
    return { d with
      tick
      commands := d.commands ++ [command]
      duration := Clock.later d.duration finish }

/-- An event that can be played is taken in as `take` does it, and without an error. -/
theorem outcome_tallyTake (tempo : TempoMap τ) (palette : Palette) (d : Draft τ) {delta : Nat}
    {event : PadEvent} (h : PadEvent.Playable (d.tick + delta, event)) :
    (d.tallyTake tempo palette (d.tick + delta) event).outcome =
      .ok (d.take tempo palette (delta, event)) := by
  cases hshows : event.shows with
  | true =>
    obtain ⟨cue, command, finish, hcue, hcommand, hcommand?, hfinish, hfinish?⟩ :=
      PadEvent.cue_of_shows tempo palette (some d.transition) h hshows
    rw [Option.getD_some] at hcommand?
    have htransition : event.transitionAfter d.transition = d.transition := by
      cases event <;> first | rfl | cases hshows
    simp only [tallyTake, take, Tally.outcome_bind, Tally.outcome_ofExcept, hcue, hcommand?, hfinish?,
      htransition, Outcome.ok_bind, Cue.outcome_tallyCommand, hcommand,
      Cue.outcome_tallyFinish hcommand, hfinish]
    rfl
  | false =>
    obtain ⟨hcue, hcommand?, hfinish?⟩ :=
      PadEvent.silent_of_not_shows tempo palette (some d.transition) (d.tick + delta) hshows
    rw [Option.getD_some] at hcommand?
    simp only [tallyTake, take, Tally.outcome_bind, Tally.outcome_ofExcept, hcue, hcommand?, hfinish?,
      Option.toList_none, List.append_nil]
    rfl

/-- The way through the payloads of a pad. -/
def walk (pad : Pad) (tempo : TempoMap τ) (palette : Palette) : Stream.Walk PadEvent (Draft τ) where
  event := PadEvent.read pad
  tick := tick
  take := tallyTake tempo palette

/-- Only a cue needs ticks: those of its command and those of its end. -/
theorem keeps_tallyTake {kind : TickSum → Prop} {tempo : TempoMap τ} {tick : Int}
    (h : tempo.Allows kind tick) (palette : Palette) (d : Draft τ) (event : PadEvent) :
    (d.tallyTake tempo palette tick event).Keeps kind fun _ => True := by
  have hcue : (Tally.ofExcept (Cue.ofEvent? palette (some d.transition) event)).Keeps kind
      fun _ => True := .ofExcept fun _ _ => trivial
  refine hcue.bind fun cue _ => ?_
  cases cue with
  | none => exact .pure trivial
  | some cue =>
    exact (cue.keeps_tallyCommand h).bind fun command _ =>
      (cue.keeps_tallyFinish h command.time).bind fun _ _ => .pure trivial

/-- The walk through a pad's payloads follows the pad's events. Commands and ends compute ticks, but
no running ones. -/
theorem follows_walk (pad : Pad) (tempo : TempoMap τ) (palette : Palette) :
    (walk pad tempo palette).Follows PadEvent.Form (take tempo palette) where
  reads := PadEvent.reads_read pad
  ne_nil event front h := by
    cases h <;> exact List.cons_ne_nil _ _
  tick_next _ _ := rfl
  outcome_take d delta event front hd hform := by
    have hplayable : PadEvent.Playable (d.tick + delta, event) :=
      ⟨Int.add_nonneg hd (Int.natCast_nonneg delta), hform.inTable⟩
    exact outcome_tallyTake tempo palette d hplayable
  running_take d tick event := by
    have hnone : tempo.Allows (fun sum => sum.running? = none) tick := ⟨fun _ => rfl, fun _ => rfl⟩
    exact List.filterMap_eq_nil_iff.2 (keeps_tallyTake hnone palette d event).sums

end Draft

namespace TempoEvent

/-- The way through a payload of tempo changes, with the running tick and the events so far. -/
def walk : Stream.Walk TempoChange (Int × List TempoEvent) where
  event := TempoChange.read
  tick := (·.1)
  take s tick change := return (tick, s.2 ++ [⟨tick, change⟩])

/-- The state after a change that comes some ticks later. -/
def next (s : Int × List TempoEvent) (event : Nat × TempoChange) : Int × List TempoEvent :=
  (s.1 + event.1, s.2 ++ [⟨s.1 + event.1, event.2⟩])

def tallyAll (payload : Bytes) : Tally (List TempoEvent) := do
  let (_, events) ← walk.run (0, []) payload
  return events

/-- The walk through a tempo payload follows its changes, which need no time. -/
theorem follows_walk : walk.Follows (fun change front => front = change.encode) next where
  reads := TempoChange.reads_read
  ne_nil change front h := by
    rw [h]
    cases change <;> exact List.cons_ne_nil _ _
  tick_next _ _ := rfl
  outcome_take _ _ _ _ _ _ := rfl
  running_take _ _ _ := rfl

/-- The walk collects the changes at the positions to which their distances lead. -/
theorem foldl_next (s : Int × List TempoEvent) (changes : List (Nat × TempoChange)) :
    (changes.foldl next s).2 =
      s.2 ++ (Stream.positions s.1 changes).map fun (tick, change) => (⟨tick, change⟩ : TempoEvent) := by
  induction changes generalizing s with
  | nil => exact (List.append_nil _).symm
  | cons change rest ih =>
    rw [List.foldl_cons, ih, Stream.positions, List.map_cons, next, List.append_assoc]
    rfl

/-- A tempo payload is read to the same changes, or the same error, change by change. -/
theorem outcome_tallyAll (payload : Bytes) : (tallyAll payload).outcome = readAll payload := by
  have hstart : 0 ≤ walk.tick (0, []) := Int.le_refl 0
  have hgoes := follows_walk.goes hstart payload
  have hevent : walk.event = TempoChange.read := rfl
  rw [tallyAll, Tally.outcome_bind, hgoes.outcome_run, readAll, hevent]
  cases Stream.read TempoChange.read payload with
  | error e => rfl
  | ok changes => exact congrArg Except.ok (foldl_next (0, []) changes)

end TempoEvent

namespace Track

/-- The track of a pad, made event by event. -/
def tallyDecode (pad : Pad) (tempo : TempoMap τ) (palette : Palette) (payloads : List Bytes) :
    Tally (Track τ) := do
  let d ← (Draft.walk pad tempo palette).runAll .empty payloads
  return d.track

/-- A track is decoded to the same commands, or the same error, event by event. -/
theorem outcome_tallyDecode (pad : Pad) (tempo : TempoMap τ) (palette : Palette)
    (payloads : List Bytes) :
    (tallyDecode pad tempo palette payloads).outcome = decode pad tempo palette payloads := by
  have hstart : 0 ≤ (Draft.walk pad tempo palette).tick .empty := Int.le_refl 0
  have houtcome := (Draft.follows_walk pad tempo palette).outcome_runAll hstart payloads
  have hevent : (Draft.walk pad tempo palette).event = PadEvent.read pad := rfl
  rw [tallyDecode, Tally.outcome_bind, houtcome, decode_eq_map, PadEvent.readAll, hevent]
  cases payloads.mapM (Stream.read (PadEvent.read pad)) with
  | error e => rfl
  | ok parts => exact congrArg Except.ok (Draft.track_ofEvents tempo palette parts.flatten)

end Track

namespace Container

def tallyAdd (c : Container) (chunk : Chunk) : Tally Container :=
  match chunk.tag.kind with
  | .tempo => do return { c with tempo := c.tempo ++ (← TempoEvent.tallyAll chunk.payload) }
  | _ => .ofExcept (c.add chunk)

/-- Only a tempo chunk needs ticks to be taken in. -/
theorem outcome_tallyAdd (c : Container) (chunk : Chunk) :
    (c.tallyAdd chunk).outcome = c.add chunk := by
  rw [tallyAdd]
  split
  next hkind =>
    rw [add, hkind, Tally.outcome_bind, TempoEvent.outcome_tallyAll]
    rfl
  next => rfl

def tallyChunks (chunks : List Chunk) : Tally Container := chunks.foldlM tallyAdd empty

def tallyTrack? (c : Container) (tempo : TempoMap τ) (p : Pad) : Tally (Option (Track τ)) := do
  let track ← Track.tallyDecode p tempo c.palette.palette (c.pads.get p)
  return if track.isEmpty then none else some track

def tallyProgram (c : Container) : Tally (Program τ) :=
  match c.header with
  | none => .ofExcept (.error .missingHeader)
  | some header => do
    let tempo ← TempoMap.tallyBuild ⟨header.microsecondsPerBeat, header.ticksPerBeat⟩ c.tempo
    let centre ← c.tallyTrack? tempo .centre
    let left ← c.tallyTrack? tempo .left
    let right ← c.tallyTrack? tempo .right
    let program : Program τ := ⟨⟨centre, left, right⟩⟩
    if program.isEmpty then .ofExcept (.error .noPadTracks) else return program

theorem outcome_tallyChunks (chunks : List Chunk) :
    (tallyChunks chunks).outcome = ofChunks chunks := by
  rw [tallyChunks, Tally.outcome_foldlM, ofChunks]
  simp only [outcome_tallyAdd]

theorem outcome_tallyTrack? (c : Container) (tempo : TempoMap τ) (p : Pad) :
    (c.tallyTrack? tempo p).outcome = c.track? tempo p := by
  rw [tallyTrack?, Tally.outcome_bind, Track.outcome_tallyDecode]
  rfl

/-- A container leads to the same program, or the same error, with ticks and without. -/
theorem outcome_tallyProgram (c : Container) :
    (c.tallyProgram : Tally (Program τ)).outcome = c.program := by
  rw [tallyProgram, program]
  cases c.header with
  | none => rfl
  | some header =>
    simp only [Tally.outcome_bind, TempoMap.outcome_tallyBuild, outcome_tallyTrack?]
    congr 1
    funext tempo
    congr 1
    funext centre
    congr 1
    funext left
    congr 1
    funext right
    split <;> rfl

end Container

/-- The program that a track file holds, with the ticks that are computed for it in the order in
which the bytes are gone through. -/
def Program.tallyParse (data : Bytes) : Tally (Program τ) := do
  let chunks ← .ofExcept (Chunk.readAll data)
  let c ← Container.tallyChunks chunks
  c.tallyProgram

/-- The tally of a file comes to what parsing it comes to. -/
theorem Program.outcome_tallyParse (data : Bytes) :
    (tallyParse data : Tally (Program τ)).outcome = parse data := by
  simp only [tallyParse, parse, Tally.outcome_bind, Tally.outcome_ofExcept,
    Container.outcome_tallyChunks, Container.outcome_tallyProgram]

end LightShow
