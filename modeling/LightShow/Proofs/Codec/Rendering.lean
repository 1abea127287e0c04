import LightShow.Cue
import LightShow.Proofs.Codec.Event
import LightShow.Proofs.Outcome
import LightShow.Proofs.Tempo.Time

namespace LightShow

variable {τ : Type} [Clock τ]

/-- The colour that a reference stands for, provided that the table can answer it. -/
def ColourRef.shown (palette : Palette) : ColourRef → Colour
  | .palette index => (palette.get? index).getD .black
  | .literal colour => colour

/-- A colour within the table is always resolved. -/
theorem ColourRef.resolve_of_inTable {colour : ColourRef} (h : colour.InTable) (palette : Palette) :
    colour.resolve palette = .ok (colour.shown palette) := by
  cases colour with
  | palette index =>
    have hget : palette.get? index = some palette.entries[index.toNat] :=
      Vector.getElem?_eq_getElem h
    simp only [resolve, Palette.resolve, shown, hget, Option.getD_some]
  | literal colour => rfl

/-- The command that goes over to a colour: at once, or as a fade of a single pulse. -/
def Command.goOver (tempo : TempoMap τ) (tick : Int) (transition : UInt16) (colour : Colour) :
    Command τ :=
  if transition = 0 then .switch (tempo.time tick) colour
  else .fade (tempo.time tick) colour (Clock.units (tempo.span tick transition.toNat)) 1

namespace PadEvent

/-- What an event has its pad do, with the default transition as it stands before the event. Only a
switch can ask for that. Pulse counts, and the lengths of fades and flashes, are at least one. -/
def command? (tempo : TempoMap τ) (palette : Palette) (default : UInt16) (tick : Int) :
    PadEvent → Option (Command τ)
  | .switch transition colour _ =>
    let transition := if transition = useDefaultTransition then default else transition
    some (.goOver tempo tick transition (colour.shown palette))
  | .fade ramp pulses colour _ =>
    let count := max pulses 1
    let pulse := tempo.span tick ramp.toNat / ((count.toNat : Int) : τ)
    some (.fade (tempo.time tick) (colour.shown palette) (max (Clock.units pulse) 1) count)
  | .flash on off pulses colour _ =>
    some (.flash (tempo.time tick) (colour.shown palette)
      (max (Clock.units (tempo.span tick on.toNat)) 1)
      (max (Clock.units (tempo.span tick off.toNat)) 1) (max pulses 1))
  | .blackout transition _ => some (.goOver tempo tick transition .black)
  | .defaultTransition _ => none
  | .keyframe _ => none

/-- How many ticks an event holds what it shows, if it shows anything. -/
def hold? : PadEvent → Option UInt16
  | .switch _ _ hold => some hold
  | .fade _ _ _ hold => some hold
  | .flash _ _ _ _ hold => some hold
  | .blackout _ hold => some hold
  | .defaultTransition _ => none
  | .keyframe _ => none

/-- When an event ends: at its own time if it is not held. -/
def finish? (tempo : TempoMap τ) (tick : Int) (event : PadEvent) : Option τ :=
  event.hold?.map fun hold =>
    if hold = 0 then tempo.time tick else tempo.time (tick + hold.toNat)

/-- The default transition after an event. -/
def transitionAfter (default : UInt16) : PadEvent → UInt16
  | .defaultTransition transition => transition
  | _ => default

end PadEvent

namespace Track

/-- The commands of some events one after another. Events that set the default transition have none
and take effect on those behind them. -/
def commandsFrom (tempo : TempoMap τ) (palette : Palette) (default : UInt16) :
    List (Int × PadEvent) → List (Command τ)
  | [] => []
  | (tick, event) :: rest =>
    (event.command? tempo palette default tick).toList ++
      commandsFrom tempo palette (event.transitionAfter default) rest

/-- When each of some events ends. -/
def endings (tempo : TempoMap τ) (events : List (Int × PadEvent)) : List τ :=
  events.filterMap fun (tick, event) => event.finish? tempo tick

/-- The track that some events describe. There is no default transition at first, and the track
lasts until the last event ends. -/
def render (tempo : TempoMap τ) (palette : Palette) (events : List (Int × PadEvent)) : Track τ :=
  ofCommands (commandsFrom tempo palette 0 events)
    ((endings tempo events).foldl Clock.later ((0 : Int) : τ))

end Track

namespace PadEvent

/-- What decoding needs of an event: a tick that is not negative and a colour that can be
answered. -/
def Playable (event : Int × PadEvent) : Prop := 0 ≤ event.1 ∧ event.2.InTable

/-- An event that shows something becomes a cue and a command, without an error at any tick from
zero on. The cue and the direct rendering come to the same. -/
theorem cue_of_shows (tempo : TempoMap τ) (palette : Palette) (default : Option UInt16)
    {tick : Int} {event : PadEvent} (h : Playable (tick, event)) (hshows : event.shows = true) :
    ∃ cue command finish, Cue.ofEvent? palette default event = .ok (some cue) ∧
      cue.command tempo tick = .ok command ∧
      event.command? tempo palette (default.getD 0) tick = some command ∧
      cue.finish tempo tick = .ok finish ∧ event.finish? tempo tick = some finish := by
  obtain ⟨htick, hcolour⟩ := h
  have hspan := tempo.secondsBetween_of_nonneg htick
  have htime := tempo.secondsAt_of_nonneg htick
  have hfinish (hold : UInt16) : tempo.secondsAt (tick + hold.toNat) =
      .ok (if hold = 0 then tempo.time tick else tempo.time (tick + hold.toNat)) := by
    rw [tempo.secondsAt_of_nonneg (by omega)]
    split
    next hzero => rw [hzero, show ((0 : UInt16).toNat : Int) = 0 from rfl, Int.add_zero]
    next => rfl
  have hgoOver (transition hold : UInt16) (colour : Colour) :
      (Cue.switch transition colour hold).command tempo tick =
        .ok (.goOver tempo tick transition colour) := by
    simp only [Cue.command, htime, hspan, Command.goOver, Bind.bind, Except.bind]
    split <;> rfl
  cases event with
  | switch transition colour hold =>
    refine ⟨_, _, _, ?_, hgoOver _ hold _, rfl, hfinish hold, rfl⟩
    rw [Cue.ofEvent?, ColourRef.resolve_of_inTable (hcolour _ rfl)]
    rfl
  | fade ramp pulses colour hold =>
    refine ⟨.fade ramp pulses (colour.shown palette) hold, _, _, ?_, ?_, rfl, hfinish hold, rfl⟩
    · rw [Cue.ofEvent?, ColourRef.resolve_of_inTable (hcolour _ rfl)]
      rfl
    · simp only [Cue.command, htime, hspan, Bind.bind, Except.bind]
      rfl
  | flash on off pulses colour hold =>
    refine ⟨.flash on off pulses (colour.shown palette) hold, _, _, ?_, ?_, rfl, hfinish hold, rfl⟩
    · rw [Cue.ofEvent?, ColourRef.resolve_of_inTable (hcolour _ rfl)]
      rfl
    · simp only [Cue.command, htime, hspan, Bind.bind, Except.bind]
      rfl
  | blackout transition hold => exact ⟨_, _, _, rfl, hgoOver _ hold _, rfl, hfinish hold, rfl⟩
  | defaultTransition transition => cases hshows
  | keyframe state => cases hshows

/-- An event that shows nothing leaves neither a command nor an end. -/
theorem silent_of_not_shows (tempo : TempoMap τ) (palette : Palette) (default : Option UInt16)
    (tick : Int) {event : PadEvent} (hshows : event.shows = false) :
    Cue.ofEvent? palette default event = .ok none ∧
      event.command? tempo palette (default.getD 0) tick = none ∧
      event.finish? tempo tick = none := by
  cases event with
  | defaultTransition transition => exact ⟨rfl, rfl, rfl⟩
  | keyframe state => exact ⟨rfl, rfl, rfl⟩
  | _ => cases hshows

/-- Where no default transition has been set it counts as zero. -/
theorem getD_defaultAfter (default : Option UInt16) (event : PadEvent) :
    (Cue.defaultAfter default event).getD 0 = event.transitionAfter (default.getD 0) := by
  cases event <;> rfl

end PadEvent

namespace Track

/-- Cues, commands and endings of playable events come out without an error. -/
theorem exists_cues (tempo : TempoMap τ) (palette : Palette) (default : Option UInt16)
    {events : List (Int × PadEvent)} (h : ∀ event ∈ events, PadEvent.Playable event) :
    ∃ cues, Cue.ofEvents palette default events = .ok cues ∧
      (cues.mapM fun (tick, cue) => cue.command tempo tick) =
        .ok (commandsFrom tempo palette (default.getD 0) events) ∧
      (cues.mapM fun (tick, cue) => cue.finish tempo tick) = .ok (endings tempo events) := by
  induction events generalizing default with
  | nil => exact ⟨[], rfl, rfl, rfl⟩
  | cons event rest ih =>
    obtain ⟨tick, event⟩ := event
    obtain ⟨cues, hcues, hcommands, hendings⟩ := ih (Cue.defaultAfter default event)
      fun later hlater => h later (List.mem_cons_of_mem _ hlater)
    rw [PadEvent.getD_defaultAfter] at hcommands
    cases hshows : event.shows with
    | true =>
      obtain ⟨cue, command, finish, hcue, hcommand, hcommand?, hfinish, hfinish?⟩ :=
        PadEvent.cue_of_shows tempo palette default (h _ List.mem_cons_self) hshows
      refine ⟨(tick, cue) :: cues, ?_, ?_, ?_⟩
      · simp only [Cue.ofEvents, hcue, hcues, Bind.bind, Except.bind]
        rfl
      · simp only [List.mapM_cons, hcommand, hcommands, commandsFrom, hcommand?, Bind.bind,
          Except.bind]
        rfl
      · simp only [List.mapM_cons, hfinish, hendings, endings, List.filterMap_cons, hfinish?,
          Bind.bind, Except.bind]
        rfl
    | false =>
      obtain ⟨hcue, hcommand?, hfinish?⟩ :=
        PadEvent.silent_of_not_shows tempo palette default tick hshows
      refine ⟨cues, ?_, ?_, ?_⟩
      · simp only [Cue.ofEvents, hcue, hcues, Bind.bind, Except.bind]
        rfl
      · simp only [hcommands, commandsFrom, hcommand?, Option.toList_none, List.nil_append]
      · simp only [hendings, endings, List.filterMap_cons, hfinish?]

end Track

namespace PadEvent

/-- The events of a payload are at ticks from zero on and have no colours outside the table. -/
theorem playable_of_form {start : Int} (hstart : 0 ≤ start) {events : List (Nat × PadEvent)}
    {payload : Bytes} (h : Stream.Form Form events payload) :
    ∀ event ∈ Stream.positions start events, Playable event := by
  induction h generalizing start with
  | nil => simp [Stream.positions]
  | @cons event rest _ _ hevent _ ih =>
    obtain ⟨_, _, _, _, hform⟩ := hevent
    have htick : 0 ≤ start + event.1 := by omega
    intro later hlater
    rcases List.mem_cons.1 hlater with rfl | hlater
    · exact ⟨htick, hform.inTable⟩
    · exact ih htick later hlater

end PadEvent

namespace Stream

variable {ε : Type}

theorem map_snd_positions (start : Int) (events : List (Nat × ε)) :
    (positions start events).map (·.2) = events.map (·.2) := by
  induction events generalizing start with
  | nil => rfl
  | cons event rest ih => simp only [positions, List.map_cons, ih]

/-- Payloads read one after another hold the same events as a single payload. -/
theorem form_flatten {form : ε → Bytes → Prop} {payloads : List Bytes}
    {streams : List (List (Nat × ε))} {event : Reader ε} (hr : Reader.Reads event form)
    (h : payloads.map (read event) = streams.map .ok) :
    Form form streams.flatten payloads.flatten := by
  induction payloads generalizing streams with
  | nil =>
    rw [List.map_nil, eq_comm, List.map_eq_nil_iff] at h
    subst h
    exact .nil
  | cons payload payloads ih =>
    cases streams with
    | nil => cases h
    | cons events streams =>
      simp only [List.map_cons, List.cons.injEq] at h
      exact ((read_eq_ok_iff hr).1 h.1).append (ih h.2)

end Stream

namespace PadEvent

/-- The payloads of a pad are read one by one, and positions run on from one to the next. -/
theorem readAll_eq_ok_iff {pad : Pad} {payloads : List Bytes} {events : List (Int × PadEvent)} :
    readAll pad payloads = .ok events ↔
      ∃ streams : List (List (Nat × PadEvent)),
        payloads.map (Stream.read (read pad)) = streams.map .ok ∧
          Stream.positions 0 streams.flatten = events := by
  rw [readAll, Outcome.bind_eq_ok_iff]
  simp only [Outcome.mapM_eq_ok_iff, Pure.pure, Except.pure, Except.ok.injEq]

/-- Whatever is read from payloads can be played. -/
theorem playable_of_readAll {pad : Pad} {payloads : List Bytes} {events : List (Int × PadEvent)}
    (h : readAll pad payloads = .ok events) : ∀ event ∈ events, Playable event := by
  obtain ⟨streams, hstreams, rfl⟩ := readAll_eq_ok_iff.1 h
  exact playable_of_form (Int.le_refl 0) (Stream.form_flatten (reads_read pad) hstreams)

end PadEvent

namespace Track

/-- Once the events of a pad have been read, nothing can go wrong any more. -/
theorem decode_eq_map (pad : Pad) (tempo : TempoMap τ) (palette : Palette) (payloads : List Bytes) :
    decode pad tempo palette payloads =
      (PadEvent.readAll pad payloads).map (render tempo palette) := by
  rw [decode]
  cases hread : PadEvent.readAll pad payloads with
  | error e => rfl
  | ok events =>
    obtain ⟨cues, hcues, hcommands, hendings⟩ :=
      exists_cues tempo palette none (PadEvent.playable_of_readAll hread)
    simp only [hcues, Cue.track, hcommands, hendings, Bind.bind, Except.bind]
    rfl

/-- There are no commands exactly if no event shows anything. -/
theorem commandsFrom_eq_nil_iff {tempo : TempoMap τ} {palette : Palette} {default : UInt16}
    {events : List (Int × PadEvent)} :
    commandsFrom tempo palette default events = [] ↔ ∀ event ∈ events, event.2.shows = false := by
  induction events generalizing default with
  | nil => simp [commandsFrom]
  | cons event rest ih =>
    have hhead : (event.2.command? tempo palette default event.1).toList = [] ↔
        event.2.shows = false := by
      obtain ⟨tick, event⟩ := event
      cases event <;> simp [PadEvent.command?, PadEvent.shows]
    simp only [commandsFrom, List.append_eq_nil_iff, hhead, ih, List.forall_mem_cons]

/-- A track is empty exactly if no event shows anything. -/
theorem isEmpty_render {tempo : TempoMap τ} {palette : Palette} {events : List (Int × PadEvent)} :
    (render tempo palette events).isEmpty = !events.any fun event => event.2.shows := by
  rw [Bool.eq_iff_iff]
  simp only [isEmpty, render, ofCommands, List.isEmpty_iff, Bool.not_eq_true', List.any_eq_false,
    Bool.not_eq_true]
  have hnil : commandsFrom tempo palette 0 events = [] ↔ ∀ event ∈ events, event.2.shows = false :=
    commandsFrom_eq_nil_iff
  rw [← hnil, ← List.length_eq_zero_iff, List.length_mergeSort, List.length_eq_zero_iff]

end Track

end LightShow
