import LightShow.Proofs.Codec.Malformed
import LightShow.Proofs.Codec.Rendering
import Mathlib.Data.List.Forall2

namespace LightShow

variable {τ : Type} [Clock τ]

/-- The ends of events come in the order of the events. -/
theorem Track.endings_cons (tempo : TempoMap τ) (tick : Int) (event : PadEvent)
    (rest : List (Int × PadEvent)) :
    endings tempo ((tick, event) :: rest) =
      (event.finish? tempo tick).toList ++ endings tempo rest := by
  cases hfinish : event.finish? tempo tick <;>
    simp only [endings, List.filterMap_cons, hfinish, Option.toList_none, Option.toList_some,
      List.nil_append, List.singleton_append]

/-- What has come of the events of a pad so far, one after another. -/
structure Draft (τ : Type) where
  tick : Int
  /-- The transition that a switch may ask for. -/
  transition : UInt16
  commands : List (Command τ)
  /-- The latest end of an event. -/
  duration : τ

namespace Draft

def empty : Draft τ := ⟨0, 0, [], ((0 : Int) : τ)⟩

/-- Takes in the next event, which comes some ticks after the one before it. -/
def take (tempo : TempoMap τ) (palette : Palette) (d : Draft τ) (event : Nat × PadEvent) :
    Draft τ :=
  let tick := d.tick + event.1
  { tick
    transition := event.2.transitionAfter d.transition
    commands := d.commands ++ (event.2.command? tempo palette d.transition tick).toList
    duration := match event.2.finish? tempo tick with
      | some finish => Clock.later d.duration finish
      | none => d.duration }

def ofEvents (tempo : TempoMap τ) (palette : Palette) (events : List (Nat × PadEvent)) : Draft τ :=
  events.foldl (take tempo palette) empty

def track (d : Draft τ) : Track τ := .ofCommands d.commands d.duration

/-- Taken one by one, events give the commands of the rendering, with the transition handed on from
event to event. -/
theorem foldl_take_commands (tempo : TempoMap τ) (palette : Palette) (d : Draft τ)
    (events : List (Nat × PadEvent)) :
    (events.foldl (take tempo palette) d).commands =
      d.commands ++
        Track.commandsFrom tempo palette d.transition (Stream.positions d.tick events) := by
  induction events generalizing d with
  | nil => exact (List.append_nil _).symm
  | cons event rest ih =>
    rw [List.foldl_cons, ih, Stream.positions, Track.commandsFrom, ← List.append_assoc]
    rfl

/-- Taken one by one, events give the latest of their ends. -/
theorem foldl_take_duration (tempo : TempoMap τ) (palette : Palette) (d : Draft τ)
    (events : List (Nat × PadEvent)) :
    (events.foldl (take tempo palette) d).duration =
      (Track.endings tempo (Stream.positions d.tick events)).foldl Clock.later d.duration := by
  induction events generalizing d with
  | nil => rfl
  | cons event rest ih =>
    rw [List.foldl_cons, ih, Stream.positions, Track.endings_cons, List.foldl_append]
    congr 1
    rw [take]
    cases event.2.finish? tempo (d.tick + event.1) <;> rfl

/-- The track drafted from events is the one rendered from their positions. -/
theorem track_ofEvents (tempo : TempoMap τ) (palette : Palette)
    (events : List (Nat × PadEvent)) :
    (ofEvents tempo palette events).track =
      Track.render tempo palette (Stream.positions 0 events) := by
  rw [track, Track.render, ofEvents, foldl_take_commands, foldl_take_duration]
  rfl

end Draft

namespace PadEvent

/-- The payload by itself is a sequence of events, each behind its distance in ticks. -/
abbrev Spells (payload : Bytes) (events : List (Nat × PadEvent)) : Prop :=
  Stream.Form Form events payload

/-- The payload begins with some events, and where the next one should be, none can be read, for the
reason that the error tells. -/
def Breaks (pad : Pad) (payload : Bytes) (e : CodecError) : Prop :=
  ∃ events front back, payload = front ++ back ∧ Spells front events ∧
    Stream.Malformed (Malformed pad) e back

/-- Payloads are read exactly if each spells its events. -/
theorem read_payloads_iff (pad : Pad) {payloads : List Bytes}
    {streams : List (List (Nat × PadEvent))} :
    payloads.map (Stream.read (read pad)) = streams.map .ok ↔
      List.Forall₂ Spells payloads streams := by
  rw [← List.forall₂_eq_eq_eq, List.forall₂_map_left_iff, List.forall₂_map_right_iff]
  simp only [Stream.read_eq_ok_iff (reads_read pad)]

/-- The payloads of a pad fail with the error of the first that breaks, at the place where it
does. -/
theorem readAll_eq_error_iff {pad : Pad} {payloads : List Bytes} {e : CodecError} :
    readAll pad payloads = .error e ↔ ∃ before payload after,
      payloads = before ++ payload :: after ∧ (∀ p ∈ before, ∃ events, Spells p events) ∧
        Breaks pad payload e := by
  have hmap : readAll pad payloads = .error e ↔
      payloads.mapM (Stream.read (read pad)) = .error e := by
    rw [readAll]
    cases payloads.mapM (Stream.read (read pad)) <;>
      simp [Bind.bind, Except.bind, Pure.pure, Except.pure]
  rw [hmap, Outcome.mapM_eq_error_iff]
  simp only [Stream.read_eq_ok_iff (reads_read pad),
    Stream.read_eq_error_iff (reads_read pad) fun _ _ => read_eq_error_iff]
  rfl

end PadEvent

/-- What the payloads of a pad mean. They are accepted exactly if each by itself is a sequence of
events, and then the track is drawn from all events in order; if not, the first event that is none
gives the error, whatever comes behind it. An opcode that there is not is one such event. -/
theorem Track.decode_draws (pad : Pad) (tempo : TempoMap τ) (palette : Palette)
    (payloads : List Bytes) :
    ((∃ track, decode pad tempo palette payloads = .ok track) ↔
      ∀ payload ∈ payloads, ∃ events, PadEvent.Spells payload events) ∧
    (∀ track, decode pad tempo palette payloads = .ok track ↔
      ∃ streams, List.Forall₂ PadEvent.Spells payloads streams ∧
        (Draft.ofEvents tempo palette streams.flatten).track = track) ∧
    (∀ e, decode pad tempo palette payloads = .error e ↔
      ∃ before payload after, payloads = before ++ payload :: after ∧
        (∀ p ∈ before, ∃ events, PadEvent.Spells p events) ∧ PadEvent.Breaks pad payload e) ∧
    ∀ before front events n delta opcode back after,
      payloads = before ++ (front ++ (delta ++ opcode :: back)) :: after →
      (∀ p ∈ before, ∃ events, PadEvent.Spells p events) → PadEvent.Spells front events →
      Varint.Readable n delta → PadEvent.fields? opcode = none →
      decode pad tempo palette payloads = .error (.unsupportedPadOpcode pad opcode) := by
  have hok : ∀ track, decode pad tempo palette payloads = .ok track ↔
      ∃ streams, List.Forall₂ PadEvent.Spells payloads streams ∧
        (Draft.ofEvents tempo palette streams.flatten).track = track := by
    intro track
    simp only [decode_eq_map, Outcome.map_eq_ok_iff, PadEvent.readAll_eq_ok_iff,
      PadEvent.read_payloads_iff, Draft.track_ofEvents]
    constructor
    · rintro ⟨_, ⟨streams, hspells, rfl⟩, rfl⟩
      exact ⟨streams, hspells, rfl⟩
    · rintro ⟨streams, hspells, rfl⟩
      exact ⟨_, ⟨streams, hspells, rfl⟩, rfl⟩
  have herror : ∀ e, decode pad tempo palette payloads = .error e ↔
      ∃ before payload after, payloads = before ++ payload :: after ∧
        (∀ p ∈ before, ∃ events, PadEvent.Spells p events) ∧ PadEvent.Breaks pad payload e := by
    intro e
    rw [← PadEvent.readAll_eq_error_iff, decode_eq_map]
    cases PadEvent.readAll pad payloads <;> simp [Except.map]
  refine ⟨?_, hok, herror, fun before front events n delta opcode back after hsplit hbefore hfront
    hdelta hopcode => (herror _).2 ?_⟩
  · have hstreams : (∃ track, decode pad tempo palette payloads = .ok track) ↔
        ∃ streams, List.Forall₂ PadEvent.Spells payloads streams := by
      simp only [hok]
      exact ⟨fun ⟨_, streams, hspells, _⟩ => ⟨streams, hspells⟩,
        fun ⟨streams, hspells⟩ => ⟨_, streams, hspells, rfl⟩⟩
    rw [hstreams]
    simp only [← PadEvent.read_payloads_iff pad, Outcome.exists_map_eq_iff,
      Stream.read_eq_ok_iff (PadEvent.reads_read pad)]
  · exact ⟨before, _, after, hsplit, hbefore, events, front, _, rfl, hfront,
      .event hdelta (.unsupported hopcode back)⟩

theorem Track.decode_draws_unknown :
    let tempo : TempoMap Binary64 := ⟨⟨0, Binary64.hundredth, ⟨0⟩⟩, []⟩
    let first : Bytes := [0x00, 0x14, 0x0A, 0x00]
    let front : Bytes := [0x80, 0x00, 0x1F, 0x07]
    PadEvent.Spells first [(0, .defaultTransition 10)] ∧
      PadEvent.Spells front [(0, .keyframe 7)] ∧ Varint.Readable 5 [0x05] ∧
      PadEvent.fields? 0x42 = none ∧
      decode .left tempo .default [first, front ++ [0x05, 0x42, 0x13], []] =
        .error (.unsupportedPadOpcode .left 0x42) := by
  intro tempo first front
  have hfirst : PadEvent.Spells first [(0, .defaultTransition 10)] := by
    have hdelta : Varint.Readable 0 [0x00] := ⟨.last (b := 0x00) (by decide), by decide⟩
    have htimed : Stream.Timed PadEvent.Form (0, .defaultTransition 10) first :=
      ⟨[0x00], _, rfl, hdelta, .defaultTransition 10⟩
    exact .cons htimed .nil
  have hfront : PadEvent.Spells front [(0, .keyframe 7)] := by
    have hdelta : Varint.Readable 0 [0x80, 0x00] :=
      ⟨.more (b := 0x80) (by decide) (.last (b := 0x00) (by decide)), by decide⟩
    have htimed : Stream.Timed PadEvent.Form (0, .keyframe 7) front :=
      ⟨[0x80, 0x00], _, rfl, hdelta, .keyframe 7⟩
    exact .cons htimed .nil
  have hdelta : Varint.Readable 5 [0x05] := ⟨.last (b := 0x05) (by decide), by decide⟩
  have hbefore : ∀ p ∈ [first], ∃ events, PadEvent.Spells p events := fun p hp =>
    ⟨_, List.mem_singleton.1 hp ▸ hfirst⟩
  obtain ⟨_, _, _, hunknown⟩ :=
    decode_draws .left tempo .default [first, front ++ [0x05, 0x42, 0x13], []]
  exact ⟨hfirst, hfront, hdelta, rfl,
    hunknown [first] front _ 5 [0x05] 0x42 [0x13] [[]] rfl hbefore hfront hdelta rfl⟩

end LightShow
