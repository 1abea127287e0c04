import LightShow.Proofs.Codec.Program
import LightShow.Proofs.Codec.StreamOrder

namespace LightShow

theorem one_le_max_one (n : UInt8) : 1 ≤ max n 1 := by
  change 1 ≤ if n ≤ 1 then 1 else n
  split
  next => exact UInt8.le_refl 1
  next h => exact UInt8.le_of_lt (UInt8.not_le.1 h)

/-- A number of units that has been clamped is at least one. -/
theorem clampUnits_ne_zero (n : Nat) : clampUnits n ≠ 0 := by
  intro h
  have hvalue := congrArg UInt8.toNat h
  rw [clampUnits, UInt8.toNat_ofNat', Nat.mod_eq_of_lt (by omega)] at hvalue
  have hpos : 0 < max 1 (min 255 n) := by omega
  exact hpos.ne' hvalue

open MonotoneClock (IsSpan)

/-- A clock on which a span comes to no units only if it ends at the time at which it starts. -/
class SeparatingClock (τ : Type) [Clock τ] extends MonotoneClock τ where
  units_sub_eq_zero_iff {x y : τ} : IsSpan x → IsSpan y → Clock.le x y = true →
    (Clock.units (y - x) = 0 ↔ y = x)

instance : SeparatingClock ℚ where
  units_sub_eq_zero_iff {x y} _ _ h := by
    have hle : x ≤ y := Clock.le_rat_iff.1 h
    have hunits : Clock.units (y - x) =
        if 0 < y - x then clampUnits (roundHalfEven ((y - x).num.natAbs * 100) (y - x).den)
        else 0 := rfl
    rw [hunits]
    split_ifs with hlt
    · exact iff_of_false (clampUnits_ne_zero _) (sub_pos.1 hlt).ne'
    · exact iff_of_true rfl (le_antisymm (sub_nonpos.1 (not_lt.1 hlt)) hle)

/-- A span comes to no units exactly if it is not positive: any positive one is raised to one
unit. -/
theorem Binary64.units_eq_zero_iff {x : Binary64} : units x = 0 ↔ x.isPositive = false := by
  rw [units]
  split
  next hpos => exact iff_of_false (clampUnits_ne_zero _) (by rw [hpos]; decide)
  next hpos => exact iff_of_true rfl (Bool.not_eq_true _ ▸ hpos)

instance : SeparatingClock Binary64 where
  units_sub_eq_zero_iff hx hy h := by
    have hsub := Binary64.isPositive_sub_iff hx hy ((hx.totalLe_iff hy).1 h)
    refine Binary64.units_eq_zero_iff.trans ?_
    rw [← Bool.not_eq_true, hsub, not_not]

variable {τ : Type} [Clock τ]

/-- The lengths and the counts of a command are such as an actuator takes: none of them is zero, and
as bytes they do not exceed 255. -/
def Command.InRange : Command τ → Prop
  | switch _ _ => True
  | fade _ _ pulseTime pulseCount => 1 ≤ pulseTime ∧ 1 ≤ pulseCount
  | flash _ _ onLength offLength pulseCount => 1 ≤ onLength ∧ 1 ≤ offLength ∧ 1 ≤ pulseCount

/-- The cue goes over to its colour in some ticks that take no time: by rounding, they end when they
start. -/
def Cue.Vanishes (tempo : TempoMap τ) (tick : Int) : Cue → Prop
  | switch transition _ _ =>
    transition ≠ 0 ∧ tempo.secondsAt (tick + transition.toNat) = tempo.secondsAt tick
  | fade _ _ _ _ => False
  | flash _ _ _ _ _ => False

/-- A command is made at no tick below zero. -/
theorem Cue.nonneg_of_command {tempo : TempoMap τ} {tick : Int} {cue : Cue} {command : Command τ}
    (h : cue.command tempo tick = .ok command) : 0 ≤ tick := by
  by_contra hneg
  have herror : tempo.secondsAt tick = .error (.invalidRequest (.negativeTick tick)) := by
    rw [TempoMap.secondsAt, if_pos (by omega)]
  cases cue <;> simp [Cue.command, herror, Bind.bind, Except.bind] at h

section

variable [SeparatingClock τ] {rate : Rate} {changes : List TempoEvent} {tempo : TempoMap τ}

/-- A length comes to no units exactly if rounding has brought both of its ends to one time. -/
theorem TempoMap.units_span_eq_zero_iff (hbuild : build rate changes = .ok tempo) {tick : Int}
    (htick : 0 ≤ tick) (length : Nat) :
    Clock.units (tempo.span tick length) = 0 ↔
      tempo.secondsAt (tick + length) = tempo.secondsAt tick := by
  have hstop : 0 ≤ tick + (length : Int) := by omega
  rw [tempo.secondsAt_of_nonneg htick, tempo.secondsAt_of_nonneg hstop, Except.ok.injEq]
  exact SeparatingClock.units_sub_eq_zero_iff (isSpan_time hbuild htick) (isSpan_time hbuild hstop)
    (time_mono hbuild htick (by omega))

/-- A fade or a flash that an event asks for is kept within the range in any case. A transition is
kept only as far as it takes some time. -/
theorem Cue.inRange_command_iff (hbuild : TempoMap.build rate changes = .ok tempo) {tick : Int}
    {cue : Cue} {command : Command τ} (h : cue.command tempo tick = .ok command) :
    command.InRange ↔ ¬ cue.Vanishes tempo tick := by
  have htick := nonneg_of_command h
  simp only [Cue.command, tempo.secondsAt_of_nonneg htick, tempo.secondsBetween_of_nonneg htick,
    Bind.bind, Except.bind] at h
  cases cue with
  | switch transition colour hold =>
    simp only at h
    split at h
    next hzero =>
      obtain rfl := Except.ok.inj h
      exact iff_of_true trivial fun hvanishes => hvanishes.1 hzero
    next hsome =>
      obtain rfl := Except.ok.inj h
      have hspan := TempoMap.units_span_eq_zero_iff hbuild htick transition.toNat
      have hpositive (n : UInt8) : 1 ≤ n ↔ ¬ n = 0 := UInt8.pos_iff_ne_zero
      simp only [Command.InRange, Vanishes, hpositive, hspan, ne_eq, hsome, not_false_iff, true_and]
      exact and_iff_left (by decide)
  | fade ramp pulses colour hold =>
    obtain rfl := Except.ok.inj h
    exact iff_of_true ⟨one_le_max_one _, one_le_max_one _⟩ id
  | flash on off pulses colour hold =>
    obtain rfl := Except.ok.inj h
    exact iff_of_true ⟨one_le_max_one _, one_le_max_one _, one_le_max_one _⟩ id

end

/-- A track of a program is what the payloads of its pad decode to. -/
theorem Container.decode_of_program {c : Container} {program : Program τ} {header : Header}
    {tempo : TempoMap τ} (hprogram : c.program = .ok program) (hheader : c.header = some header)
    (htempo : TempoMap.build ⟨header.microsecondsPerBeat, header.ticksPerBeat⟩ c.tempo = .ok tempo)
    {p : Pad} {track : Track τ} (htrack : program.track p = some track) :
    Track.decode p tempo c.palette.palette (c.pads.get p) = .ok track := by
  obtain ⟨_, _, events, hheader', htempo', hevents, _, rfl⟩ := program_eq_ok_iff.1 hprogram
  obtain rfl := Option.some.inj (hheader.symm.trans hheader')
  obtain rfl := Except.ok.inj (htempo.symm.trans htempo')
  rw [Program.track_render, Option.ite_none_right_eq_some] at htrack
  rw [Track.decode_eq_map, hevents p]
  exact congrArg Except.ok (Option.some.inj htrack.2)

/-- What a file has its pads do, against what an actuator takes. The commands of each track are
those of its cues, in order, and each is within the range unless it is a transition that rounding
leaves no time: one of some ticks at whose end the clock still shows the time of its start. -/
theorem Program.parse_inRange_iff [SeparatingClock τ] {data : Bytes} {program : Program τ}
    (h : parse data = .ok program) :
    ∃ chunks c header tempo, Chunk.readAll data = .ok chunks ∧
      Container.ofChunks chunks = .ok c ∧ c.header = some header ∧
      TempoMap.build ⟨header.microsecondsPerBeat, header.ticksPerBeat⟩ c.tempo = .ok tempo ∧
      ∀ p track, program.track p = some track →
        ∃ events cues, PadEvent.readAll p (c.pads.get p) = .ok events ∧
          Cue.ofEvents c.palette.palette none events = .ok cues ∧
          (cues.mapM fun (tick, cue) => cue.command tempo tick) = .ok track.commands ∧
          ∀ tick cue command, (tick, cue) ∈ cues → cue.command tempo tick = .ok command →
            (command.InRange ↔ ¬ cue.Vanishes tempo tick) := by
  obtain ⟨chunks, c, hchunks, hcollects, hprogram⟩ := parse_eq_ok_iff.1 h
  obtain ⟨header, tempo, _, hheader, htempo, _⟩ := Container.program_eq_ok_iff.1 hprogram
  refine ⟨chunks, c, header, tempo, hchunks, Container.foldlM_add_eq_ok_iff.2 hcollects, hheader,
    htempo, fun p track htrack => ?_⟩
  obtain ⟨events, cues, hevents, hcues, hcommands⟩ := Track.exists_cues_of_decode htempo
    (Container.decode_of_program hprogram hheader htempo htrack)
  exact ⟨events, cues, hevents, hcues, hcommands, fun _ _ _ _ hcommand =>
    Cue.inRange_command_iff htempo hcommand⟩

/-- A file with a transition of one tick. The ticks before it take three days, and those behind them
so little each that one is lost beside the time that has passed. -/
def distantFile : Bytes :=
  [0x48, 0x45, 0x41, 0x44, 0x10, 0x00, 0x00, 0x00, 0x46, 0x54, 0x53, 0x4C, 0x01, 0x00, 0xFF, 0xFF,
    0xFF, 0xFF, 0xFF, 0xFF, 0x01, 0x00, 0x00, 0x00] ++
  [0x54, 0x45, 0x4D, 0x50, 0x09, 0x00, 0x00, 0x00, 0x80, 0x80, 0x80, 0x02, 0x01, 0x01, 0x00, 0x00,
    0x00] ++
  [0x50, 0x41, 0x44, 0x30, 0x0A, 0x00, 0x00, 0x00, 0x80, 0x80, 0x80, 0x02, 0x10, 0x01, 0x00, 0x01,
    0x00, 0x00]

/-- In the distant file a fade of one tick starts so late that its length is lost: its pulse is zero
units long. -/
theorem parse_distantFile :
    Program.parse distantFile =
      .ok (⟨⟨some ⟨[.fade ⟨0x4110C70867AD8E44⟩ .white 0 1], ⟨0x4110C70867AD8E44⟩⟩, none, none⟩⟩ :
        Show) := by
  decide +kernel

theorem Program.parse_inRange_iff_distant :
    ∃ program : Show, parse distantFile = .ok program ∧
      ∃ (tempo : TempoMap Binary64) (track : Track Binary64) (cues : List (Int × Cue)),
        program.track .centre = some track ∧
          (cues.mapM fun (tick, cue) => cue.command tempo tick) = .ok track.commands ∧
          ∃ tick cue, (tick, cue) ∈ cues ∧ cue.Vanishes tempo tick := by
  obtain ⟨_, _, _, tempo, _, _, _, _, htracks⟩ := parse_inRange_iff parse_distantFile
  obtain ⟨_, cues, _, _, hmade, hranges⟩ := htracks .centre _ rfl
  refine ⟨_, parse_distantFile, tempo, _, cues, rfl, hmade, ?_⟩
  obtain ⟨⟨tick, cue⟩, hcue, hcommand⟩ :=
    (Outcome.mem_of_map_eq (Outcome.mapM_eq_ok_iff.1 hmade)).1 List.mem_cons_self
  refine ⟨tick, cue, hcue, ?_⟩
  by_contra hnot
  have hrange : (1 : UInt8) ≤ 0 := ((hranges tick cue _ hcue hcommand).2 hnot).1
  exact absurd hrange (by decide)

/-- Not every file keeps within the range: the pulse of a transition may come to no units. -/
theorem Program.not_always_inRange :
    ¬ ∀ (data : Bytes) (program : Show) (p : Pad) (track : Track Binary64)
      (command : Command Binary64), parse data = .ok program → program.track p = some track →
      command ∈ track.commands → command.InRange := by
  intro h
  have hrange := h distantFile _ .centre _ _ parse_distantFile rfl List.mem_cons_self
  exact absurd hrange.1 (by decide)

/-- Exact time leaves every transition some time. -/
theorem Cue.not_vanishes_of_exact {rate : Rate} {changes : List TempoEvent} {tempo : TempoMap ℚ}
    (hbuild : TempoMap.build rate changes = .ok tempo) {tick : Int} (htick : 0 ≤ tick) (cue : Cue) :
    ¬ cue.Vanishes tempo tick := by
  cases cue with
  | switch transition colour hold =>
    rintro ⟨hsome, hvanishes⟩
    have hlength : 0 < transition.toNat := Nat.pos_of_ne_zero fun hzero => hsome (UInt16.toNat_inj.1 hzero)
    have hlt : tempo.time tick < tempo.time (tick + transition.toNat) :=
      TempoMap.time_lt hbuild htick (by omega)
    rw [tempo.secondsAt_of_nonneg htick, tempo.secondsAt_of_nonneg (by omega),
      Except.ok.injEq] at hvanishes
    exact hlt.ne' hvanishes
  | fade => exact id
  | flash => exact id

/-- With exact time all commands of a file are within the range. -/
theorem Program.inRange_of_exact {data : Bytes} {program : Program ℚ}
    (h : parse data = .ok program) {p : Pad} {track : Track ℚ} (htrack : program.track p = some track)
    {command : Command ℚ} (hcommand : command ∈ track.commands) : command.InRange := by
  obtain ⟨_, c, _, _, hprogram⟩ := parse_eq_ok_iff.1 h
  obtain ⟨header, tempo, _, hheader, htempo, _⟩ := Container.program_eq_ok_iff.1 hprogram
  obtain ⟨_, cues, _, _, hcommands⟩ := Track.exists_cues_of_decode htempo
    (Container.decode_of_program hprogram hheader htempo htrack)
  obtain ⟨cue, _, hcue⟩ :=
    (Outcome.mem_of_map_eq (Outcome.mapM_eq_ok_iff.1 hcommands)).1 hcommand
  exact (Cue.inRange_command_iff htempo hcue).2
    (Cue.not_vanishes_of_exact htempo (Cue.nonneg_of_command hcue) cue.2)

end LightShow
