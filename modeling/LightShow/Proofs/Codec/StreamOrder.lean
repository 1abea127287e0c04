import LightShow.Proofs.Codec.Rendering
import LightShow.Proofs.Tempo.Monotone

namespace LightShow

/-- No event comes before the start. -/
theorem Stream.le_positions {ε : Type} {start : Int} {events : List (Nat × ε)} :
    ∀ event ∈ positions start events, start ≤ event.1 := by
  induction events generalizing start with
  | nil => simp [positions]
  | cons event rest ih =>
    intro later hlater
    rcases List.mem_cons.1 hlater with rfl | hlater
    · omega
    · have hle := ih later hlater
      omega

/-- Positions are in order, whatever the distances are. -/
theorem Stream.pairwise_positions {ε : Type} (start : Int) (events : List (Nat × ε)) :
    (positions start events).Pairwise fun a b => a.1 ≤ b.1 := by
  induction events generalizing start with
  | nil => exact .nil
  | cons event rest ih => exact .cons le_positions (ih _)

variable {τ : Type} [Clock τ]

/-- A command has the time of the tick of its event. -/
theorem PadEvent.time_command? {tempo : TempoMap τ} {palette : Palette} {default : UInt16}
    {tick : Int} {event : PadEvent} {command : Command τ}
    (h : event.command? tempo palette default tick = some command) :
    command.time = tempo.time tick := by
  have hgoOver (transition : UInt16) (colour : Colour) :
      (Command.goOver tempo tick transition colour).time = tempo.time tick := by
    rw [Command.goOver]
    split <;> rfl
  cases event with
  | switch =>
    obtain rfl := Option.some.inj h
    exact hgoOver _ _
  | fade =>
    obtain rfl := Option.some.inj h
    rfl
  | flash =>
    obtain rfl := Option.some.inj h
    rfl
  | blackout =>
    obtain rfl := Option.some.inj h
    exact hgoOver _ _
  | defaultTransition => cases h
  | keyframe => cases h

namespace Track

/-- Each command has the time of the tick of some event. -/
theorem time_of_mem_commandsFrom {tempo : TempoMap τ} {palette : Palette} {default : UInt16}
    {events : List (Int × PadEvent)} {command : Command τ}
    (h : command ∈ commandsFrom tempo palette default events) :
    ∃ event ∈ events, command.time = tempo.time event.1 := by
  induction events generalizing default with
  | nil => cases h
  | cons event rest ih =>
    rw [commandsFrom, List.mem_append, Option.mem_toList] at h
    rcases h with hhead | hrest
    · exact ⟨event, List.mem_cons_self, PadEvent.time_command? hhead⟩
    · obtain ⟨later, hlater, htime⟩ := ih hrest
      exact ⟨later, List.mem_cons_of_mem _ hlater, htime⟩

variable [MonotoneClock τ] {rate : Rate} {changes : List TempoEvent} {tempo : TempoMap τ}

/-- Each command stands at the time of its event, so commands come in order if events do. -/
theorem pairwise_commandsFrom (hbuild : TempoMap.build rate changes = .ok tempo)
    (palette : Palette) (default : UInt16) {events : List (Int × PadEvent)}
    (hstart : ∀ event ∈ events, 0 ≤ event.1) (hordered : events.Pairwise fun a b => a.1 ≤ b.1) :
    (commandsFrom tempo palette default events).Pairwise fun a b => commandLe a b = true := by
  induction events generalizing default with
  | nil => exact .nil
  | cons event rest ih =>
    rw [List.forall_mem_cons] at hstart
    rw [List.pairwise_cons] at hordered
    rw [commandsFrom, List.pairwise_append]
    refine ⟨?_, ih _ hstart.2 hordered.2, ?_⟩
    · cases event.2.command? tempo palette default event.1 with
      | none => exact .nil
      | some command => exact List.pairwise_singleton _ _
    · intro command hcommand later hlater
      obtain ⟨behind, hbehind, htime⟩ := time_of_mem_commandsFrom hlater
      rw [commandLe, PadEvent.time_command? (Option.mem_toList.1 hcommand), htime]
      exact TempoMap.time_mono hbuild hstart.1 (hordered.1 behind hbehind)

/-- The commands of a decoded track are those of its cues, one after another: they are in order of
time as they stand, so sorting leaves each in its place. -/
theorem exists_cues_of_decode (hbuild : TempoMap.build rate changes = .ok tempo) {pad : Pad}
    {palette : Palette} {payloads : List Bytes} {track : Track τ}
    (h : decode pad tempo palette payloads = .ok track) :
    ∃ events cues, PadEvent.readAll pad payloads = .ok events ∧
      Cue.ofEvents palette none events = .ok cues ∧
      (cues.mapM fun (tick, cue) => cue.command tempo tick) = .ok track.commands := by
  rw [decode_eq_map, Outcome.map_eq_ok_iff] at h
  obtain ⟨events, hevents, rfl⟩ := h
  have hplayable := PadEvent.playable_of_readAll hevents
  obtain ⟨cues, hcues, hcommands, _⟩ := exists_cues tempo palette none hplayable
  refine ⟨events, cues, hevents, hcues, ?_⟩
  obtain ⟨streams, _, rfl⟩ := PadEvent.readAll_eq_ok_iff.1 hevents
  have hsorted := pairwise_commandsFrom hbuild palette 0 (fun event hevent =>
    (hplayable event hevent).1) (Stream.pairwise_positions 0 streams.flatten)
  rw [hcommands, render, ofCommands, List.mergeSort_of_pairwise hsorted]
  rfl

/-- Decoding keeps the order of the stream. A later tick never comes at an earlier time, on
whichever sides of tempo changes the two may lie, so that the commands of a stream are in order of
time as they stand and sorting leaves each in its place. -/
theorem decode_keeps_order (hbuild : TempoMap.build rate changes = .ok tempo) :
    (∀ a b : Int, 0 ≤ a → a ≤ b → ∃ x y, tempo.secondsAt a = .ok x ∧ tempo.secondsAt b = .ok y ∧
      MonotoneClock.IsSpan x ∧ MonotoneClock.IsSpan y ∧ Clock.le x y = true) ∧
    ∀ pad palette payloads track, decode pad tempo palette payloads = .ok track →
      ∃ events cues, PadEvent.readAll pad payloads = .ok events ∧
        Cue.ofEvents palette none events = .ok cues ∧
        (cues.mapM fun (tick, cue) => cue.command tempo tick) = .ok track.commands := by
  refine ⟨fun a b ha hab => ?_, fun pad palette payloads track hdecode => ?_⟩
  · have hb := ha.trans hab
    exact ⟨_, _, tempo.secondsAt_of_nonneg ha, tempo.secondsAt_of_nonneg hb,
      TempoMap.isSpan_time hbuild ha, TempoMap.isSpan_time hbuild hb,
      TempoMap.time_mono hbuild ha hab⟩
  · exact exists_cues_of_decode hbuild hdecode

theorem decode_keeps_order_across_changes :
    let rate : Rate := ⟨500000, 960⟩
    let changes : List TempoEvent := [⟨9, .tempo 1⟩, ⟨4, .timebase 48⟩]
    let payloads : List Bytes :=
      [[0x03, 0x13, 0x00, 0x00, 0x00, 0x00], [0x02, 0x10, 0x01, 0x00, 0x20, 0x01, 0x02, 0x03, 0x00, 0x00]]
    ∃ tempo : TempoMap Binary64, TempoMap.build rate changes = .ok tempo ∧
      (∃ x y, tempo.secondsAt 3 = .ok x ∧ tempo.secondsAt 10 = .ok y ∧ Clock.le x y = true) ∧
      ∃ cues track, decode .left tempo .default payloads = .ok track ∧
        Cue.ofEvents .default none
          [(3, .blackout 0 0), (5, .switch 1 (.literal ⟨1, 2, 3⟩) 0)] = .ok cues ∧
        (cues.mapM fun (tick, cue) => cue.command tempo tick) = .ok track.commands := by
  intro rate changes payloads
  have hbase : rate.ticksPerBeat ≠ 0 := by decide
  have htempo : rate.microsecondsPerBeat ≠ 0 := by decide
  obtain ⟨tempo, hbuild⟩ : ∃ tempo : TempoMap Binary64, TempoMap.build rate changes = .ok tempo :=
    TempoMap.exists_build hbase htempo changes
  have hread : PadEvent.readAll .left payloads =
      .ok [(3, .blackout 0 0), (5, .switch 1 (.literal ⟨1, 2, 3⟩) 0)] := by decide +kernel
  have hdecode : ∃ track, decode .left tempo .default payloads = .ok track := by
    rw [decode_eq_map, hread]
    exact ⟨_, rfl⟩
  obtain ⟨track, hdecode⟩ := hdecode
  obtain ⟨htimes, horder⟩ := decode_keeps_order hbuild
  obtain ⟨x, y, hx, hy, _, _, hle⟩ := htimes 3 10 (by omega) (by omega)
  obtain ⟨events, cues, hevents, hcues, hcommands⟩ := horder _ _ _ _ hdecode
  obtain rfl := Except.ok.inj (hread.symm.trans hevents)
  exact ⟨tempo, hbuild, ⟨x, y, hx, hy, hle⟩, cues, track, hdecode, hcues, hcommands⟩

end Track

end LightShow
