import LightShow.Proofs.Codec.Parts
import LightShow.Proofs.Codec.Rendering

namespace LightShow

variable {τ : Type} [Clock τ]

/-- True if some pad has an event that shows something. -/
def anyShows (events : Pad → List (Int × PadEvent)) : Bool :=
  Pad.all.any fun p => (events p).any fun event => event.2.shows

/-- There is a program if some event of some pad shows anything. -/
theorem anyShows_iff {events : Pad → List (Int × PadEvent)} :
    anyShows events = true ↔ ∃ p, ∃ event ∈ events p, event.2.shows = true := by
  simp only [anyShows, List.any_eq_true, Pad.mem_all, true_and]

/-- The program that the events of the pads describe: a track for each pad on which something is
shown. -/
def Program.render (tempo : TempoMap τ) (palette : Palette) (events : Pad → List (Int × PadEvent)) :
    Program τ where
  tracks := .ofFn fun p =>
    if (events p).any fun event => event.2.shows then some (.render tempo palette (events p))
    else none

/-- A pad has a track exactly if one of its events shows something. -/
@[simp] theorem Program.track_render (tempo : TempoMap τ) (palette : Palette)
    (events : Pad → List (Int × PadEvent)) (p : Pad) :
    (render tempo palette events).track p =
      if (events p).any fun event => event.2.shows then some (.render tempo palette (events p))
      else none := by
  rw [track, render, PerPad.get_ofFn]

/-- A program is empty if no event of any pad shows anything. -/
theorem Program.isEmpty_render (tempo : TempoMap τ) (palette : Palette)
    (events : Pad → List (Int × PadEvent)) :
    (render tempo palette events).isEmpty = !anyShows events := by
  rw [Bool.eq_iff_iff, Bool.not_eq_true', ← Bool.not_eq_true, anyShows_iff]
  simp only [isEmpty, pads, List.isEmpty_iff, List.eq_nil_iff_forall_not_mem, PerPad.mem_pads,
    not_exists]
  refine forall_congr' fun p => ?_
  have htrack : (render tempo palette events).tracks.get p =
      (render tempo palette events).track p := rfl
  rw [htrack, track_render]
  split
  next hany =>
    simp only [List.any_eq_true] at hany
    simpa using hany
  next hnone =>
    simp only [List.any_eq_true, not_exists] at hnone
    simpa using hnone

namespace Container

/-- The track of a pad is rendered from the events that its payloads hold. -/
theorem track?_eq (c : Container) (tempo : TempoMap τ) (p : Pad) :
    c.track? tempo p = (PadEvent.readAll p (c.pads.get p)).map fun events =>
      if events.any fun event => event.2.shows then some (.render tempo c.palette.palette events)
      else none := by
  rw [track?, Track.decode_eq_map]
  cases PadEvent.readAll p (c.pads.get p) with
  | error e => rfl
  | ok events =>
    simp only [Except.map, Bind.bind, Except.bind, Pure.pure, Except.pure, Track.isEmpty_render]
    cases events.any fun event => event.2.shows <;> rfl

/-- What a container makes, once its parts have been read. -/
theorem program_eq {c : Container} {header : Header} {tempo : TempoMap τ}
    {events : Pad → List (Int × PadEvent)} (hheader : c.header = some header)
    (htempo : TempoMap.build ⟨header.microsecondsPerBeat, header.ticksPerBeat⟩ c.tempo = .ok tempo)
    (hevents : ∀ p, PadEvent.readAll p (c.pads.get p) = .ok (events p)) :
    c.program = if anyShows events then .ok (.render tempo c.palette.palette events)
      else .error .noPadTracks := by
  have hempty := Program.isEmpty_render tempo c.palette.palette events
  simp only [program, hheader, htempo, track?_eq, hevents, Except.map, Bind.bind, Except.bind]
  change (if (Program.render tempo c.palette.palette events).isEmpty = true then _ else _) = _
  rw [hempty]
  cases anyShows events <;> rfl

/-- A container has a program exactly if it has a header, the tempo map is built on its rate, all of
its pads can be read, and one of them shows something. The program is rendered from these. -/
theorem program_eq_ok_iff {c : Container} {program : Program τ} :
    c.program = .ok program ↔
      ∃ header tempo events, c.header = some header ∧
        TempoMap.build ⟨header.microsecondsPerBeat, header.ticksPerBeat⟩ c.tempo = .ok tempo ∧
        (∀ p, PadEvent.readAll p (c.pads.get p) = .ok (events p)) ∧ anyShows events = true ∧
        Program.render tempo c.palette.palette events = program := by
  constructor
  · intro h
    have hopen := h
    rw [Container.program] at hopen
    split at hopen
    next header hheader =>
      simp only [Outcome.bind_eq_ok_iff, track?_eq, Outcome.map_eq_ok_iff] at hopen
      obtain ⟨tempo, htempo, _, ⟨centre, hcentre, _⟩, _, ⟨left, hleft, _⟩, _, ⟨right, hright, _⟩,
        _⟩ := hopen
      let events : Pad → List (Int × PadEvent) := (PerPad.mk centre left right).get
      have hevents (p : Pad) : PadEvent.readAll p (c.pads.get p) = .ok (events p) := by
        cases p with
        | centre => exact hcentre
        | left => exact hleft
        | right => exact hright
      rw [program_eq hheader htempo hevents] at h
      split at h
      next hany => exact ⟨header, tempo, events, hheader, htempo, hevents, hany, Except.ok.inj h⟩
      next => cases h
    next => cases hopen
  · rintro ⟨header, tempo, events, hheader, htempo, hevents, hany, rfl⟩
    rw [program_eq hheader htempo hevents, if_pos hany]

end Container

/-- What is parsed is the program of the container that the chunks lead to. -/
theorem Program.parse_eq {data : Bytes} {chunks : List Chunk} {c : Container}
    (hchunks : Chunk.readAll data = .ok chunks) (hcollects : Container.Collects .empty chunks c) :
    (parse data : Except CodecError (Program τ)) = c.program := by
  simp only [parse, hchunks, Container.ofChunks, Container.foldlM_add_eq_ok_iff.2 hcollects,
    Bind.bind, Except.bind]

/-- A file holds a program exactly if its chunks can be taken in and make that program. -/
theorem Program.parse_eq_ok_iff {data : Bytes} {program : Program τ} :
    parse data = .ok program ↔
      ∃ chunks c, Chunk.readAll data = .ok chunks ∧ Container.Collects .empty chunks c ∧
        c.program = .ok program := by
  simp only [parse, Outcome.bind_eq_ok_iff, Container.ofChunks, Container.foldlM_add_eq_ok_iff]
  constructor
  · rintro ⟨chunks, hchunks, c, hc, hprogram⟩
    exact ⟨chunks, c, hchunks, hc, hprogram⟩
  · rintro ⟨chunks, c, hchunks, hc, hprogram⟩
    exact ⟨chunks, hchunks, c, hc, hprogram⟩

end LightShow
