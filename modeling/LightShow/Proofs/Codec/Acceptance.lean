import LightShow.Proofs.Codec.Chunk
import LightShow.Proofs.Codec.Program

namespace LightShow

namespace PadEvent

/-- The payload holds these events and nothing else. -/
abbrev StreamForm (events : List (Nat × PadEvent)) (payload : Bytes) : Prop :=
  Stream.Form Form events payload

/-- The payloads of a pad can be read if each of them can. -/
theorem exists_readAll_iff {pad : Pad} {payloads : List Bytes} :
    (∃ events, readAll pad payloads = .ok events) ↔
      ∀ payload ∈ payloads, ∃ events, StreamForm events payload := by
  simp only [readAll_eq_ok_iff, exists_comm (α := List (Int × PadEvent))]
  simp only [← Stream.read_eq_ok_iff (reads_read pad), exists_and_left, exists_eq', and_true,
    Outcome.exists_map_eq_iff]

/-- Reading a pad's payloads as one stream moves no event into or out of view. -/
theorem exists_shows_iff {pad : Pad} {payloads : List Bytes} {events : List (Int × PadEvent)}
    (h : readAll pad payloads = .ok events) :
    (∃ event ∈ events, event.2.shows = true) ↔
      ∃ payload ∈ payloads, ∃ stream, StreamForm stream payload ∧
        ∃ event ∈ stream, event.2.shows = true := by
  obtain ⟨streams, hstreams, rfl⟩ := readAll_eq_ok_iff.1 h
  have hevents : (∃ event ∈ Stream.positions 0 streams.flatten, event.2.shows = true) ↔
      ∃ e ∈ streams.flatten.map (·.2), e.shows = true := by
    rw [← Stream.map_snd_positions 0]
    constructor
    · rintro ⟨event, hmem, hshows⟩
      exact ⟨event.2, List.mem_map_of_mem hmem, hshows⟩
    · rintro ⟨_, he, hshows⟩
      obtain ⟨event, hmem, rfl⟩ := List.mem_map.1 he
      exact ⟨event, hmem, hshows⟩
  rw [hevents]
  simp only [List.mem_map, List.mem_flatten, Outcome.mem_of_map_eq hstreams,
    Stream.read_eq_ok_iff (reads_read pad)]
  constructor
  · rintro ⟨_, ⟨event, ⟨stream, ⟨payload, hpayload, hform⟩, hmem⟩, rfl⟩, hshows⟩
    exact ⟨payload, hpayload, stream, hform, event, hmem, hshows⟩
  · rintro ⟨payload, hpayload, stream, hform, event, hmem, hshows⟩
    exact ⟨_, ⟨event, ⟨stream, ⟨payload, hpayload, hform⟩, hmem⟩, rfl⟩, hshows⟩

end PadEvent

/-- Chunks that make a show: one header, tempo and pad streams without a fault, a first palette that
is complete, and something to see. Nothing is asked of chunks with other tags, nor of palettes
behind the first. -/
structure Chunk.MakeShow (chunks : List Chunk) : Prop where
  header : ∃ header payload, Container.tagged .head chunks = [payload] ∧ Header.Form header payload
  tempo : ∀ payload ∈ Container.tagged .temp chunks, ∃ changes, TempoEvent.Form changes payload
  palette : ∀ payload, (Container.tagged .pal0 chunks).head? = some payload →
    PaletteDraft.Complete payload
  pads : ∀ p, ∀ payload ∈ Container.tagged (.ofPad p) chunks,
    ∃ events, PadEvent.StreamForm events payload
  shows : ∃ p, ∃ payload ∈ Container.tagged (.ofPad p) chunks, ∃ events,
    PadEvent.StreamForm events payload ∧ ∃ event ∈ events, event.2.shows = true

variable {τ : Type} [Clock τ]

namespace Container

/-- Chunks that lead to a program have all that a show needs. -/
theorem makeShow_of_program {chunks : List Chunk} {c : Container} {program : Program τ}
    (hcollects : Collects .empty chunks c) (hprogram : c.program = .ok program) :
    Chunk.MakeShow chunks := by
  obtain ⟨header, tempo, events, hheader, _, hevents, hany, _⟩ := program_eq_ok_iff.1 hprogram
  have hpads (p : Pad) : c.pads.get p = tagged (.ofPad p) chunks := by
    rw [hcollects.pads, payloads_eq_tagged rfl]
    exact (congrArg (· ++ _) (PerPad.get_const [] p)).trans (List.nil_append _)
  simp only [hpads] at hevents
  refine ⟨?_, ?_, ?_, fun p => ?_, ?_⟩
  · have hcollected := hcollects.header
    rw [hheader, payloads_eq_tagged rfl] at hcollected
    obtain ⟨payload, hsingle, hform⟩ := foldlM_takeHeader_eq_some_iff.1 hcollected
    exact ⟨header, payload, hsingle, hform⟩
  · have hcollected := hcollects.tempo
    rw [payloads_eq_tagged rfl] at hcollected
    obtain ⟨parts, hparts, _⟩ := foldlM_takeTempo_eq_ok_iff.1 hcollected
    intro payload hpayload
    obtain ⟨part, hpart⟩ := Outcome.exists_map_eq_iff.1 ⟨parts, hparts⟩ payload hpayload
    obtain ⟨changes, hform, _⟩ := TempoEvent.readAll_eq_ok_iff.1 hpart
    exact ⟨changes, hform⟩
  · have hcollected := hcollects.palette
    rw [payloads_eq_tagged rfl] at hcollected
    exact (foldlM_takePalette_eq_ok_iff.1 hcollected).1
  · exact PadEvent.exists_readAll_iff.1 ⟨_, hevents p⟩
  · obtain ⟨p, hshows⟩ := anyShows_iff.1 hany
    exact ⟨p, (PadEvent.exists_shows_iff (hevents p)).1 hshows⟩

/-- Chunks that have all that a show needs lead to a program: none of the demands is left that could
fail. -/
theorem exists_program_of_makeShow {chunks : List Chunk} (h : Chunk.MakeShow chunks) :
    ∃ (program : Program τ) (c : _), Collects .empty chunks c ∧ c.program = .ok program := by
  obtain ⟨⟨header, payload, hsingle, hform⟩, htempo, hpalette, hpads, p, hshows⟩ := h
  have hparts : ∀ payload ∈ tagged .temp chunks,
      ∃ events, TempoEvent.readAll payload = .ok events := by
    intro payload hpayload
    obtain ⟨changes, hform⟩ := htempo payload hpayload
    exact ⟨_, TempoEvent.readAll_eq_ok_iff.2 ⟨changes, hform, rfl⟩⟩
  obtain ⟨parts, hparts⟩ := Outcome.exists_map_eq_iff.2 hparts
  have hread (p : Pad) : ∃ events, PadEvent.readAll p (tagged (.ofPad p) chunks) = .ok events :=
    PadEvent.exists_readAll_iff.2 (hpads p)
  obtain ⟨events, hevents⟩ := Classical.axiomOfChoice hread
  let rate : Rate := ⟨header.microsecondsPerBeat, header.ticksPerBeat⟩
  obtain ⟨tempo, hbuild⟩ : ∃ tempo : TempoMap τ, TempoMap.build rate parts.flatten = .ok tempo :=
    TempoMap.exists_build hform.1.ticksPerBeat hform.1.microsecondsPerBeat _
  obtain ⟨draft, hdraft⟩ : ∃ draft, (tagged .pal0 chunks).foldlM takePalette .new = .ok draft :=
    ⟨_, foldlM_takePalette_eq_ok_iff.2 ⟨hpalette, rfl⟩⟩
  have hany : anyShows events = true :=
    anyShows_iff.2 ⟨p, (PadEvent.exists_shows_iff (hevents p)).2 hshows⟩
  let pads := PerPad.ofFn fun p => tagged (.ofPad p) chunks
  refine ⟨.render tempo draft.palette events, ⟨some header, parts.flatten, draft, pads⟩,
    ⟨?_, ?_, ?_, fun p => ?_⟩, ?_⟩
  · rw [payloads_eq_tagged rfl]
    exact foldlM_takeHeader_eq_some_iff.2 ⟨payload, hsingle, hform⟩
  · rw [payloads_eq_tagged rfl]
    exact foldlM_takeTempo_eq_ok_iff.2 ⟨parts, hparts, List.nil_append _⟩
  · rw [payloads_eq_tagged rfl]
    exact hdraft
  · rw [payloads_eq_tagged rfl, PerPad.get_ofFn]
    exact (congrArg (· ++ _) (PerPad.get_const [] p).symm).trans rfl
  · refine program_eq_ok_iff.2 ⟨header, tempo, events, rfl, hbuild, fun p => ?_, hany, rfl⟩
    rw [PerPad.get_ofFn]
    exact hevents p

end Container

/-- A file holds a program exactly if it is made of chunks one after another that make a show.
Nothing that a decoder checks behind the grammar of the chunks can refuse a file. -/
theorem Program.exists_parse_iff {data : Bytes} :
    (∃ program : Program τ, parse data = .ok program) ↔
      ∃ chunks, data = chunks.flatMap Chunk.encode ∧ (∀ c ∈ chunks, c.Framable) ∧
        Chunk.MakeShow chunks := by
  simp only [parse_eq_ok_iff, Chunk.readAll_eq_ok_iff]
  constructor
  · rintro ⟨program, chunks, c, ⟨hdata, hframable⟩, hcollects, hprogram⟩
    exact ⟨chunks, hdata, hframable, Container.makeShow_of_program hcollects hprogram⟩
  · rintro ⟨chunks, hdata, hframable, hshow⟩
    exact (Container.exists_program_of_makeShow hshow).imp fun program ⟨c, hcollects, hprogram⟩ =>
      ⟨chunks, c, ⟨hdata, hframable⟩, hcollects, hprogram⟩

end LightShow
