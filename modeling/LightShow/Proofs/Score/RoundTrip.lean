import LightShow.Proofs.Codec.Chunk
import LightShow.Proofs.Codec.Program
import LightShow.Proofs.Score.Entry
import LightShow.Proofs.Score.Length

namespace LightShow

namespace TempoEvent

/-- A change as it was written down. -/
def ofWritten (change : UInt32 × TempoChange) : TempoEvent := ⟨change.1.toNat, change.2⟩

/-- Changes of tempo are read back as they were written, put in order. -/
theorem readAll_encode (changes : List (UInt32 × TempoChange)) :
    readAll (Stream.encode TempoChange.encode changes) =
      .ok ((Stream.inOrder changes).map ofWritten) := by
  refine readAll_eq_ok_iff.2 ⟨_, Stream.form_encode fun _ _ => rfl, ?_⟩
  rw [ofChanges, Stream.positions_distances_inOrder, Stream.scheduled, List.map_map]
  rfl

end TempoEvent

/-- Putting changes in order before they reach the tempo map makes no difference to it. -/
theorem TempoMap.inOrder_map_inOrder (changes : List (UInt32 × TempoChange)) :
    inOrder ((Stream.inOrder changes).map TempoEvent.ofWritten) =
      inOrder (changes.map TempoEvent.ofWritten) := by
  have hle (a b : UInt32 × TempoChange) : decide (a.1 ≤ b.1) =
      decide ((TempoEvent.ofWritten a).tick ≤ (TempoEvent.ofWritten b).tick) := by
    simp only [TempoEvent.ofWritten, UInt32.le_iff_toNat_le, Int.ofNat_le]
  have hsorted : inOrder (changes.map TempoEvent.ofWritten) =
      (Stream.inOrder changes).map TempoEvent.ofWritten :=
    (List.map_mergeSort fun a _ b _ => hle a b).symm
  rw [hsorted]
  apply List.mergeSort_of_pairwise
  rw [List.pairwise_map]
  refine (Stream.orderedFrom_inOrder changes).2.imp fun {a b} h => ?_
  rw [← hle]
  exact decide_eq_true h

namespace PadEvent

/-- The stream of a pad is read as it was written, and no stream is as good as an empty one. -/
theorem readAll_encode (p : Pad) {events? : Option PadScore}
    (h : ∀ event ∈ events?.getD [], event.2.InTable) :
    readAll p (events?.map PadScore.encode).toList = .ok (Stream.scheduled (events?.getD [])) := by
  rw [readAll_eq_ok_iff]
  cases events? with
  | none => exact ⟨[], rfl, Stream.scheduled_nil.symm⟩
  | some events =>
    have hform := Stream.form_encode fun event hevent => form_encode (h event hevent)
    refine ⟨[Stream.distances 0 (Stream.inOrder events)], ?_, ?_⟩
    · have hread := (Stream.read_eq_ok_iff (reads_read p)).2 hform
      exact congrArg (fun outcome => [outcome]) hread
    · rw [List.flatten_singleton]
      exact Stream.positions_distances_inOrder events

end PadEvent

variable {τ : Type} [Clock τ]

namespace Score

open Container (payloads payloads_append payloads_singleton)

theorem kind_ofPad (p : Pad) : (Tag.ofPad p).kind = .pad p :=
  (Tag.kind_eq_iff rfl).2 rfl

/-- Of the streams only that of the pad has its kind. -/
theorem payloads_streams (kind : ChunkKind) (streams : List (Pad × PadScore)) :
    payloads kind (streams.map fun (p, events) => ⟨.ofPad p, PadScore.encode events⟩) =
      (streams.filter fun stream => .pad stream.1 = kind).map fun stream => stream.2.encode := by
  induction streams with
  | nil => rfl
  | cons stream rest ih =>
    rw [List.map_cons, ← List.singleton_append, payloads_append, payloads_singleton, ih,
      kind_ofPad, List.filter_cons]
    by_cases h : .pad stream.1 = kind
    · simp [h]
    · simp [h]

/-- A pad has one stream at most. -/
theorem filter_entries (streams : PerPad (Option PadScore)) (p : Pad) :
    (streams.entries.filter fun stream => stream.1 = p).map (·.2) = (streams.get p).toList := by
  obtain ⟨centre, left, right⟩ := streams
  cases p <;> cases centre <;> cases left <;> cases right <;> rfl

/-- The payloads of a kind, among all that a score writes. -/
theorem payloads_chunks (s : Score) (kind : ChunkKind) :
    payloads kind s.chunks =
      (if .head = kind then [s.header.encode] else []) ++
      (if s.overrideList ≠ [] ∧ .palette = kind then [s.palettePayload] else []) ++
      (if .tempo = kind then [Stream.encode TempoChange.encode s.tempo] else []) ++
      (s.pads.entries.filter fun stream => .pad stream.1 = kind).map fun stream =>
        stream.2.encode := by
  have hpalette : payloads kind (if s.overrideList = [] then [] else [⟨.pal0, s.palettePayload⟩]) =
      if s.overrideList ≠ [] ∧ .palette = kind then [s.palettePayload] else [] := by
    by_cases h : s.overrideList = []
    · rw [if_pos h, if_neg fun hboth => hboth.1 h]
      rfl
    · rw [if_neg h, payloads_singleton]
      simp only [ne_eq, h, not_false_eq_true, true_and]
      rfl
  rw [chunks, payloads_append, payloads_append, payloads_append, payloads_singleton,
    payloads_singleton, payloads_streams, hpalette]
  rfl

/-- A finished file has one tempo chunk, whatever was entered. -/
theorem payloads_tempo_chunks (s : Score) :
    payloads .tempo s.chunks = [Stream.encode TempoChange.encode s.tempo] := by
  simp [payloads_chunks]

/-- A pad has a chunk if it has a stream, and then just one. -/
theorem payloads_pad_chunks (s : Score) (p : Pad) :
    payloads (.pad p) s.chunks = ((s.pads.get p).map PadScore.encode).toList := by
  have hencode := congrArg (List.map PadScore.encode) (filter_entries s.pads p)
  rw [List.map_map] at hencode
  simp only [payloads_chunks, reduceCtorEq, and_false, if_false, List.nil_append,
    ChunkKind.pad.injEq]
  refine Eq.trans hencode ?_
  cases s.pads.get p <;> rfl

/-- What a score's file leads to when its chunks are taken in. -/
def container (s : Score) : Container where
  header := some s.header
  tempo := (Stream.inOrder s.tempo).map TempoEvent.ofWritten
  palette := ⟨s.palette, !s.overrideList.isEmpty⟩
  pads := s.pads.map fun events? => (events?.map PadScore.encode).toList

/-- The header of a score is one that a reader takes. -/
theorem form_header {s : Score} (hticks : s.ticksPerBeat ≠ 0) (htempo : s.microsecondsPerBeat ≠ 0) :
    s.header.Form s.header.encode :=
  ⟨⟨rfl, hticks, htempo⟩, [], (List.append_nil _).symm⟩

/-- Taken in, the chunks of a score lead to its container. -/
theorem collects_container {s : Score} (hticks : s.ticksPerBeat ≠ 0)
    (htempo : s.microsecondsPerBeat ≠ 0) : Container.Collects .empty s.chunks s.container := by
  refine ⟨?_, ?_, ?_, fun p => ?_⟩
  · have hpayloads : payloads .head s.chunks = [s.header.encode] := by
      simp [payloads_chunks]
    rw [hpayloads]
    exact Container.foldlM_takeHeader_eq_some_iff.2 ⟨_, rfl, form_header hticks htempo⟩
  · rw [payloads_tempo_chunks, Outcome.foldlM_singleton, Container.takeTempo,
      TempoEvent.readAll_encode]
    rfl
  · have hpayloads : payloads .palette s.chunks =
        if s.overrideList ≠ [] then [s.palettePayload] else [] := by
      simp [payloads_chunks]
    rw [hpayloads, container]
    by_cases h : s.overrideList = []
    · have hpalette := s.overrideAll_overrideList .default
      rw [h] at hpalette
      rw [if_neg (not_not_intro h), h, palette, ← hpalette]
      rfl
    · have hmarked : (!s.overrideList.isEmpty) = true := by simp [h]
      rw [if_pos h, Outcome.foldlM_singleton, hmarked]
      simp only [Container.takePalette, Container.empty, apply_palettePayload]
      rfl
  · have hempty : Container.empty.pads.get p = [] := PerPad.get_const _ p
    rw [payloads_pad_chunks, hempty, container, PerPad.get_map]
    rfl

/-- Every tag that is written is ASCII. -/
theorem isAscii_of_mem_chunks {s : Score} {c : Chunk} (hc : c ∈ s.chunks) :
    c.tag.isAscii = true := by
  simp only [chunks, List.mem_append, List.mem_singleton, List.mem_map] at hc
  rcases hc with ((rfl | hpal) | rfl) | ⟨stream, _, rfl⟩
  · rfl
  · split at hpal
    · cases hpal
    · rw [List.mem_singleton.1 hpal]
      rfl
  · rfl
  · cases stream.1 <;> rfl

/-- A finished file is split into the chunks of which it was made exactly if the length of every
payload can be written down. -/
theorem readAll_toBytes_iff (s : Score) : Chunk.readAll s.toBytes = .ok s.chunks ↔
    ∀ c ∈ s.chunks, c.payload.length < 0x100000000 := by
  rw [Chunk.readAll_eq_ok_iff]
  constructor
  · exact fun h c hc => (h.2 c hc).2
  · exact fun h => ⟨rfl, fun c hc => ⟨isAscii_of_mem_chunks hc, h c hc⟩⟩

/-- A finished file is parsed to the program that the score's streams describe, provided that every
payload is short enough for its length to be written down. -/
theorem parse_toBytes {s : Score} (hticks : s.ticksPerBeat ≠ 0) (htempo : s.microsecondsPerBeat ≠ 0)
    (htable : ∀ p, ∀ event ∈ s.pad p, event.2.InTable)
    (hlength : ∀ c ∈ s.chunks, c.payload.length < 0x100000000) {tempo : TempoMap τ}
    (hbuild : TempoMap.build ⟨s.microsecondsPerBeat, s.ticksPerBeat⟩
      (s.tempo.map TempoEvent.ofWritten) = .ok tempo) :
    Program.parse s.toBytes =
      if anyShows fun p => Stream.scheduled (s.pad p) then
        .ok (.render tempo s.palette fun p => Stream.scheduled (s.pad p))
      else .error .noPadTracks := by
  have hchunks : Chunk.readAll s.toBytes = .ok s.chunks := s.readAll_toBytes_iff.2 hlength
  rw [← TempoMap.build_congr _ (TempoMap.inOrder_map_inOrder s.tempo)] at hbuild
  have hevents (p : Pad) : PadEvent.readAll p (s.container.pads.get p) =
      .ok (Stream.scheduled (s.pad p)) := by
    rw [container, PerPad.get_map]
    exact PadEvent.readAll_encode p (htable p)
  rw [Program.parse_eq hchunks (collects_container hticks htempo)]
  exact Container.program_eq rfl hbuild hevents

/-- Once raised to one, the rates of a score are such as a reader takes. -/
theorem raised_ne_zero (ticksPerBeat : UInt16) (microsecondsPerBeat : UInt32) :
    max ticksPerBeat 1 ≠ 0 ∧ max microsecondsPerBeat 1 ≠ 0 := by
  constructor
  · change (if ticksPerBeat ≤ 1 then 1 else ticksPerBeat) ≠ 0
    split
    · decide
    · rintro rfl
      contradiction
  · change (if microsecondsPerBeat ≤ 1 then 1 else microsecondsPerBeat) ≠ 0
    split
    · decide
    · rintro rfl
      contradiction

/-- Whatever has been entered into a new score, its file is parsed to the program that the entries
describe, in the tempo and with the palette that they leave. Where nothing is shown there is no
program. -/
theorem parse_toBytes_enterAll (ticksPerBeat : UInt16) (microsecondsPerBeat : UInt32)
    (entries : List Entry)
    (hlength : ∀ c ∈ ((new ticksPerBeat microsecondsPerBeat).enterAll entries).chunks,
      c.payload.length < 0x100000000) :
    ∃ tempo : TempoMap τ,
      TempoMap.build ⟨max microsecondsPerBeat 1, max ticksPerBeat 1⟩
        ((changes entries).map TempoEvent.ofWritten) = .ok tempo ∧
      Program.parse ((new ticksPerBeat microsecondsPerBeat).enterAll entries).toBytes =
        if anyShows (described entries) then
          .ok (.render tempo (repainted .default entries) (described entries))
        else .error .noPadTracks := by
  obtain ⟨⟨hticks, hbeat⟩, hpalette, hchanges, hpads⟩ :=
    (new ticksPerBeat microsecondsPerBeat).enterAll_parts entries
  obtain ⟨hticksPos, hbeatPos⟩ := raised_ne_zero ticksPerBeat microsecondsPerBeat
  have hwritten (p : Pad) :
      ((new ticksPerBeat microsecondsPerBeat).enterAll entries).pad p = written p entries := by
    rw [hpads, pad_new, List.nil_append]
  have hdescribed : (fun p => Stream.scheduled
      (((new ticksPerBeat microsecondsPerBeat).enterAll entries).pad p)) = described entries := by
    funext p
    rw [hwritten, described]
  have hdefault : (new ticksPerBeat microsecondsPerBeat).palette = .default :=
    Palette.overlay_none _
  obtain ⟨tempo, hbuild⟩ : ∃ tempo : TempoMap τ, TempoMap.build
      ⟨max microsecondsPerBeat 1, max ticksPerBeat 1⟩
      ((changes entries).map TempoEvent.ofWritten) = .ok tempo :=
    TempoMap.exists_build hticksPos hbeatPos _
  refine ⟨tempo, hbuild, ?_⟩
  rw [← hdescribed, ← hdefault, ← hpalette]
  apply parse_toBytes
  · rw [hticks]
    exact hticksPos
  · rw [hbeat]
    exact hbeatPos
  · intro p event hevent
    rw [hwritten] at hevent
    exact inTable_of_mem_written hevent
  · exact hlength
  · rw [hticks, hbeat, hchanges]
    exact hbuild

/-- Entries out of order, one tick with a default transition set between two switches that ask for
it, a tempo of zero, and two entries that are refused. -/
def rehearsal : List Entry :=
  [.add .left 9 (.flash 4 4 0 (.literal .white) 0), .add .left 3 (.switch 0xFFFF (.palette 5) 1),
    .override 5 ⟨1, 2, 3⟩, .add .left 3 (.defaultTransition 7),
    .add .left 3 (.switch 0xFFFF (.palette 31) 0), .tempo 4 0, .timebase 2 480, .override 32 .white,
    .add .right 0 (.switch 0 (.palette 40) 0), .touch .centre, .flags 2]

/-- The rehearsal is read back with all that was accepted of it. -/
theorem parse_toBytes_rehearsal :
    (∀ c ∈ ((new 0 500000).enterAll rehearsal).chunks, c.payload.length < 0x100000000) ∧
    ∃ tempo : TempoMap Binary64,
      TempoMap.build ⟨max 500000 1, max 0 1⟩
        ((changes rehearsal).map TempoEvent.ofWritten) = .ok tempo ∧
      Program.parse ((new 0 500000).enterAll rehearsal).toBytes =
        if anyShows (described rehearsal) then
          .ok (.render tempo (repainted .default rehearsal) (described rehearsal))
        else .error .noPadTracks := by
  have hlength : ∀ c ∈ ((new 0 500000).enterAll rehearsal).chunks,
      c.payload.length < 0x100000000 := by
    apply length_payload_lt
    · decide
    · intro p
      cases p <;> decide
  exact ⟨hlength, parse_toBytes_enterAll 0 500000 rehearsal hlength⟩

end Score

end LightShow
