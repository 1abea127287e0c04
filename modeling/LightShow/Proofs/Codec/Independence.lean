import LightShow.Proofs.Codec.Chunk
import LightShow.Proofs.Codec.Program

namespace LightShow

/-- The tags of the chunks that a decoder looks into. -/
def Tag.recognised : List Tag := [head, temp, pal0] ++ Pad.all.map ofPad

/-- A tag that no kind has is unknown. -/
theorem Tag.kind_eq_unknown {t : Tag} (h : t ∉ recognised) : t.kind = .unknown := by
  have hother {kind : ChunkKind} {tag : Tag} (hkind : kind.tag? = some tag)
      (htag : tag ∈ recognised) : t.kind ≠ kind := fun heq =>
    h ((kind_eq_iff hkind).1 heq ▸ htag)
  cases hkind : t.kind with
  | head => exact absurd hkind (hother rfl (by decide))
  | tempo => exact absurd hkind (hother rfl (by decide))
  | palette => exact absurd hkind (hother rfl (by decide))
  | pad p => exact absurd hkind (hother rfl (by cases p <;> decide))
  | unknown => rfl

/-- The rate that a header sets, or what is wrong with the header. -/
def Header.rateIn (payload : Bytes) : Except CodecError Rate :=
  (read payload).map fun header => ⟨header.microsecondsPerBeat, header.ticksPerBeat⟩

namespace Chunk

open Container (tagged)

/-- The chunks are the same as far as a decoder looks into them, kind by kind. How chunks of
different kinds follow one another, what other tags there are and what palettes stand behind the
first is left open. -/
structure SameContents (chunks chunks' : List Chunk) : Prop where
  head : tagged .head chunks = tagged .head chunks'
  temp : tagged .temp chunks = tagged .temp chunks'
  pal0 : (tagged .pal0 chunks).head? = (tagged .pal0 chunks').head?
  pads : ∀ p, tagged (.ofPad p) chunks = tagged (.ofPad p) chunks'

theorem SameContents.symm {chunks chunks' : List Chunk} (h : SameContents chunks chunks') :
    SameContents chunks' chunks :=
  ⟨h.head.symm, h.temp.symm, h.pal0.symm, fun p => (h.pads p).symm⟩

/-- The chunks are the same as far as they bear on one pad. The other pads may have any events, and
headers may differ in all but the rate that they set. -/
structure SameFor (p : Pad) (chunks chunks' : List Chunk) : Prop where
  rate : (tagged .head chunks).map Header.rateIn = (tagged .head chunks').map Header.rateIn
  temp : tagged .temp chunks = tagged .temp chunks'
  pal0 : (tagged .pal0 chunks).head? = (tagged .pal0 chunks').head?
  pad : tagged (.ofPad p) chunks = tagged (.ofPad p) chunks'

end Chunk

namespace Container

open Chunk (SameContents)

/-- The palette of a container comes from the first palette payload alone. -/
theorem foldlM_takePalette_congr {payloads payloads' : List Bytes} {after : PaletteDraft}
    (h : payloads.head? = payloads'.head?) :
    payloads.foldlM takePalette .new = .ok after ↔
      payloads'.foldlM takePalette .new = .ok after := by
  rw [foldlM_takePalette_eq_ok_iff, foldlM_takePalette_eq_ok_iff, h]

/-- Chunks of the same contents are taken in to the same container, since each part of it sees only
the chunks of its kind. -/
theorem Collects.of_sameContents {chunks chunks' : List Chunk} {c : Container}
    (hcollects : Collects .empty chunks c) (h : SameContents chunks chunks') :
    Collects .empty chunks' c := by
  obtain ⟨hheader, htempo, hpalette, hpads⟩ := hcollects
  rw [payloads_eq_tagged rfl] at hheader htempo hpalette
  refine ⟨?_, ?_, ?_, fun p => ?_⟩
  · rw [payloads_eq_tagged rfl, ← h.head]
    exact hheader
  · rw [payloads_eq_tagged rfl, ← h.temp]
    exact htempo
  · rw [payloads_eq_tagged rfl]
    exact (foldlM_takePalette_congr h.pal0).1 hpalette
  · rw [hpads, payloads_eq_tagged rfl, payloads_eq_tagged rfl, h.pads]

/-- The rate of a container is the one that its only header sets. -/
theorem Collects.rateIn {chunks : List Chunk} {c : Container} {header : Header}
    (hcollects : Collects .empty chunks c) (hheader : c.header = some header) :
    (tagged .head chunks).map Header.rateIn =
      [.ok ⟨header.microsecondsPerBeat, header.ticksPerBeat⟩] := by
  have htaken := hcollects.header
  rw [payloads_eq_tagged rfl, hheader] at htaken
  obtain ⟨payload, hpayload, hform⟩ := foldlM_takeHeader_eq_some_iff.1 htaken
  rw [hpayload, List.map_singleton, Header.rateIn, Header.read_eq_ok_iff.2 hform]
  rfl

/-- Containers of chunks that are the same for a pad hold the same of what bears on it. -/
theorem Collects.eq_of_sameFor {chunks chunks' : List Chunk} {c c' : Container} {p : Pad}
    (hcollects : Collects .empty chunks c) (hcollects' : Collects .empty chunks' c')
    (h : Chunk.SameFor p chunks chunks') :
    c.tempo = c'.tempo ∧ c.palette = c'.palette ∧ c.pads.get p = c'.pads.get p := by
  have htempo := hcollects.tempo
  have htempo' := hcollects'.tempo
  have hpalette := hcollects.palette
  have hpalette' := hcollects'.palette
  rw [payloads_eq_tagged rfl] at htempo htempo' hpalette hpalette'
  refine ⟨?_, ?_, ?_⟩
  · rw [h.temp, htempo'] at htempo
    exact (Except.ok.inj htempo).symm
  · have hsame := (foldlM_takePalette_congr h.pal0).1 hpalette
    exact Except.ok.inj (hsame.symm.trans hpalette')
  · rw [hcollects.pads, hcollects'.pads, payloads_eq_tagged rfl, payloads_eq_tagged rfl, h.pad]

/-- Chunks that no decoder looks into may be left out, whatever comes of the others. -/
theorem foldlM_add_filter (before : Container) (chunks : List Chunk) :
    (chunks.filter fun c => c.tag ∈ Tag.recognised).foldlM add before =
      chunks.foldlM add before := by
  have hskip : (fun (c : Container) (chunk : Chunk) =>
      if chunk.tag ∈ Tag.recognised then c.add chunk else pure c) = add := by
    funext c chunk
    split
    next => rfl
    next htag => rw [add_eq, Tag.kind_eq_unknown htag]; rfl
  simp only [List.foldlM_filter, decide_eq_true_eq, hskip]

end Container

namespace Program

variable {τ : Type} [Clock τ]

/-- A file that is made of chunks one after another is parsed chunk by chunk. -/
theorem parse_encode {chunks : List Chunk} (h : ∀ c ∈ chunks, c.Framable) :
    (parse (chunks.flatMap Chunk.encode) : Except CodecError (Program τ)) =
      Container.ofChunks chunks >>= Container.program := by
  rw [parse, Chunk.readAll_eq_ok_iff.2 ⟨rfl, h⟩]
  rfl

/-- A file that is accepted stays so when its chunks are mixed differently, and holds the same
program. -/
theorem parse_eq_ok_of_sameContents {chunks chunks' : List Chunk} {program : Program τ}
    (hframable : ∀ c ∈ chunks, c.Framable) (hframable' : ∀ c ∈ chunks', c.Framable)
    (h : Chunk.SameContents chunks chunks')
    (hparse : parse (chunks.flatMap Chunk.encode) = .ok program) :
    parse (chunks'.flatMap Chunk.encode) = .ok program := by
  obtain ⟨_, c, hchunks, hcollects, hprogram⟩ := parse_eq_ok_iff.1 hparse
  rw [Chunk.readAll_eq_ok_iff.2 ⟨rfl, hframable⟩] at hchunks
  obtain rfl := Except.ok.inj hchunks
  have hchunks' := Chunk.readAll_eq_ok_iff.2 ⟨rfl, hframable'⟩
  exact parse_eq_ok_iff.2 ⟨chunks', c, hchunks', hcollects.of_sameContents h, hprogram⟩

/-- How the chunks of different kinds are mixed makes no difference to a program. Chunks with other
tags make none to errors either. -/
theorem parse_of_mixed {chunks chunks' : List Chunk} (hframable : ∀ c ∈ chunks, c.Framable)
    (hframable' : ∀ c ∈ chunks', c.Framable) :
    (Chunk.SameContents chunks chunks' → ∀ program : Program τ,
      parse (chunks.flatMap Chunk.encode) = .ok program ↔
        parse (chunks'.flatMap Chunk.encode) = .ok program) ∧
    ((chunks.filter fun c => c.tag ∈ Tag.recognised) =
        (chunks'.filter fun c => c.tag ∈ Tag.recognised) →
      (parse (chunks.flatMap Chunk.encode) : Except CodecError (Program τ)) =
        parse (chunks'.flatMap Chunk.encode)) := by
  refine ⟨fun h program => ⟨?_, ?_⟩, fun h => ?_⟩
  · exact parse_eq_ok_of_sameContents hframable hframable' h
  · exact parse_eq_ok_of_sameContents hframable' hframable h.symm
  · rw [parse_encode hframable, parse_encode hframable', Container.ofChunks, Container.ofChunks,
      ← Container.foldlM_add_filter, h, Container.foldlM_add_filter]

/-- A show with a palette, a change of tempo and two pads. The second chunk of the left pad asks for
the transition that the first one sets. -/
def gathered : List Chunk :=
  [⟨.head, Header.encode ⟨1, 480, 500000, 2, 0⟩⟩, ⟨.pal0, [1, 5, 1, 2, 3]⟩,
    ⟨.temp, [4, 2, 0, 1]⟩, ⟨.ofPad .left, [0, 0x14, 3, 0]⟩,
    ⟨.ofPad .left, [9, 0x10, 0xFF, 0xFF, 5, 7, 0]⟩, ⟨.ofPad .right, [2, 0x14, 6, 0]⟩]

/-- The same show with its kinds of chunks in another order. A second palette is cut short, and two
chunks mean nothing. -/
def scattered : List Chunk :=
  [⟨.ofPad .right, [2, 0x14, 6, 0]⟩, ⟨.pad 0x37, [0xFF]⟩, ⟨.ofPad .left, [0, 0x14, 3, 0]⟩,
    ⟨.temp, [4, 2, 0, 1]⟩, ⟨.ofPad .left, [9, 0x10, 0xFF, 0xFF, 5, 7, 0]⟩,
    ⟨.pal0, [1, 5, 1, 2, 3]⟩, ⟨⟨0x4E, 0x4F, 0x54, 0x45⟩, []⟩,
    ⟨.head, Header.encode ⟨1, 480, 500000, 2, 0⟩⟩, ⟨.pal0, [9]⟩]

/-- A change of tempo of an unknown kind, and a header that is too short. -/
def faulty : List Chunk := [⟨.temp, [0, 9]⟩, ⟨.head, []⟩]

/-- The same faults among chunks that mean nothing. -/
def faultyAmongOthers : List Chunk :=
  [⟨.pad 0x33, [0x80]⟩, ⟨.temp, [0, 9]⟩, ⟨⟨0x68, 0x65, 0x61, 0x64⟩, [1]⟩, ⟨.head, []⟩]

theorem parse_of_mixed_scattered :
    ((∀ c ∈ gathered, c.Framable) ∧ (∀ c ∈ scattered, c.Framable) ∧
      Chunk.SameContents gathered scattered ∧ ∀ program : Program Binary64,
        parse (gathered.flatMap Chunk.encode) = .ok program ↔
          parse (scattered.flatMap Chunk.encode) = .ok program) ∧
    (∀ c ∈ faulty, c.Framable) ∧ (∀ c ∈ faultyAmongOthers, c.Framable) ∧
      (faulty.filter fun c => c.tag ∈ Tag.recognised) =
        (faultyAmongOthers.filter fun c => c.tag ∈ Tag.recognised) ∧
      (parse (faulty.flatMap Chunk.encode) : Except CodecError (Program Binary64)) =
        parse (faultyAmongOthers.flatMap Chunk.encode) := by
  have hgathered : ∀ c ∈ gathered, c.Framable := by decide
  have hscattered : ∀ c ∈ scattered, c.Framable := by decide
  have hsame : Chunk.SameContents gathered scattered :=
    ⟨rfl, rfl, rfl, fun p => by cases p <;> rfl⟩
  have hfaulty : ∀ c ∈ faulty, c.Framable := by decide
  have hothers : ∀ c ∈ faultyAmongOthers, c.Framable := by decide
  have hkept : (faulty.filter fun c => c.tag ∈ Tag.recognised) =
      (faultyAmongOthers.filter fun c => c.tag ∈ Tag.recognised) := by decide
  exact ⟨⟨hgathered, hscattered, hsame, (parse_of_mixed hgathered hscattered).1 hsame⟩,
    hfaulty, hothers, hkept, (parse_of_mixed hfaulty hothers).2 hkept⟩

/-- The track of a pad depends on the rates, the palette and the events of that pad, and on nothing
else in a file: not on the other pads, nor on what is left of the header. -/
theorem track_eq_of_sameFor {data data' : Bytes} {chunks chunks' : List Chunk}
    {program program' : Program τ} {p : Pad} (hparse : parse data = .ok program)
    (hparse' : parse data' = .ok program') (hchunks : Chunk.readAll data = .ok chunks)
    (hchunks' : Chunk.readAll data' = .ok chunks') (hsame : Chunk.SameFor p chunks chunks') :
    program.track p = program'.track p := by
  obtain ⟨_, c, hread, hcollects, hprogram⟩ := parse_eq_ok_iff.1 hparse
  obtain ⟨_, c', hread', hcollects', hprogram'⟩ := parse_eq_ok_iff.1 hparse'
  obtain rfl := Except.ok.inj (hchunks.symm.trans hread)
  obtain rfl := Except.ok.inj (hchunks'.symm.trans hread')
  obtain ⟨header, tempo, events, hheader, hbuild, hevents, _, rfl⟩ :=
    Container.program_eq_ok_iff.1 hprogram
  obtain ⟨header', tempo', events', hheader', hbuild', hevents', _, rfl⟩ :=
    Container.program_eq_ok_iff.1 hprogram'
  obtain ⟨hchanges, hpalette, hpads⟩ := hcollects.eq_of_sameFor hcollects' hsame
  have htempo : tempo = tempo' := by
    have hrate := hsame.rate
    rw [hcollects.rateIn hheader, hcollects'.rateIn hheader', List.singleton_inj] at hrate
    rw [Except.ok.inj hrate, hchanges, hbuild'] at hbuild
    exact (Except.ok.inj hbuild).symm
  have hsameEvents : events p = events' p := by
    have hown := hevents p
    rw [hpads, hevents' p] at hown
    exact (Except.ok.inj hown).symm
  rw [track_render, track_render, htempo, hpalette, hsameEvents]

/-- The left pad of `gathered` once more. Another palette stands behind the first, and the header,
its end and what the other pads do are different. -/
def rearranged : List Chunk :=
  [⟨.ofPad .left, [0, 0x14, 3, 0]⟩, ⟨.pal0, [1, 5, 1, 2, 3]⟩, ⟨.pal0, [1, 5, 9, 9, 9]⟩,
    ⟨.head, Header.encode ⟨1, 480, 500000, 7, 3⟩ ++ [1, 2]⟩, ⟨.temp, [4, 2, 0, 1]⟩,
    ⟨.ofPad .left, [9, 0x10, 0xFF, 0xFF, 5, 7, 0]⟩,
    ⟨.ofPad .centre, [5, 0x14, 6, 0, 1, 0x10, 0xFF, 0xFF, 5, 9, 0]⟩]

theorem track_eq_of_sameFor_rearranged :
    Chunk.readAll (gathered.flatMap Chunk.encode) = .ok gathered ∧
    Chunk.readAll (rearranged.flatMap Chunk.encode) = .ok rearranged ∧
    Chunk.SameFor .left gathered rearranged ∧ ∃ program program' : Program Binary64,
      parse (gathered.flatMap Chunk.encode) = .ok program ∧
      parse (rearranged.flatMap Chunk.encode) = .ok program' ∧
      program.track .left = program'.track .left := by
  have hgathered : ∀ c ∈ gathered, c.Framable := by decide
  have hrearranged : ∀ c ∈ rearranged, c.Framable := by decide
  have hchunks := Chunk.readAll_eq_ok_iff.2 ⟨rfl, hgathered⟩
  have hchunks' := Chunk.readAll_eq_ok_iff.2 ⟨rfl, hrearranged⟩
  have hsame : Chunk.SameFor .left gathered rearranged := ⟨rfl, rfl, rfl, rfl⟩
  have hok : (parse (gathered.flatMap Chunk.encode) :
    Except CodecError (Program Binary64)).isOk = true := by decide +kernel
  have hok' : (parse (rearranged.flatMap Chunk.encode) :
    Except CodecError (Program Binary64)).isOk = true := by decide +kernel
  refine ⟨hchunks, hchunks', hsame, ?_⟩
  cases hparse : (parse (gathered.flatMap Chunk.encode) : Except CodecError (Program Binary64)) with
  | error e => rw [hparse] at hok; cases hok
  | ok program =>
    cases hparse' : (parse (rearranged.flatMap Chunk.encode) :
      Except CodecError (Program Binary64)) with
    | error e => rw [hparse'] at hok'; cases hok'
    | ok program' =>
      exact ⟨program, program', rfl, rfl,
        track_eq_of_sameFor hparse hparse' hchunks hchunks' hsame⟩

end Program

end LightShow
