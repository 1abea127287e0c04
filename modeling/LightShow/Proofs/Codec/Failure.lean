import LightShow.Proofs.Codec.Chunk
import LightShow.Proofs.Codec.Container
import LightShow.Proofs.Codec.Program

namespace LightShow

open Outcome

/-- What can be wrong with a container. It may be cut short or hold what no container may hold, but
nobody has asked for what cannot be: that a tick lies before the start, that a span is turned
around, or that a colour is not in the table is no fault of a container. -/
def CodecError.OfContainer : CodecError → Prop
  | unexpectedEnd _ | varintTooLarge | nonAsciiTag _ | truncatedChunkHeader _ | chunkOverrun _ _ _
  | headerTooSmall _ | invalidMagic _ | unsupportedVersion _ | invalidTimebase | invalidTempo
  | duplicateHeader | missingHeader | noPadTracks | unsupportedTempoOpcode _
  | unsupportedPadOpcode _ _ => True
  | paletteIndexOutOfRange _ | envelope _ | unsupportedTextVersion _ | base64 _ | invalidRequest _
  | file _ => False

/-- Errors of the container are format errors to the outside. -/
theorem CodecError.OfContainer.kind_eq {e : CodecError} (h : e.OfContainer) : e.kind = .format := by
  cases e with
  | invalidRequest flaw => exact h.elim
  | file error => exact h.elim
  | _ => rfl

namespace Reader

variable {α β : Type}

/-- Whenever the reader fails, something is wrong with the container from which the bytes are. -/
def BlamesContainer (r : Reader α) : Prop := ∀ s, FailsWith CodecError.OfContainer (r s)

theorem BlamesContainer.pure (a : α) : (Pure.pure a : Reader α).BlamesContainer :=
  fun s => .ok (a, s)

theorem BlamesContainer.throw {e : CodecError} (h : e.OfContainer) :
    (throw e : Reader α).BlamesContainer :=
  fun _ => .error h

/-- Readers one after another blame the container if each does. -/
theorem BlamesContainer.bind {r : Reader α} {k : α → Reader β} (hr : r.BlamesContainer)
    (hk : ∀ a, (k a).BlamesContainer) : (r >>= k).BlamesContainer :=
  fun s => (hr s).bind fun p _ => hk p.1 p.2

theorem blamesContainer_byte (item : String) : (byte item).BlamesContainer := by
  intro s
  cases s with
  | nil => exact .error trivial
  | cons b rest => exact .ok (b, rest)

theorem blamesContainer_take (n : Nat) (item : String) : (take n item).BlamesContainer := by
  intro s
  unfold take
  split
  · exact .ok _
  · exact .error trivial

theorem blamesContainer_u16 (item : String) : (u16 item).BlamesContainer :=
  (blamesContainer_take 2 item).bind fun _ => .pure _

theorem blamesContainer_u32 (item : String) : (u32 item).BlamesContainer :=
  (blamesContainer_take 4 item).bind fun _ => .pure _

/-- Reading to the end blames the container if reading one item does. -/
theorem BlamesContainer.toEnd {r : Reader α} (hr : r.BlamesContainer) (s : Bytes) :
    FailsWith CodecError.OfContainer (toEnd r s) := by
  fun_induction Reader.toEnd r s with
  | case1 => exact .ok []
  | case2 s hs ih =>
    refine (hr s).bind fun p _ => ?_
    dsimp only
    split
    next hlt => exact (ih p.2 hlt).bind fun more _ => .ok (p.1 :: more)
    next => exact .ok [p.1]

end Reader

open Reader

/-- A number fails only by being too long or cut short. -/
theorem Varint.blamesContainer_readWithin (length : Nat) : (readWithin length).BlamesContainer := by
  induction length with
  | zero => exact .throw trivial
  | succ length ih =>
    refine (blamesContainer_byte _).bind fun b => ?_
    split
    · exact .pure _
    · exact ih.bind fun _ => .pure _

theorem Stream.blamesContainer_read {ε : Type} {event : Reader ε} (hevent : event.BlamesContainer)
    (payload : Bytes) : FailsWith CodecError.OfContainer (read event payload) :=
  BlamesContainer.toEnd ((Varint.blamesContainer_readWithin Varint.maxLength).bind fun _ =>
    hevent.bind fun _ => .pure _) payload

/-- A colour that is read names an entry of the table, so only its bytes can be missing. -/
theorem ColourRef.blamesContainer_read : read.BlamesContainer := by
  refine (blamesContainer_byte _).bind fun mode => ?_
  split
  · exact (blamesContainer_byte _).bind fun _ => (blamesContainer_byte _).bind fun _ =>
      (blamesContainer_byte _).bind fun _ => .pure _
  · exact .pure _

/-- An event fails by its opcode or by missing bytes, and both are faults of the container. -/
theorem PadEvent.blamesContainer_read (pad : Pad) : (read pad).BlamesContainer := by
  refine (blamesContainer_byte _).bind fun opcode => ?_
  split
  · exact (blamesContainer_u16 _).bind fun _ => ColourRef.blamesContainer_read.bind fun _ =>
      (blamesContainer_u16 _).bind fun _ => .pure _
  · exact (blamesContainer_u16 _).bind fun _ => (blamesContainer_byte _).bind fun _ =>
      ColourRef.blamesContainer_read.bind fun _ => (blamesContainer_u16 _).bind fun _ => .pure _
  · exact (blamesContainer_u16 _).bind fun _ => (blamesContainer_u16 _).bind fun _ =>
      (blamesContainer_byte _).bind fun _ => ColourRef.blamesContainer_read.bind fun _ =>
      (blamesContainer_u16 _).bind fun _ => .pure _
  · exact (blamesContainer_u16 _).bind fun _ => (blamesContainer_u16 _).bind fun _ => .pure _
  · exact (blamesContainer_u16 _).bind fun _ => .pure _
  · exact (blamesContainer_byte _).bind fun _ => .pure _
  · exact .throw trivial

/-- The payloads of a pad fail as one of their events does. -/
theorem PadEvent.failsWith_readAll (pad : Pad) (payloads : List Bytes) :
    FailsWith CodecError.OfContainer (readAll pad payloads) :=
  (FailsWith.mapM (Stream.blamesContainer_read (blamesContainer_read pad)) payloads).bind
    fun parts _ => .ok (Stream.positions 0 parts.flatten)

theorem TempoChange.blamesContainer_read : read.BlamesContainer := by
  refine (blamesContainer_byte _).bind fun opcode => ?_
  split
  · exact (blamesContainer_u32 _).bind fun _ => .pure _
  · exact (blamesContainer_u16 _).bind fun _ => .pure _
  · exact .throw trivial

/-- A tempo payload fails as one of its changes does. -/
theorem TempoEvent.failsWith_readAll (payload : Bytes) :
    FailsWith CodecError.OfContainer (readAll payload) :=
  (Stream.blamesContainer_read TempoChange.blamesContainer_read payload).bind fun _ _ => .ok _

namespace Header

theorem blamesContainer_require (ok : Bool) {e : CodecError} (h : e.OfContainer) :
    (require ok e).BlamesContainer := by
  unfold require
  cases ok with
  | true => exact .pure ()
  | false => exact .throw h

/-- A header fails by its length, its magic, its version or a zero. -/
theorem failsWith_read (payload : Bytes) : FailsWith CodecError.OfContainer (read payload) := by
  have hreader : reader.BlamesContainer := by
    refine (blamesContainer_u32 _).bind fun found => ?_
    refine (blamesContainer_require _ (e := .invalidMagic found) trivial).bind fun _ => ?_
    refine (blamesContainer_u16 _).bind fun version => ?_
    refine (blamesContainer_require _ (e := .unsupportedVersion version) trivial).bind fun _ => ?_
    refine (blamesContainer_u16 _).bind fun ticksPerBeat => ?_
    refine (blamesContainer_require _ (e := .invalidTimebase) trivial).bind fun _ => ?_
    refine (blamesContainer_u32 _).bind fun microsecondsPerBeat => ?_
    refine (blamesContainer_require _ (e := .invalidTempo) trivial).bind fun _ => ?_
    exact (blamesContainer_u16 _).bind fun _ => (blamesContainer_u16 _).bind fun _ => .pure _
  unfold read
  split
  · exact .error trivial
  · exact (hreader payload).bind fun p _ => .ok p.1

end Header

/-- A palette fails by missing bytes. Records for entries that the table does not have are skipped
and are no failure. -/
theorem PaletteDraft.failsWith_apply (draft : PaletteDraft) (payload : Bytes) :
    FailsWith CodecError.OfContainer (draft.apply payload).2 := by
  unfold apply
  split
  · exact .ok ()
  · cases payload with
    | nil => exact .ok ()
    | cons count rest =>
      dsimp only
      split
      · exact .error trivial
      · exact .ok ()

/-- Splitting a file into chunks fails as a fault of the container. -/
theorem Chunk.failsWith_readFrom (offset : Nat) (data : Bytes) :
    FailsWith CodecError.OfContainer (readFrom offset data) := by
  fun_induction readFrom offset data with
  | case1 => exact .ok []
  | case2 => exact .error trivial
  | case3 => exact .error trivial
  | case4 =>
    rename_i ih
    exact ih.bind fun more _ => .ok _
  | case5 => exact .error trivial

namespace Container

/-- Taking in a chunk fails as its payload does, or because of a second header. -/
theorem failsWith_add (c : Container) (chunk : Chunk) :
    FailsWith CodecError.OfContainer (c.add chunk) := by
  rw [add_eq]
  split
  · unfold takeHeader
    split
    · exact .error trivial
    · exact ((Header.failsWith_read chunk.payload).map some).map _
  · exact ((TempoEvent.failsWith_readAll chunk.payload).map _).map _
  · exact ((c.palette.failsWith_apply chunk.payload).map _).map _
  · exact .ok _
  · exact .ok _

variable {τ : Type} [Clock τ]

theorem failsWith_track? (c : Container) (tempo : TempoMap τ) (p : Pad) :
    FailsWith CodecError.OfContainer (c.track? tempo p) := by
  rw [track?_eq]
  exact (PadEvent.failsWith_readAll p (c.pads.get p)).map _

/-- A container that has been filled from chunks has the tempo map that it asks for. -/
theorem exists_build_of_collects {chunks : List Chunk} {c : Container} {header : Header}
    (hcollects : Collects .empty chunks c) (hheader : c.header = some header) :
    ∃ m : TempoMap τ,
      TempoMap.build ⟨header.microsecondsPerBeat, header.ticksPerBeat⟩ c.tempo = .ok m := by
  have hcollected := hcollects.header
  rw [hheader] at hcollected
  obtain ⟨_, _, hvalid, _⟩ := foldlM_takeHeader_eq_some_iff.1 hcollected
  exact TempoMap.exists_build hvalid.ticksPerBeat hvalid.microsecondsPerBeat c.tempo

/-- A container that has been taken in can only fail for its own faults: the tempo map of a header
that has been checked is always built. -/
theorem failsWith_program {chunks : List Chunk} {c : Container}
    (hcollects : Collects .empty chunks c) :
    FailsWith CodecError.OfContainer (c.program : Except CodecError (Program τ)) := by
  unfold program
  split
  next header hheader =>
    refine (FailsWith.of_exists_ok (exists_build_of_collects hcollects hheader)).bind fun m _ => ?_
    refine (c.failsWith_track? m .centre).bind fun centre _ => ?_
    refine (c.failsWith_track? m .left).bind fun left _ => ?_
    refine (c.failsWith_track? m .right).bind fun right _ => ?_
    dsimp only
    split
    · exact .error trivial
    · exact .ok _
  next => exact .error trivial

end Container

variable {τ : Type} [Clock τ]

/-- No error of parsing is anything but the container's fault. -/
theorem Program.failsWith_parse (data : Bytes) :
    FailsWith CodecError.OfContainer (parse data : Except CodecError (Program τ)) := by
  refine (Chunk.failsWith_readFrom 0 data).bind fun chunks _ => ?_
  refine (FailsWith.foldlM Container.failsWith_add .empty chunks).bind fun c hc => ?_
  exact Container.failsWith_program (Container.foldlM_add_eq_ok_iff.1 hc)

/-- Whatever the bytes are, there is a program in them or something is wrong with their format. No
tick, span or colour that comes up on the way is ever refused. -/
theorem Program.parse_ok_or_format (data : Bytes) :
    (∃ program : Program τ, parse data = .ok program) ∨
      ∃ e, (parse data : Except CodecError (Program τ)) = .error e ∧ e.kind = .format ∧
        (∀ flaw, e ≠ .invalidRequest flaw) ∧ ∀ index, e ≠ .paletteIndexOutOfRange index := by
  cases hparse : (parse data : Except CodecError (Program τ)) with
  | ok program => exact .inl ⟨program, rfl⟩
  | error e =>
    have hcontainer : e.OfContainer := failsWith_parse data e hparse
    refine .inr ⟨e, rfl, hcontainer.kind_eq, ?_, ?_⟩
    · rintro flaw rfl
      exact hcontainer
    · rintro index rfl
      exact hcontainer

end LightShow
