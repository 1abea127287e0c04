import LightShow.Proofs.Codec.Event
import LightShow.Proofs.Score.Palette

namespace LightShow

namespace Stream

variable {ε : Type}

/-- Each event takes up its own bytes and those of its distance at most. -/
theorem length_flatMap_distances_le {event : ε → Bytes} {width : Nat} (start : Nat)
    {events : List (UInt32 × ε)} (h : ∀ e ∈ events, (event e.2).length ≤ width) :
    ((distances start events).flatMap fun e => Varint.encode e.1 ++ event e.2).length ≤
      (Varint.maxLength + width) * events.length := by
  induction events generalizing start with
  | nil => exact Nat.le_refl _
  | cons e rest ih =>
    have hlimit : e.1.toNat - start < Varint.limit Varint.maxLength := by
      have hlt := e.1.toNat_lt
      have hlimit : Varint.limit Varint.maxLength = 34359738368 := by decide
      omega
    have hvarint := (Varint.readable_encode hlimit).2
    have hevent := h e List.mem_cons_self
    have hrest := ih e.1.toNat fun later hlater => h later (List.mem_cons_of_mem _ hlater)
    rw [distances, List.flatMap_cons, List.length_append, List.length_append, List.length_cons,
      Nat.mul_succ]
    dsimp only
    omega

/-- A stream is no longer than so many bytes for each event. -/
theorem length_encode_le {event : ε → Bytes} {width : Nat} {events : List (UInt32 × ε)}
    (h : ∀ e ∈ events, (event e.2).length ≤ width) :
    (encode event events).length ≤ (Varint.maxLength + width) * events.length := by
  have hordered : ∀ e ∈ inOrder events, (event e.2).length ≤ width :=
    fun e he => h e (List.mem_mergeSort.1 he)
  have hlength := length_flatMap_distances_le 0 hordered
  rwa [inOrder, List.length_mergeSort] at hlength

end Stream

/-- A colour takes up four bytes at most. -/
theorem ColourRef.length_encode_le (colour : ColourRef) : colour.encode.length ≤ 4 := by
  cases colour <;> simp [encode, Colour.bytes]

/-- An event takes up twelve bytes at most. -/
theorem PadEvent.length_encode_le (event : PadEvent) : event.encode.length ≤ 12 := by
  cases event with
  | switch _ colour _ =>
    have h := colour.length_encode_le
    simp only [encode, List.length_append, List.length_cons, LittleEndian.length_bytes]
    omega
  | fade _ _ colour _ =>
    have h := colour.length_encode_le
    simp only [encode, List.length_append, List.length_cons, LittleEndian.length_bytes]
    omega
  | flash _ _ _ colour _ =>
    have h := colour.length_encode_le
    simp only [encode, List.length_append, List.length_cons, LittleEndian.length_bytes]
    omega
  | _ => simp [encode]

/-- A change of tempo takes up five bytes at most. -/
theorem TempoChange.length_encode_le (change : TempoChange) : change.encode.length ≤ 5 := by
  cases change <;> simp [encode]

/-- Streams of up to a hundred million events are short enough for a file. -/
theorem Score.length_payload_lt {s : Score} (htempo : s.tempo.length ≤ 100000000)
    (hpads : ∀ p, (s.pad p).length ≤ 100000000) :
    ∀ c ∈ s.chunks, c.payload.length < 0x100000000 := by
  intro c hc
  simp only [chunks, List.mem_append, List.mem_singleton, List.mem_map] at hc
  rcases hc with ((rfl | hpalette) | rfl) | ⟨⟨p, events⟩, hmem, rfl⟩
  · have hheader : s.header.encode.length = 16 := by simp [Header.encode]
    rw [hheader]
    decide
  · split at hpalette
    · cases hpalette
    · have hlength := s.length_palettePayload
      have hle := s.length_overrideList_le
      rw [List.mem_singleton.1 hpalette]
      dsimp only
      omega
  · have h : (Stream.encode TempoChange.encode s.tempo).length ≤ (5 + 5) * s.tempo.length :=
      Stream.length_encode_le fun e _ => e.2.length_encode_le
    dsimp only
    omega
  · have h : (Stream.encode PadEvent.encode events).length ≤ (5 + 12) * events.length :=
      Stream.length_encode_le fun e _ => e.2.length_encode_le
    have hpad := hpads p
    rw [pad, PerPad.mem_entries.1 hmem, Option.getD_some] at hpad
    simp only [PadScore.encode]
    omega

end LightShow
