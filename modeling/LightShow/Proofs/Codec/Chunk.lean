import LightShow.Chunk
import LightShow.Proofs.Outcome

namespace LightShow.Chunk

/-- What a file can hold: an ASCII tag, and a payload whose length fits into four bytes. -/
def Framable (c : Chunk) : Prop :=
  c.tag.isAscii = true ∧ c.payload.length < 0x100000000

instance (c : Chunk) : Decidable c.Framable :=
  inferInstanceAs (Decidable (_ ∧ _))

/-- The bytes in front of a payload of a declared length. -/
def header (tag : Tag) (declared : UInt32) : Bytes :=
  tag.bytes ++ LittleEndian.bytes 4 declared.toNat

@[simp] theorem length_header (tag : Tag) (declared : UInt32) :
    (header tag declared).length = headerLength := by
  simp [header, Tag.bytes, headerLength]

/-- The four bytes of a length are read as what was written. -/
theorem value_declared (declared : UInt32) :
    LittleEndian.value (LittleEndian.bytes 4 declared.toNat) = declared.toNat := by
  rw [LittleEndian.value_bytes]
  exact Nat.mod_eq_of_lt declared.toNat_lt

/-- A header and what is behind it can be told apart in one way only. -/
theorem header_inj {tag tag' : Tag} {declared declared' : UInt32} {s t : Bytes}
    (h : header tag declared ++ s = header tag' declared' ++ t) :
    tag = tag' ∧ declared = declared' ∧ s = t := by
  obtain ⟨hheader, hrest⟩ := List.append_inj h (by simp only [length_header])
  obtain ⟨htag, hdeclared⟩ := List.append_inj hheader rfl
  refine ⟨?_, ?_, hrest⟩
  · simp only [Tag.bytes, List.cons.injEq, and_true] at htag
    cases tag
    cases tag'
    simp_all only
  · have hvalue := congrArg LittleEndian.value hdeclared
    rw [value_declared, value_declared] at hvalue
    exact UInt32.toNat_inj.1 hvalue

/-- Where there are enough bytes for a header, they are one. -/
theorem exists_header {s : Bytes} (h : headerLength ≤ s.length) :
    ∃ tag declared rest, s = header tag declared ++ rest := by
  obtain ⟨front, rest, rfl, hfront⟩ : ∃ front rest, s = front ++ rest ∧ front.length = 8 :=
    ⟨s.take 8, s.drop 8, (List.take_append_drop ..).symm, List.length_take_of_le h⟩
  match front, hfront with
  | [b0, b1, b2, b3, l0, l1, l2, l3], _ =>
    have hlt : LittleEndian.value [l0, l1, l2, l3] < 2 ^ 32 := LittleEndian.value_lt [l0, l1, l2, l3]
    refine ⟨⟨b0, b1, b2, b3⟩, UInt32.ofNat (LittleEndian.value [l0, l1, l2, l3]), rest, ?_⟩
    have hbytes : LittleEndian.bytes 4 (LittleEndian.value [l0, l1, l2, l3]) = [l0, l1, l2, l3] :=
      LittleEndian.bytes_value [l0, l1, l2, l3]
    rw [header, UInt32.toNat_ofNat_of_lt' hlt, hbytes]
    rfl

theorem encode_eq_header {c : Chunk} (h : c.Framable) :
    c.encode = header c.tag (UInt32.ofNat c.payload.length) ++ c.payload := by
  rw [encode, header, UInt32.toNat_ofNat_of_lt' h.2]

/-- What a header leads to is decided by its tag and by the number of bytes behind it. -/
theorem readFrom_header (offset : Nat) (tag : Tag) (declared : UInt32) (rest : Bytes) :
    readFrom offset (header tag declared ++ rest) =
      if tag.isAscii = false then .error (.nonAsciiTag tag)
      else if rest.length < declared.toNat then
        .error (.chunkOverrun tag declared.toNat rest.length)
      else (readFrom (offset + headerLength + declared.toNat) (rest.drop declared.toNat)).map
        (⟨tag, rest.take declared.toNat⟩ :: ·) := by
  have hvalue := value_declared declared
  simp only [LittleEndian.bytes] at hvalue
  simp only [header, Tag.bytes, LittleEndian.bytes, List.cons_append, List.nil_append]
  rw [readFrom]
  simp only [hvalue, Bool.not_eq_true']
  cases readFrom (offset + headerLength + declared.toNat) (rest.drop declared.toNat) <;> rfl

/-- No chunk begins at the offset, from which on these bytes are left: its header is cut short, or
else its tag is not ASCII, or else its payload is cut short. -/
inductive Refused (offset : Nat) : CodecError → Bytes → Prop
  | headerCut {s : Bytes} (hsome : 1 ≤ s.length) (hcut : s.length < headerLength) :
    Refused offset (.truncatedChunkHeader offset) s
  | nonAscii {tag : Tag} (htag : tag.isAscii = false) (declared : UInt32) (rest : Bytes) :
    Refused offset (.nonAsciiTag tag) (header tag declared ++ rest)
  | payloadCut {tag : Tag} (htag : tag.isAscii = true) {declared : UInt32} {rest : Bytes}
    (hcut : rest.length < declared.toNat) :
    Refused offset (.chunkOverrun tag declared.toNat rest.length) (header tag declared ++ rest)

/-- Where no chunk begins, reading fails for the reason that stands there. -/
theorem Refused.readFrom_eq {offset : Nat} {e : CodecError} {s : Bytes} (h : Refused offset e s) :
    readFrom offset s = .error e := by
  cases h with
  | headerCut hsome hcut =>
    rcases s with _ | ⟨_, _ | ⟨_, _ | ⟨_, _ | ⟨_, _ | ⟨_, _ | ⟨_, _ | ⟨_, _ | ⟨_, rest⟩⟩⟩⟩⟩⟩⟩⟩
    case nil => cases hsome
    case cons.cons.cons.cons.cons.cons.cons.cons =>
      simp only [List.length_cons, headerLength] at hcut
      omega
    all_goals simp [readFrom]
  | nonAscii htag declared rest => rw [readFrom_header, if_pos htag]
  | payloadCut htag hcut =>
    rw [readFrom_header, if_neg (by rw [htag]; decide), if_pos hcut]

/-- Some bytes begin with a chunk or are refused. -/
theorem begins_or_refused (offset : Nat) {s : Bytes} (hne : s ≠ []) :
    (∃ (c : Chunk) (rest : Bytes), c.Framable ∧ s = c.encode ++ rest) ∨ ∃ e, Refused offset e s := by
  rcases Nat.lt_or_ge s.length headerLength with hcut | hlong
  · exact .inr ⟨_, .headerCut (List.length_pos_iff.2 hne) hcut⟩
  obtain ⟨tag, declared, rest, rfl⟩ := exists_header hlong
  cases htag : tag.isAscii with
  | false => exact .inr ⟨_, .nonAscii htag declared rest⟩
  | true =>
    rcases Nat.lt_or_ge rest.length declared.toNat with hcut | hfull
    · exact .inr ⟨_, .payloadCut htag hcut⟩
    · have hlength : (rest.take declared.toNat).length = declared.toNat := List.length_take_of_le hfull
      have hframable : Framable ⟨tag, rest.take declared.toNat⟩ := ⟨htag, by
        rw [hlength]
        exact declared.toNat_lt⟩
      refine .inl ⟨_, rest.drop declared.toNat, hframable, ?_⟩
      rw [encode_eq_header hframable, hlength, UInt32.ofNat_toNat, List.append_assoc,
        List.take_append_drop]

/-- A chunk at the front is split off, and what is behind it is split from its end on. -/
theorem readFrom_encode_append (offset : Nat) {c : Chunk} (h : c.Framable) (rest : Bytes) :
    readFrom offset (c.encode ++ rest) =
      (readFrom (offset + headerLength + c.payload.length) rest).map (c :: ·) := by
  have hascii : c.tag.isAscii ≠ false := by rw [h.1]; decide
  have hfull : ¬ (c.payload ++ rest).length < c.payload.length := by
    rw [List.length_append]
    exact Nat.not_lt.2 (Nat.le_add_right _ _)
  rw [encode_eq_header h, List.append_assoc, readFrom_header, UInt32.toNat_ofNat_of_lt' h.2,
    if_neg hascii, if_neg hfull, List.take_left, List.drop_left]

/-- Whole chunks at the front are split off one after another, and what is behind them decides how
it ends. -/
theorem readFrom_encode_flatMap_append (offset : Nat) {chunks : List Chunk}
    (h : ∀ c ∈ chunks, c.Framable) (rest : Bytes) :
    readFrom offset (chunks.flatMap encode ++ rest) =
      (readFrom (offset + (chunks.flatMap encode).length) rest).map (chunks ++ ·) := by
  induction chunks generalizing offset with
  | nil => cases hread : readFrom offset rest <;> simp [hread, Except.map]
  | cons c chunks ih =>
    obtain ⟨hc, hchunks⟩ := List.forall_mem_cons.1 h
    have hlength : c.encode.length = headerLength + c.payload.length := by
      rw [encode_eq_header hc, List.length_append, length_header]
    rw [List.flatMap_cons, List.append_assoc, readFrom_encode_append offset hc, ih _ hchunks,
      List.length_append, hlength, Nat.add_assoc offset, Nat.add_assoc offset]
    cases readFrom (offset + (headerLength + c.payload.length + (chunks.flatMap encode).length))
      rest <;> rfl

theorem length_encode_append_lt (c : Chunk) (rest : Bytes) :
    rest.length < (c.encode ++ rest).length := by
  simp only [encode, Tag.bytes, List.length_append, List.length_cons]
  omega

/-- What has been read is written as the same bytes again, by induction on how many bytes are
left. -/
theorem encode_of_readFrom {offset : Nat} {data : Bytes} {chunks : List Chunk}
    (h : readFrom offset data = .ok chunks) :
    data = chunks.flatMap encode ∧ ∀ c ∈ chunks, c.Framable := by
  induction hlength : data.length using Nat.strongRecOn generalizing offset data chunks with
  | ind n ih =>
    subst hlength
    by_cases hne : data = []
    · subst hne
      rw [readFrom] at h
      cases h
      exact ⟨rfl, fun _ hmem => absurd hmem List.not_mem_nil⟩
    · rcases begins_or_refused offset hne with ⟨c, rest, hc, rfl⟩ | ⟨e, hrefused⟩
      · rw [readFrom_encode_append offset hc, Outcome.map_eq_ok_iff] at h
        obtain ⟨more, hmore, rfl⟩ := h
        obtain ⟨hrest, hframable⟩ := ih _ (length_encode_append_lt c rest) hmore rfl
        exact ⟨by rw [List.flatMap_cons, ← hrest], List.forall_mem_cons.2 ⟨hc, hframable⟩⟩
      · rw [hrefused.readFrom_eq] at h
        cases h

/-- A file is accepted exactly if it is made of chunks one after another, and these are what the
reader hands back. -/
theorem readAll_eq_ok_iff {data : Bytes} {chunks : List Chunk} :
    readAll data = .ok chunks ↔ data = chunks.flatMap encode ∧ ∀ c ∈ chunks, c.Framable := by
  constructor
  · exact encode_of_readFrom
  · rintro ⟨rfl, h⟩
    have hread := readFrom_encode_flatMap_append 0 h []
    rw [List.append_nil, readFrom] at hread
    exact hread.trans (congrArg Except.ok (List.append_nil chunks))

end LightShow.Chunk
