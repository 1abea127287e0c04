import LightShow.Proofs.Codec.Chunk
import Mathlib.Logic.ExistsUnique

namespace LightShow.Chunk

theorem Refused.ne_nil {offset : Nat} {e : CodecError} {s : Bytes} (h : Refused offset e s) :
    s ≠ [] := by
  rintro rfl
  have hread := h.readFrom_eq
  rw [readFrom] at hread
  cases hread

/-- No chunk begins with the bytes. -/
def Spent (s : Bytes) : Prop := ∀ (c : Chunk) (rest : Bytes), c.Framable → s ≠ c.encode ++ rest

theorem spent_nil : Spent [] := by
  intro c rest hc h
  have hlength := congrArg List.length h
  rw [encode_eq_header hc] at hlength
  simp only [List.length_append, length_header, List.length_nil, headerLength] at hlength
  omega

/-- Where reading is refused no chunk begins. -/
theorem Refused.spent {offset : Nat} {e : CodecError} {s : Bytes} (h : Refused offset e s) :
    Spent s := by
  intro c rest hc
  rw [encode_eq_header hc, List.append_assoc]
  cases h with
  | headerCut _ hcut =>
    rintro rfl
    simp only [List.length_append, length_header] at hcut
    omega
  | nonAscii htag declared behind =>
    intro heq
    obtain ⟨rfl, _, _⟩ := header_inj heq
    rw [hc.1] at htag
    cases htag
  | payloadCut _ hcut =>
    intro heq
    obtain ⟨_, rfl, rfl⟩ := header_inj heq
    rw [UInt32.toNat_ofNat_of_lt' hc.2, List.length_append] at hcut
    omega

/-- Bytes begin with one chunk at most, and what is behind it is settled by that. -/
theorem encode_append_inj {a b : Chunk} (ha : a.Framable) (hb : b.Framable) {s t : Bytes}
    (h : a.encode ++ s = b.encode ++ t) : a = b ∧ s = t := by
  obtain ⟨tag, payload⟩ := a
  obtain ⟨tag', payload'⟩ := b
  rw [encode_eq_header ha, encode_eq_header hb, List.append_assoc, List.append_assoc] at h
  obtain ⟨rfl, hdeclared, hrest⟩ := header_inj h
  have hlength := congrArg UInt32.toNat hdeclared
  rw [UInt32.toNat_ofNat_of_lt' ha.2, UInt32.toNat_ofNat_of_lt' hb.2] at hlength
  obtain ⟨rfl, hbehind⟩ := List.append_inj hrest hlength
  exact ⟨rfl, hbehind⟩

/-- The chunks can be split off the front of the bytes, which leaves the rest. -/
structure Splits (data : Bytes) (chunks : List Chunk) (rest : Bytes) : Prop where
  bytes : data = chunks.flatMap encode ++ rest
  framable : ∀ c ∈ chunks, c.Framable

theorem Splits.cons {c : Chunk} (hc : c.Framable) {data rest : Bytes} {chunks : List Chunk}
    (h : Splits data chunks rest) : Splits (c.encode ++ data) (c :: chunks) rest := by
  refine ⟨?_, List.forall_mem_cons.2 ⟨hc, h.framable⟩⟩
  rw [h.bytes, List.flatMap_cons, List.append_assoc]

theorem Splits.of_cons {c : Chunk} {data rest : Bytes} {chunks : List Chunk}
    (h : Splits data (c :: chunks) rest) :
    c.Framable ∧ ∃ behind, data = c.encode ++ behind ∧ Splits behind chunks rest := by
  obtain ⟨hc, hchunks⟩ := List.forall_mem_cons.1 h.framable
  refine ⟨hc, _, ?_, rfl, hchunks⟩
  rw [h.bytes, List.flatMap_cons, List.append_assoc]

/-- Chunks can be split off until none begins any more. -/
theorem exists_splits (offset : Nat) (data : Bytes) : ∃ chunks rest, Splits data chunks rest ∧
    (rest = [] ∨ ∃ e, Refused (offset + (chunks.flatMap encode).length) e rest) := by
  induction hlength : data.length using Nat.strongRecOn generalizing offset data with
  | ind n ih =>
    subst hlength
    by_cases hne : data = []
    · subst hne
      exact ⟨[], [], ⟨rfl, fun _ hmem => absurd hmem List.not_mem_nil⟩, .inl rfl⟩
    · rcases begins_or_refused offset hne with ⟨c, behind, hc, rfl⟩ | hrefused
      · obtain ⟨chunks, rest, hsplits, hend⟩ :=
          ih _ (length_encode_append_lt c behind) (offset + c.encode.length) behind rfl
        refine ⟨c :: chunks, rest, hsplits.cons hc, ?_⟩
        rwa [List.flatMap_cons, List.length_append, ← Nat.add_assoc]
      · exact ⟨[], data, ⟨rfl, fun _ hmem => absurd hmem List.not_mem_nil⟩, .inr hrefused⟩

/-- Whatever chunks can be split off, they are among the first of those that leave nothing with
which a chunk begins. -/
theorem Splits.isPrefix {data rest rest' : Bytes} {chunks chunks' : List Chunk}
    (h : Splits data chunks rest) (hspent : Spent rest) (h' : Splits data chunks' rest') :
    chunks' <+: chunks := by
  induction chunks' generalizing data chunks with
  | nil => exact List.nil_prefix
  | cons c' chunks' ih =>
    obtain ⟨hc', behind', rfl, hrest'⟩ := h'.of_cons
    cases chunks with
    | nil => exact absurd h.bytes.symm (hspent c' behind' hc')
    | cons c chunks =>
      obtain ⟨hc, behind, hdata, hrest⟩ := h.of_cons
      obtain ⟨rfl, rfl⟩ := encode_append_inj hc' hc hdata
      exact List.cons_prefix_cons.2 ⟨rfl, ih hrest hrest'⟩

/-- The chunks take up the longest part at the front of the bytes that is made of chunks. -/
structure SplitsMost (data : Bytes) (chunks : List Chunk) (rest : Bytes) : Prop
    extends Splits data chunks rest where
  longest : ∀ chunks' rest', Splits data chunks' rest' →
    (chunks'.flatMap encode).length ≤ (chunks.flatMap encode).length

/-- Chunks that leave nothing with which another one begins take up as much as any can. -/
theorem SplitsMost.of_spent {data rest : Bytes} {chunks : List Chunk} (h : Splits data chunks rest)
    (hspent : Spent rest) : SplitsMost data chunks rest := by
  refine ⟨h, fun chunks' rest' h' => ?_⟩
  obtain ⟨more, rfl⟩ := h.isPrefix hspent h'
  rw [List.flatMap_append, List.length_append]
  exact Nat.le_add_right _ _

/-- A file is accepted if splitting off chunks leaves nothing. -/
theorem Splits.append_nil_iff {data : Bytes} {chunks : List Chunk} :
    Splits data chunks [] ↔ readAll data = .ok chunks := by
  rw [readAll_eq_ok_iff]
  constructor
  · intro h
    exact ⟨h.bytes.trans (List.append_nil _), h.framable⟩
  · rintro ⟨hbytes, hframable⟩
    exact ⟨hbytes.trans (List.append_nil _).symm, hframable⟩

/-- Framing is exact. A file is accepted if it is made of chunks one after another, and there is
then just one list of chunks of which it is made. If it is not, then the error is that of the bytes
behind the longest front of the file that is made of chunks. -/
theorem readAll_exact (data : Bytes) :
    (∀ chunks, readAll data = .ok chunks ↔
      (∀ c ∈ chunks, c.tag.isAscii = true ∧ c.payload.length < 0x100000000) ∧
        chunks.flatMap encode = data) ∧
    ((∃ chunks, readAll data = .ok chunks) ↔ ∃! chunks, Splits data chunks []) ∧
    ∃ chunks rest, SplitsMost data chunks rest ∧
      (readAll data = .ok chunks ↔ rest = []) ∧
      ∀ e, readAll data = .error e ↔ Refused (chunks.flatMap encode).length e rest := by
  refine ⟨fun chunks => ?_, ?_, ?_⟩
  · rw [readAll_eq_ok_iff, eq_comm, and_comm]
    rfl
  · simp only [ExistsUnique, Splits.append_nil_iff]
    constructor
    · rintro ⟨chunks, hread⟩
      exact ⟨chunks, hread, fun _ hread' => Except.ok.inj (hread'.symm.trans hread)⟩
    · rintro ⟨chunks, hread, _⟩
      exact ⟨chunks, hread⟩
  · obtain ⟨chunks, rest, hsplits, hend⟩ := exists_splits 0 data
    rw [Nat.zero_add] at hend
    have hread := readFrom_encode_flatMap_append 0 hsplits.framable rest
    rw [← hsplits.bytes, Nat.zero_add, ← readAll] at hread
    refine ⟨chunks, rest, ?_⟩
    rcases hend with rfl | ⟨e, hrefused⟩
    · have hok : readAll data = .ok chunks := Splits.append_nil_iff.1 hsplits
      refine ⟨.of_spent hsplits spent_nil, iff_of_true hok rfl, fun e => ?_⟩
      exact iff_of_false (by rw [hok]; nofun) fun hrefused => hrefused.ne_nil rfl
    · rw [hrefused.readFrom_eq] at hread
      refine ⟨.of_spent hsplits hrefused.spent, iff_of_false (by rw [hread]; nofun) hrefused.ne_nil,
        fun e' => ⟨fun herror => ?_, fun hrefused' => ?_⟩⟩
      · obtain rfl := Except.error.inj (hread.symm.trans herror)
        exact hrefused
      · rw [hread, ← hrefused'.readFrom_eq, hrefused.readFrom_eq]
        rfl

end LightShow.Chunk
