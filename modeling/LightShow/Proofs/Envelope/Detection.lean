import LightShow.Proofs.Envelope.Layout

namespace LightShow

/-- Bytes of text at the place of a header declare a payload of more than a hundred megabytes. -/
theorem Chunk.readAll_text {head : Bytes} (hlength : head.length = headerLength)
    (htext : ∀ b ∈ head, 9 ≤ b.toNat ∧ b.toNat < 128) {rest : Bytes}
    (hrest : rest.length < 0x9000000) :
    ∃ tag declared, readAll (head ++ rest) = .error (.chunkOverrun tag declared rest.length) := by
  match head, hlength with
  | [b0, b1, b2, b3, l0, l1, l2, l3], _ =>
    have hascii : Tag.isAscii ⟨b0, b1, b2, b3⟩ = true := by
      simp only [Tag.isAscii, Tag.bytes, List.all_eq_true, decide_eq_true_eq, UInt8.lt_iff_toNat_lt]
      exact fun b hb => (htext b (List.mem_append_left [l0, l1, l2, l3] hb)).2
    have hhigh := (htext l3 (by simp)).1
    have hdeclared : rest.length < LittleEndian.value [l0, l1, l2, l3] := by
      simp only [LittleEndian.value]
      omega
    refine ⟨⟨b0, b1, b2, b3⟩, LittleEndian.value [l0, l1, l2, l3], ?_⟩
    simp only [List.cons_append, List.nil_append]
    rw [readAll, readFrom]
    simp only [hascii, hdeclared, Bool.not_true, Bool.false_eq_true, if_false, if_true]

namespace Envelope

/-- In front of the signature there is nothing else than white space: blank lines, and what stands
before it in its own line. -/
theorem exists_front {opening : List (List Char)} (hopening : ∀ line ∈ opening, Blank line)
    {header : List Char} (hheader : IsHeader header) (body : List (List Char)) :
    ∃ front, Blank front ∧ front ++ signature <+: ['\n'].intercalate (opening ++ header :: body) := by
  induction opening with
  | nil =>
    obtain ⟨before, gap, after, hbefore, _, _, _, rfl⟩ := hheader
    refine ⟨before, hbefore, ?_⟩
    rw [← List.append_assoc, List.nil_append]
    cases body with
    | nil =>
      rw [List.intercalate_singleton]
      exact List.prefix_append _ _
    | cons line body =>
      rw [List.intercalate_cons_cons, List.append_assoc, List.append_assoc]
      exact List.prefix_append _ _
  | cons line opening ih =>
    obtain ⟨hline, hopening⟩ := List.forall_mem_cons.1 hopening
    obtain ⟨front, hfront, hprefix⟩ := ih hopening
    refine ⟨line ++ ['\n'] ++ front, ?_, ?_⟩
    · simp only [Blank, List.forall_mem_append, List.forall_mem_singleton]
      exact ⟨⟨hline, by decide⟩, hfront⟩
    · rw [List.cons_append, List.intercalate_cons_of_ne_nil (by simp), List.append_assoc _ front]
      exact (List.prefix_append_right_inj _).2 hprefix

/-- Nothing but white space stands before the signature of an envelope. -/
theorem LaidOut.exists_front {data : Bytes} {text : List Char} (h : LaidOut data text) :
    ∃ front, Blank front ∧ toAscii (front ++ signature) <+: data := by
  obtain @⟨characters, _, opening, hopening, header, hheader, body, _, _, hsplit⟩ := h
  obtain ⟨front, hfront, hprefix⟩ := Envelope.exists_front hopening hheader body
  rw [← hsplit, List.intercalate_splitOn] at hprefix
  exact ⟨front, hfront, hprefix.map _⟩

/-- Up to the end of the signature all bytes are ASCII, and none is below a tab. -/
theorem range_of_mem_front {front : List Char} (h : Blank front) :
    ∀ b ∈ toAscii (front ++ signature), 9 ≤ b.toNat ∧ b.toNat < 128 := by
  intro b hb
  obtain ⟨c, hc, rfl⟩ := List.mem_map.1 hb
  have hrange : 9 ≤ c.toNat ∧ c.toNat < 128 := by
    rcases List.mem_append.1 hc with hc | hc
    · have hblank := h c hc
      simp only [isBlank, Bool.or_eq_true, Bool.and_eq_true, decide_eq_true_eq] at hblank
      rcases hblank with rfl | hcode
      · decide
      · omega
    · have hsignature := range_of_mem_signature hc
      omega
  rw [UInt8.toNat_ofNat']
  omega

/-- Read as a container, an envelope is cut short. -/
theorem LaidOut.readAll_eq {data : Bytes} {text : List Char} (h : LaidOut data text)
    (hlength : data.length < 0x9000000) :
    ∃ tag declared, Chunk.readAll data = .error (.chunkOverrun tag declared (data.length - 8)) := by
  obtain ⟨front, hfront, behind, hdata⟩ := h.exists_front
  have hlong : Chunk.headerLength ≤ (toAscii (front ++ signature)).length := by
    rw [toAscii, List.length_map, List.length_append]
    exact Nat.le_add_left_of_le (by decide)
  have htake : data.take Chunk.headerLength =
      (toAscii (front ++ signature)).take Chunk.headerLength := by
    rw [← hdata, List.take_append_of_le_length hlong]
  have hrest : (data.drop Chunk.headerLength).length < 0x9000000 := by
    rw [List.length_drop]
    exact Nat.sub_lt_of_lt hlength
  obtain ⟨tag, declared, hread⟩ := Chunk.readAll_text (List.length_take_of_le hlong)
    (fun b hb => range_of_mem_front hfront b (List.mem_of_mem_take hb)) hrest
  rw [← htake, List.take_append_drop, List.length_drop] at hread
  exact ⟨tag, declared, hread⟩

end Envelope

open Envelope

/-- An envelope that can be decoded is unwrapped when it is loaded if it begins with its signature.
An envelope that has white space in front of it instead is taken for a container, and refused as one
that is cut short. -/
theorem Program.load_of_decode {data d : Bytes} (h : decode data = .ok d) :
    (toAscii signature <+: data →
      normalise data = .ok d ∧
      ∀ fs here path, fs.read here path = .ok data → load fs here path = parse d) ∧
    (¬ toAscii signature <+: data →
      (∃ c, isBlank c = true ∧ toAscii [c] <+: data) ∧
      normalise data = .ok data ∧
      (∀ fs here path, fs.read here path = .ok data → load fs here path = parse data) ∧
      (data.length < 0x9000000 →
        ∃ tag declared, (parse data : Except CodecError Show) =
          .error (.chunkOverrun tag declared (data.length - 8)))) := by
  rw [← isWrapped_iff]
  constructor
  · intro hwrapped
    have hnormalise : normalise data = .ok d := by rw [normalise, if_pos hwrapped, h]
    exact ⟨hnormalise, fun fs here path hread => load_eq hread hnormalise⟩
  · intro hbare
    obtain ⟨text, hlaid⟩ := exists_laidOut h
    obtain ⟨front, hfront, hprefix⟩ := hlaid.exists_front
    have hnormalise : normalise data = .ok data := by rw [normalise, if_neg hbare]
    refine ⟨?_, hnormalise, fun fs here path hread => load_eq hread hnormalise, fun hlength => ?_⟩
    · cases front with
      | nil => exact absurd (isWrapped_iff.2 hprefix) hbare
      | cons c front =>
        exact ⟨c, hfront c List.mem_cons_self, (List.prefix_append (toAscii [c]) _).trans hprefix⟩
    · obtain ⟨tag, declared, hread⟩ := hlaid.readAll_eq hlength
      refine ⟨tag, declared, ?_⟩
      rw [parse, hread]
      rfl

/-- Two envelopes in files, at the beginning of the file and behind white space. -/
def Program.margins : FileSystem :=
  ⟨[("flush", .file rewrapped), ("indented", .file annotated)]⟩

theorem Program.load_of_decode_margins :
    decode rewrapped = .ok [0, 1, 2, 3] ∧ toAscii signature <+: rewrapped ∧
    margins.read [] ⟨["flush"]⟩ = .ok rewrapped ∧ normalise rewrapped = .ok [0, 1, 2, 3] ∧
    load margins [] ⟨["flush"]⟩ = parse [0, 1, 2, 3] ∧
    decode annotated = .ok [0, 1, 2, 3] ∧ ¬ toAscii signature <+: annotated ∧
    margins.read [] ⟨["indented"]⟩ = .ok annotated ∧ normalise annotated = .ok annotated ∧
    load margins [] ⟨["indented"]⟩ = parse annotated ∧ annotated.length < 0x9000000 ∧
    ∃ tag declared, (parse annotated : Except CodecError Show) =
      .error (.chunkOverrun tag declared (annotated.length - 8)) := by
  have hflush : decode rewrapped = .ok [0, 1, 2, 3] := rfl
  have hindented : decode annotated = .ok [0, 1, 2, 3] := rfl
  have hprefix : toAscii signature <+: rewrapped := by decide
  have hbare : ¬ toAscii signature <+: annotated := by decide
  have hread : margins.read [] ⟨["flush"]⟩ = .ok rewrapped :=
    FileSystem.read_eq_ok rfl rfl (by decide) rfl
  have hread' : margins.read [] ⟨["indented"]⟩ = .ok annotated :=
    FileSystem.read_eq_ok rfl rfl (by decide) rfl
  have hlength : annotated.length < 0x9000000 := by decide
  obtain ⟨hnormalise, hload⟩ := (load_of_decode hflush).1 hprefix
  obtain ⟨_, hpassed, hload', hrefused⟩ := (load_of_decode hindented).2 hbare
  exact ⟨hflush, hprefix, hread, hnormalise, hload _ _ _ hread, hindented, hbare, hread', hpassed,
    hload' _ _ _ hread', hlength, hrefused hlength⟩

/-- An envelope need not be unwrapped although it can be decoded. -/
theorem Program.not_always_unwrapped :
    decode annotated = .ok [0, 1, 2, 3] ∧ normalise annotated = .ok annotated ∧
    ¬ ∀ data d, decode data = .ok d → normalise data = .ok d := by
  have hdecode : decode annotated = .ok [0, 1, 2, 3] := rfl
  have hnormalise : normalise annotated = .ok annotated := rfl
  refine ⟨hdecode, hnormalise, fun hall => ?_⟩
  have hsame := Except.ok.inj (hnormalise.symm.trans (hall _ _ hdecode))
  have hlength := congrArg List.length hsame
  exact absurd hlength (by decide)

end LightShow
