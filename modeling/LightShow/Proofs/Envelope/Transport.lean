import LightShow.Cache
import LightShow.Proofs.Codec.Independence
import LightShow.Proofs.Envelope.Base64
import LightShow.Proofs.Envelope.Lines

namespace LightShow

namespace Envelope

/-- Each line with the character that ends it. -/
def terminated (lines : List (List Char)) : List Char := lines.flatMap (· ++ ['\n'])

/-- Lines that were written one by one are found again, with nothing behind the last of them. -/
theorem splitOn_terminated {lines : List (List Char)} (h : ∀ line ∈ lines, '\n' ∉ line) :
    (terminated lines).splitOn '\n' = lines ++ [[]] := by
  induction lines with
  | nil => rfl
  | cons line rest ih =>
    have hline : ∀ c ∈ line, (c == '\n') = false := by
      intro c hc
      rw [beq_eq_false_iff_ne]
      rintro rfl
      exact h line List.mem_cons_self hc
    have hrest := ih fun later hlater => h later (List.mem_cons_of_mem _ hlater)
    rw [terminated, List.flatMap_cons, List.append_assoc, List.singleton_append, List.splitOn,
      List.splitOnP_append_cons_of_forall_mem hline _ rfl]
    exact congrArg (line :: ·) hrest

/-- Of such lines those are read that are not blank. -/
theorem lines_terminated {lines : List (List Char)} (h : ∀ line ∈ lines, '\n' ∉ line) :
    Envelope.lines (terminated lines) = (lines.map trim).filter (· ≠ []) := by
  rw [Envelope.lines, splitOn_terminated h, List.map_append, List.filter_append]
  exact List.append_nil _

/-- Breaking a text into lines loses nothing. -/
theorem flatten_wrap {width : Nat} (hwidth : width ≠ 0) (text : List Char) :
    (wrap width text).flatten = text := by
  fun_induction wrap width text with
  | case1 text hstop =>
    rcases hstop with hzero | hnil
    · exact absurd hzero hwidth
    · rw [hnil, List.flatten_nil]
  | case2 text hgo ih => rw [List.flatten_cons, ih, List.take_append_drop]

/-- A line of a wrapped text is not empty, is no longer than the width and holds nothing else than
the text. -/
theorem of_mem_wrap {width : Nat} {text line : List Char} (h : line ∈ wrap width text) :
    line ≠ [] ∧ line.length ≤ width ∧ ∀ c ∈ line, c ∈ text := by
  fun_induction wrap width text with
  | case1 => cases h
  | case2 text hgo ih =>
    rcases List.mem_cons.1 h with rfl | hmem
    · refine ⟨fun hnil => hgo ?_, List.length_take_le _ _, fun c hc => List.mem_of_mem_take hc⟩
      exact (List.take_eq_nil_iff.1 hnil).imp id id
    · obtain ⟨hne, hle, hsub⟩ := ih hmem
      exact ⟨hne, hle, fun c hc => List.mem_of_mem_drop (hsub c hc)⟩

/-- Only the last line of a wrapped text may be short. -/
theorem length_of_mem_dropLast_wrap {width : Nat} {text line : List Char}
    (h : line ∈ (wrap width text).dropLast) : line.length = width := by
  fun_induction wrap width text with
  | case1 => cases h
  | case2 text hgo ih =>
    cases hmore : wrap width (text.drop width) with
    | nil =>
      rw [hmore] at h
      cases h
    | cons next more =>
      rw [hmore, List.dropLast_cons_cons] at h
      rcases List.mem_cons.1 h with rfl | hmem
      · have hrest : text.drop width ≠ [] := by
          intro hnil
          rw [hnil, wrap, if_pos (.inr rfl)] at hmore
          cases hmore
        have hlong := List.length_pos_iff.2 hrest
        rw [List.length_drop] at hlong
        rw [List.length_take]
        omega
      · rw [hmore] at ih
        exact ih hmem

/-- The lines into which the container of an envelope is written. -/
def payloadLines (d : Bytes) : List (List Char) := wrap lineWidth (Base64.encode d)

theorem encode_eq_terminated (d : Bytes) : encode d = terminated (headerLine :: payloadLines d) :=
  rfl

/-- A line of payload has visible characters only and no comment mark. -/
theorem visible_of_mem_payloadLines {d : Bytes} {line : List Char} (h : line ∈ payloadLines d)
    {c : Char} (hc : c ∈ line) : 32 < c.toNat ∧ c.toNat < 127 ∧ c ≠ '#' :=
  (Base64.inText_of_mem_encode c ((of_mem_wrap h).2.2 c hc)).visible

theorem not_blank_of_mem_payloadLines {d : Bytes} {line : List Char} (h : line ∈ payloadLines d) :
    ∀ c ∈ line, isBlank c = false := fun _ hc =>
  isBlank_eq_false (visible_of_mem_payloadLines h hc).1

/-- No line that is written is broken by its own characters. -/
theorem newline_not_mem {d : Bytes} : ∀ line ∈ headerLine :: payloadLines d, '\n' ∉ line := by
  intro line hline hmem
  rcases List.mem_cons.1 hline with rfl | hline
  · exact absurd hmem (by decide)
  · have hlow := (visible_of_mem_payloadLines hline hmem).1
    exact absurd hlow (by decide)

/-- An envelope is a text of ASCII characters. -/
theorem isAscii_encode (d : Bytes) : ∀ c ∈ encode d, c.toNat < 128 := by
  intro c hc
  rw [encode_eq_terminated, terminated, List.mem_flatMap] at hc
  obtain ⟨line, hline, hc⟩ := hc
  rcases List.mem_append.1 hc with hc | hc
  · rcases List.mem_cons.1 hline with rfl | hline
    · have hheader : headerLine.all (fun c => decide (c.toNat < 128)) = true := by decide
      exact of_decide_eq_true (List.all_eq_true.1 hheader c hc)
    · have hvisible := visible_of_mem_payloadLines hline hc
      omega
  · rw [List.mem_singleton.1 hc]
    decide

/-- The lines of an envelope come out again as they were written. -/
theorem lines_encode (d : Bytes) : lines (encode d) = headerLine :: payloadLines d := by
  have htrim : ∀ line ∈ payloadLines d, trim line = line := fun line hline =>
    trim_of_not_blank (not_blank_of_mem_payloadLines hline)
  have hkeep : ∀ line ∈ payloadLines d, decide (line ≠ []) = true := fun line hline =>
    decide_eq_true (of_mem_wrap hline).1
  have hheader : trim headerLine = headerLine := by decide
  rw [encode_eq_terminated, lines_terminated newline_not_mem, List.map_cons, hheader,
    List.map_congr_left htrim, List.map_id', List.filter_cons_of_pos (by decide),
    List.filter_eq_self.2 hkeep]

/-- The lines of a payload are read as the whole payload. -/
theorem payload_payloadLines (d : Bytes) : payload (payloadLines d) = Base64.encode d := by
  have hkeep : ∀ line ∈ payloadLines d, decide (line.head? ≠ some '#') = true := by
    intro line hline
    refine decide_eq_true fun hhash => ?_
    have hmem : '#' ∈ line := List.mem_of_mem_head? hhash
    exact (visible_of_mem_payloadLines hline hmem).2.2 rfl
  rw [payload, List.filter_eq_self.2 hkeep, payloadLines, flatten_wrap (by decide)]

/-- An envelope holds what was put into it. -/
theorem decode_encode {d : Bytes} (h : d ≠ []) : decode (toAscii (encode d)) = .ok d := by
  have hpayload : Base64.encode d ≠ [] := fun hnil => h (Base64.encode_eq_nil_iff.1 hnil)
  have hheader : checkHeader headerLine = .ok () := rfl
  simp only [decode, ofAscii?_toAscii (isAscii_encode d), lines_encode, hheader,
    payload_payloadLines, hpayload, Base64.decode_encode, Bind.bind, Except.bind, if_false]
  rfl

/-- A file counts as wrapped exactly if it begins with the signature. -/
theorem isWrapped_iff {data : Bytes} : isWrapped data = true ↔ toAscii signature <+: data := by
  rw [isWrapped, List.isPrefixOf_iff_prefix]

theorem isWrapped_encode (d : Bytes) : isWrapped (toAscii (encode d)) = true := by
  rw [isWrapped_iff]
  refine List.IsPrefix.map _ ?_
  rw [encode_eq_terminated, terminated, List.flatMap_cons, headerLine, List.append_assoc,
    List.append_assoc]
  exact List.prefix_append _ _

/-- What was wrapped is unwrapped when it is loaded. -/
theorem normalise_encode {d : Bytes} (h : d ≠ []) : normalise (toAscii (encode d)) = .ok d := by
  rw [normalise, if_pos (isWrapped_encode d), decode_encode h]

/-- A container that begins like an envelope begins with a chunk of more than a gigabyte. -/
theorem isWrapped_eq_false {d : Bytes} {chunks : List Chunk} (hread : Chunk.readAll d = .ok chunks)
    (hlength : d.length < 0x40000000) : isWrapped d = false := by
  rw [← Bool.not_eq_true, isWrapped_iff]
  rintro ⟨rest, rfl⟩
  have hsignature : toAscii signature = [0x4C, 0x53, 0x54, 0x46, 0x2D, 0x54, 0x45, 0x58, 0x54] := by
    decide
  have hdeclared : LittleEndian.value [0x2D, 0x54, 0x45, 0x58] = 1480938541 := by decide
  rw [hsignature] at hread hlength
  simp only [List.cons_append, List.nil_append, List.length_cons] at hread hlength
  rw [Chunk.readAll, Chunk.readFrom] at hread
  simp only [hdeclared, List.length_cons] at hread
  rw [if_neg (by decide), if_pos (by omega)] at hread
  cases hread

/-- A file of chunks that is not too long is passed on as it is. -/
theorem normalise_container {d : Bytes} {chunks : List Chunk}
    (hread : Chunk.readAll d = .ok chunks) (hlength : d.length < 0x40000000) :
    normalise d = .ok d := by
  rw [normalise, isWrapped_eq_false hread hlength]
  rfl

end Envelope

/-- A file that stands in the root directory is read under its name. -/
theorem FileSystem.read_eq_ok {fs : FileSystem} {here : Location} {path : Path} {name : String}
    {content : Bytes} (hcheck : path.check = .ok ()) (hsteps : path.stepsFrom here = [.down name])
    (hname : name.utf8ByteSize ≤ maxNameLength)
    (hlookup : fs.entries.lookup name = some (.file content)) :
    fs.read here path = .ok content := by
  have hchild : fs.root.child? name = some (.file content) := hlookup
  have hdirectory : fs.root.isDirectory = true := rfl
  have hwalk : fs.follow [.down name] = .ok [name] := by
    rw [follow, walk]
    simp only [treeAt, hdirectory, Bool.not_true, Bool.false_eq_true, if_false,
      if_neg (Nat.not_lt.2 hname), hchild]
    rw [walk]
    rfl
  have hget : fs.get? [name] = some (.file content) := by
    simp only [get?, FileTree.get?, hchild, Bind.bind, Option.bind]
  simp only [read, hcheck, hsteps, hwalk, hget, Bind.bind, Except.bind]

open Envelope

/-- Loading a file is reading it, taking it out of its envelope and parsing it. -/
theorem Program.load_eq {fs : FileSystem} {here : Location} {path : Path} {raw d : Bytes}
    (hread : fs.read here path = .ok raw) (hnormalise : normalise raw = .ok d) :
    load fs here path = parse d := by
  rw [load, hread]
  change (normalise raw >>= parse) = parse d
  rw [hnormalise]
  rfl

/-- Putting a container into an envelope changes nothing about it: the envelope, which has the form
it should have, is unwrapped to the container, a container is never taken for an envelope, and a
file is loaded to the same program or error whichever of the two it holds. -/
theorem Program.load_wrapped_or_bare (d : Bytes) :
    ((∀ c ∈ encode d, c.toNat < 128) ∧
      ∃ lines : List (List Char),
        encode d = ("LSTF-TEXT 1".toList :: lines).flatMap (· ++ ['\n']) ∧
        lines.flatten = Base64.encode d ∧
        (∀ line ∈ lines, 1 ≤ line.length ∧ line.length ≤ 76 ∧ '\n' ∉ line) ∧
        ∀ line ∈ lines.dropLast, line.length = 76) ∧
    (d ≠ [] → normalise (toAscii (encode d)) = .ok d) ∧
    ((∃ chunks, Chunk.readAll d = .ok chunks) → d.length < 0x40000000 →
      normalise d = .ok d ∧
      (d ≠ [] → ∀ fs here path,
        (fs.read here path = .ok d ∨ fs.read here path = .ok (toAscii (encode d))) →
          load fs here path = parse d)) := by
  refine ⟨⟨isAscii_encode d, payloadLines d, rfl, ?_, fun line hline => ?_, fun line hline => ?_⟩,
    normalise_encode, fun ⟨chunks, hchunks⟩ hlength => ?_⟩
  · exact flatten_wrap (by decide) _
  · obtain ⟨hne, hle, _⟩ := of_mem_wrap hline
    exact ⟨List.length_pos_iff.2 hne, hle, newline_not_mem line (List.mem_cons_of_mem _ hline)⟩
  · exact length_of_mem_dropLast_wrap hline
  · have hbare := normalise_container hchunks hlength
    refine ⟨hbare, fun hne fs here path hread => ?_⟩
    rcases hread with hread | hread
    · exact load_eq hread hbare
    · exact load_eq hread (normalise_encode hne)

/-- A show of two pads as it is kept in a file. -/
def Program.gatheredBytes : Bytes := gathered.flatMap Chunk.encode

/-- Two files with that show, one bare and one in an envelope. -/
def Program.shelf : FileSystem :=
  ⟨[("bare", .file gatheredBytes), ("wrapped", .file (toAscii (encode gatheredBytes)))]⟩

theorem Program.load_wrapped_or_bare_shelf :
    gatheredBytes ≠ [] ∧ normalise (toAscii (encode gatheredBytes)) = .ok gatheredBytes ∧
    (∃ chunks, Chunk.readAll gatheredBytes = .ok chunks) ∧ gatheredBytes.length < 0x40000000 ∧
    normalise gatheredBytes = .ok gatheredBytes ∧
    shelf.read [] ⟨["bare"]⟩ = .ok gatheredBytes ∧
    shelf.read [] ⟨["wrapped"]⟩ = .ok (toAscii (encode gatheredBytes)) ∧
    load shelf [] ⟨["bare"]⟩ = parse gatheredBytes ∧
    load shelf [] ⟨["wrapped"]⟩ = parse gatheredBytes := by
  have hne : gatheredBytes ≠ [] := by decide
  have hframable : ∀ c ∈ gathered, c.Framable := by decide
  have hchunks : ∃ chunks, Chunk.readAll gatheredBytes = .ok chunks :=
    ⟨gathered, Chunk.readAll_eq_ok_iff.2 ⟨rfl, hframable⟩⟩
  have hlength : gatheredBytes.length < 0x40000000 := by decide
  have hbare : shelf.read [] ⟨["bare"]⟩ = .ok gatheredBytes :=
    FileSystem.read_eq_ok rfl rfl (by decide) rfl
  have hwrapped : shelf.read [] ⟨["wrapped"]⟩ = .ok (toAscii (encode gatheredBytes)) :=
    FileSystem.read_eq_ok rfl rfl (by decide) rfl
  obtain ⟨_, hnormalise, hcontainer⟩ := load_wrapped_or_bare gatheredBytes
  obtain ⟨hsame, hload⟩ := hcontainer hchunks hlength
  exact ⟨hne, hnormalise hne, hchunks, hlength, hsame, hbare, hwrapped,
    hload hne _ _ _ (.inl hbare), hload hne _ _ _ (.inr hwrapped)⟩

end LightShow
