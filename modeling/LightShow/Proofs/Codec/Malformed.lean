import LightShow.Proofs.Codec.Event

namespace LightShow

namespace Reader

variable {α β : Type} {s : Bytes} {e : CodecError}

/-- Two readers fail as the first one does, or as the second does behind what the first has read. -/
theorem bind_eq_error_iff {r : Reader α} {k : α → Reader β} :
    (r >>= k) s = .error e ↔
      r s = .error e ∨ ∃ a mid, r s = .ok (a, mid) ∧ k a mid = .error e := by
  change (r s >>= fun p => k p.1 p.2) = _ ↔ _
  cases r s with
  | error e' => simp [Bind.bind, Except.bind]
  | ok p =>
    obtain ⟨a, mid⟩ := p
    simp only [Bind.bind, Except.bind, reduceCtorEq, false_or, Except.ok.injEq, Prod.mk.injEq]
    constructor
    · intro h
      exact ⟨a, mid, ⟨rfl, rfl⟩, h⟩
    · rintro ⟨_, _, ⟨rfl, rfl⟩, h⟩
      exact h

theorem byte_eq_error_iff {item : String} :
    byte item s = .error e ↔ s = [] ∧ e = .unexpectedEnd item := by
  cases s <;> simp [byte, eq_comm]

theorem u16_eq_error_iff {item : String} :
    u16 item s = .error e ↔ s.length < 2 ∧ e = .unexpectedEnd item := by
  have htake : take 2 item s = .error e ↔ s.length < 2 ∧ e = .unexpectedEnd item := by
    rw [← split?_eq_none_iff, take]
    cases split? 2 s <;> simp [eq_comm]
  rw [u16, bind_eq_error_iff, htake, or_iff_left]
  rintro ⟨front, mid, _, hpure⟩
  cases hpure

/-- Reading to the end fails exactly where the first failing value begins. -/
theorem Reads.toEnd_eq_error_iff {r : Reader α} {form : α → Bytes → Prop} (hr : Reads r form)
    (hne : ∀ a s, form a s → s ≠ []) :
    toEnd r s = .error e ↔ ∃ as front back, s = front ++ back ∧ Sequence form as front ∧
      back ≠ [] ∧ r back = .error e := by
  constructor
  · induction hlength : s.length using Nat.strongRecOn generalizing s with
    | ind n ih =>
      subst hlength
      intro h
      have hs : s ≠ [] := by
        rintro rfl
        rw [toEnd_nil] at h
        cases h
      cases hread : r s with
      | error e' =>
        rw [toEnd_of_error hs hread] at h
        cases h
        exact ⟨[], [], s, rfl, .nil, hs, hread⟩
      | ok p =>
        obtain ⟨a, rest⟩ := p
        obtain ⟨front, rfl, ha⟩ := (hr _ _ _).1 hread
        have hfront := hne a front ha
        rw [hr.toEnd_append ha hfront] at h
        have hrest : toEnd r rest = .error e := by
          cases hmore : toEnd r rest with
          | error e' =>
            rw [hmore] at h
            exact h
          | ok more =>
            rw [hmore] at h
            cases h
        have hpos := List.length_pos_iff.2 hfront
        obtain ⟨as, mid, back, rfl, has, hback, hfails⟩ :=
          ih rest.length (by simp only [List.length_append]; omega) rfl hrest
        exact ⟨a :: as, front ++ mid, back, (List.append_assoc ..).symm, .cons ha has, hback,
          hfails⟩
  · rintro ⟨as, front, back, rfl, has, hback, hfails⟩
    induction has with
    | nil => exact toEnd_of_error hback hfails
    | cons ha _ ih =>
      rw [List.append_assoc, hr.toEnd_append ha (hne _ _ ha), ih]
      rfl

end Reader

namespace Varint

/-- No number can be read off the bytes with so many bytes allowed for it: all bytes that there are,
or all that are allowed, are marked as not being the last. -/
inductive Malformed (length : Nat) : CodecError → Bytes → Prop
  | cutOff {s : Bytes} (hmarked : ∀ b ∈ s, 0x80 ≤ b) (hlength : s.length < length) :
    Malformed length (.unexpectedEnd "variable-length integer") s
  | tooLarge (front : Bytes) (hmarked : ∀ b ∈ front, 0x80 ≤ b) (hlength : front.length = length)
    (back : Bytes) : Malformed length .varintTooLarge (front ++ back)

variable {length : Nat} {s : Bytes} {e : CodecError}

/-- One more marked byte in front leaves a number unreadable. -/
theorem Malformed.cons {b : UInt8} (hb : 0x80 ≤ b) (h : Malformed length e s) :
    Malformed (length + 1) e (b :: s) := by
  cases h with
  | cutOff hmarked hlength =>
    exact .cutOff (List.forall_mem_cons.2 ⟨hb, hmarked⟩) (Nat.succ_lt_succ hlength)
  | tooLarge front hmarked hlength back =>
    exact .tooLarge (b :: front) (List.forall_mem_cons.2 ⟨hb, hmarked⟩)
      (congrArg (· + 1) hlength) back

/-- A number that cannot be read begins with a marked byte, and behind that it cannot be read
either. -/
theorem Malformed.of_cons {b : UInt8} (h : Malformed (length + 1) e (b :: s)) :
    0x80 ≤ b ∧ Malformed length e s := by
  generalize hbytes : b :: s = bytes at h
  cases h with
  | cutOff hmarked hlength =>
    subst hbytes
    obtain ⟨hb, hmarked⟩ := List.forall_mem_cons.1 hmarked
    exact ⟨hb, .cutOff hmarked (Nat.lt_of_succ_lt_succ hlength)⟩
  | tooLarge front hmarked hlength back =>
    cases front with
    | nil => cases hlength
    | cons b' front =>
      cases hbytes
      obtain ⟨hb, hmarked⟩ := List.forall_mem_cons.1 hmarked
      exact ⟨hb, .tooLarge front hmarked (Nat.succ.inj hlength) back⟩

/-- If no byte is allowed for it, a number is too large. -/
theorem malformed_zero_iff : Malformed 0 e s ↔ e = .varintTooLarge := by
  constructor
  · intro h
    cases h with
    | cutOff _ hlength => cases hlength
    | tooLarge => rfl
  · rintro rfl
    exact .tooLarge [] (fun _ hmem => absurd hmem List.not_mem_nil) rfl s

/-- If there are no bytes though some are allowed, a number is cut off. -/
theorem malformed_nil_iff :
    Malformed (length + 1) e [] ↔ e = .unexpectedEnd "variable-length integer" := by
  constructor
  · intro h
    generalize hbytes : [] = bytes at h
    cases h with
    | cutOff => rfl
    | tooLarge front _ hlength back =>
      rw [(List.append_eq_nil_iff.1 hbytes.symm).1] at hlength
      cases hlength
  · rintro rfl
    exact .cutOff (fun _ hmem => absurd hmem List.not_mem_nil) (Nat.succ_pos length)

/-- A number cannot be read exactly if it is cut off or too large, by induction on the bytes that
are allowed. -/
theorem readWithin_eq_error_iff : readWithin length s = .error e ↔ Malformed length e s := by
  induction length generalizing s with
  | zero =>
    rw [malformed_zero_iff]
    change Except.error CodecError.varintTooLarge = _ ↔ _
    rw [Except.error.injEq, eq_comm]
  | succ length ih =>
    rw [readWithin, Reader.bind_eq_error_iff]
    cases s with
    | nil => simp [Reader.byte_eq_error_iff, malformed_nil_iff, Reader.byte_eq_ok_iff]
    | cons b s =>
      constructor
      · rintro (hbyte | ⟨b', mid, hbyte, h⟩)
        · cases (Reader.byte_eq_error_iff.1 hbyte).1
        · cases Reader.byte_eq_ok_iff.1 hbyte
          split at h
          next => cases h
          next hb =>
            rcases Reader.bind_eq_error_iff.1 h with h | ⟨_, _, _, h⟩
            · exact .cons (UInt8.not_lt.1 hb) (ih.1 h)
            · cases h
      · intro h
        obtain ⟨hb, h⟩ := h.of_cons
        refine .inr ⟨b, s, rfl, ?_⟩
        rw [if_neg (UInt8.not_lt.2 hb), Reader.bind_eq_error_iff]
        exact .inl (ih.2 h)

end Varint

/-- A part of the payload of an event, with what errors call it. -/
inductive EventField where
  | byte (item : String)
  | word (item : String)
  | colour
  deriving DecidableEq, Repr

namespace EventField

variable {α β : Type}

/-- The bytes are the field. -/
def Whole : EventField → Bytes → Prop
  | byte _, s => s.length = 1
  | word _, s => s.length = 2
  | colour, s => ∃ colour, ColourRef.Form colour s

/-- The bytes end within the field, which is called so at that point. -/
inductive CutOff : EventField → String → Bytes → Prop
  | byte {item : String} : CutOff (.byte item) item []
  | word {item : String} {s : Bytes} (hlength : s.length < 2) : CutOff (.word item) item s
  | mode : CutOff .colour "colour mode" []
  | literal {mode : UInt8} {s : Bytes} (hmode : mode &&& ColourRef.literalFlag ≠ 0)
    (hlength : s.length < 3) : CutOff .colour "literal colour" (mode :: s)

/-- The bytes end within one of the fields. -/
inductive CutIn : List EventField → String → Bytes → Prop
  | here {field : EventField} {rest : List EventField} {item : String} {s : Bytes}
    (h : field.CutOff item s) : CutIn (field :: rest) item s
  | later {field : EventField} {rest : List EventField} {item : String} {front back : Bytes}
    (hfield : field.Whole front) (h : CutIn rest item back) :
    CutIn (field :: rest) item (front ++ back)

/-- The reader takes the field and fails only where the bytes end within it. -/
structure ReadBy (field : EventField) (r : Reader α) : Prop where
  accepts : ∀ s rest,
    (∃ a, r s = .ok (a, rest)) ↔ ∃ front, s = front ++ rest ∧ field.Whole front
  fails : ∀ s e,
    r s = .error e ↔ ∃ item, field.CutOff item s ∧ e = .unexpectedEnd item

/-- The reader fails only where the bytes end within one of the fields. -/
def FailsIn (fields : List EventField) (r : Reader α) : Prop :=
  ∀ s e, r s = .error e ↔ ∃ item, CutIn fields item s ∧ e = .unexpectedEnd item

theorem failsIn_pure (a : α) : FailsIn [] (pure a) := by
  intro s e
  constructor
  · intro h
    cases h
  · rintro ⟨_, hcut, _⟩
    cases hcut

/-- A reader for a field, and then one that fails in later fields, fails in the fields together. -/
theorem ReadBy.bind {field : EventField} {fields : List EventField} {r : Reader α}
    {k : α → Reader β} (h : field.ReadBy r) (hk : ∀ a, FailsIn fields (k a)) :
    FailsIn (field :: fields) (r >>= k) := by
  intro s e
  rw [Reader.bind_eq_error_iff, h.fails]
  constructor
  · rintro (⟨item, hcut, he⟩ | ⟨a, mid, hread, hrest⟩)
    · exact ⟨item, .here hcut, he⟩
    · obtain ⟨front, rfl, hwhole⟩ := (h.accepts s mid).1 ⟨a, hread⟩
      obtain ⟨item, hcut, he⟩ := (hk a mid e).1 hrest
      exact ⟨item, .later hwhole hcut, he⟩
  · rintro ⟨item, hcut, he⟩
    cases hcut with
    | here hcut => exact .inl ⟨item, hcut, he⟩
    | @later _ _ _ front back hwhole hcut =>
      obtain ⟨a, hread⟩ := (h.accepts (front ++ back) back).2 ⟨front, rfl, hwhole⟩
      exact .inr ⟨a, back, hread, (hk a back e).2 ⟨item, hcut, he⟩⟩

theorem readBy_byte (item : String) : (byte item).ReadBy (Reader.byte item) := by
  constructor
  · intro s rest
    simp only [Reader.byte_eq_ok_iff, Whole, List.length_eq_one_iff]
    constructor
    · rintro ⟨b, rfl⟩
      exact ⟨[b], rfl, b, rfl⟩
    · rintro ⟨_, rfl, b, rfl⟩
      exact ⟨b, rfl⟩
  · intro s e
    rw [Reader.byte_eq_error_iff]
    constructor
    · rintro ⟨rfl, rfl⟩
      exact ⟨item, .byte, rfl⟩
    · rintro ⟨_, ⟨⟩, rfl⟩
      exact ⟨rfl, rfl⟩

/-- A word is missing if fewer than two bytes are left. -/
theorem readBy_word (item : String) : (word item).ReadBy (Reader.u16 item) := by
  constructor
  · intro s rest
    simp only [Reader.u16_eq_ok_iff, Whole]
    constructor
    · rintro ⟨v, rfl⟩
      exact ⟨_, rfl, LittleEndian.length_bytes ..⟩
    · rintro ⟨front, rfl, hlength⟩
      refine ⟨UInt16.ofNat (LittleEndian.value front), ?_⟩
      have hlt := LittleEndian.value_lt front
      rw [hlength] at hlt
      rw [UInt16.toNat_ofNat_of_lt' hlt, ← hlength, LittleEndian.bytes_value]
  · intro s e
    rw [Reader.u16_eq_error_iff]
    constructor
    · rintro ⟨hlength, rfl⟩
      exact ⟨item, .word hlength, rfl⟩
    · rintro ⟨_, hcut, rfl⟩
      cases hcut with
      | word hlength => exact ⟨hlength, rfl⟩

/-- A colour that is named by its three strengths ends early if one of them is missing. -/
theorem read_literal_eq_error_iff {mode : UInt8} (hmode : mode &&& ColourRef.literalFlag ≠ 0)
    {s : Bytes} {e : CodecError} : ColourRef.read (mode :: s) = .error e ↔
      s.length < 3 ∧ e = .unexpectedEnd "literal colour" := by
  have hread : ColourRef.read (mode :: s) = (do
      let red ← Reader.byte "literal colour"
      let green ← Reader.byte "literal colour"
      let blue ← Reader.byte "literal colour"
      return .literal ⟨red, green, blue⟩ : Reader ColourRef) s := by
    simp only [ColourRef.read, bind, StateT.bind, Reader.byte, Except.bind, if_pos hmode]
  rw [hread]
  rcases s with _ | ⟨red, _ | ⟨green, _ | ⟨blue, rest⟩⟩⟩
  case cons.cons.cons =>
    constructor
    · rintro ⟨⟩
    · rintro ⟨hlength, _⟩
      simp only [List.length_cons] at hlength
      omega
  all_goals simp [bind, StateT.bind, Reader.byte, Except.bind, eq_comm]

/-- A colour is cut off before its mode, or within the literal colour that the mode announces. -/
theorem readBy_colour : colour.ReadBy ColourRef.read := by
  constructor
  · intro s rest
    simp only [ColourRef.reads_read s _ rest, Whole]
    exact ⟨fun ⟨c, front, hs, hform⟩ => ⟨front, hs, c, hform⟩,
      fun ⟨front, hs, c, hform⟩ => ⟨c, front, hs, hform⟩⟩
  · intro s e
    cases s with
    | nil =>
      constructor
      · rintro ⟨⟩
        exact ⟨_, .mode, rfl⟩
      · rintro ⟨_, ⟨⟩, rfl⟩
        rfl
    | cons mode s =>
      by_cases hmode : mode &&& ColourRef.literalFlag ≠ 0
      · rw [read_literal_eq_error_iff hmode]
        constructor
        · rintro ⟨hlength, rfl⟩
          exact ⟨_, .literal hmode hlength, rfl⟩
        · rintro ⟨_, hcut, rfl⟩
          cases hcut with
          | literal _ hlength => exact ⟨hlength, rfl⟩
      · have hread : ColourRef.read (mode :: s) =
            .ok (.palette (mode &&& ColourRef.indexMask), s) :=
          ColourRef.reads_read.of_form (.palette (Decidable.not_not.1 hmode)) s
        rw [hread]
        constructor
        · rintro ⟨⟩
        · rintro ⟨_, hcut, rfl⟩
          cases hcut with
          | literal hliteral _ => exact absurd hliteral hmode

end EventField

namespace PadEvent

/-- The fields that follow an opcode, if there is such an opcode. -/
def fields? : UInt8 → Option (List EventField)
  | 0x10 => some [.word "SwitchColour transition", .colour, .word "SwitchColour hold"]
  | 0x11 => some [.word "FadeToColour ramp", .byte "FadeToColour pulses", .colour,
      .word "FadeToColour hold"]
  | 0x12 => some [.word "FlashColour on length", .word "FlashColour off length",
      .byte "FlashColour pulses", .colour, .word "FlashColour hold"]
  | 0x13 => some [.word "Blackout transition", .word "Blackout hold"]
  | 0x14 => some [.word "SetDefaultTransition payload"]
  | 0x1F => some [.byte "KeyframeState payload"]
  | _ => none

/-- No event can be read off the bytes, which begin behind its distance in ticks. What follows an
unknown opcode does not matter. -/
inductive Malformed (pad : Pad) : CodecError → Bytes → Prop
  | missing : Malformed pad (.unexpectedEnd "pad opcode") []
  | unsupported {opcode : UInt8} (hopcode : fields? opcode = none) (back : Bytes) :
    Malformed pad (.unsupportedPadOpcode pad opcode) (opcode :: back)
  | cutOff {opcode : UInt8} {fields : List EventField} {item : String} {s : Bytes}
    (hopcode : fields? opcode = some fields) (hcut : EventField.CutIn fields item s) :
    Malformed pad (.unexpectedEnd item) (opcode :: s)

open EventField in
/-- Behind a known opcode an event fails only where the bytes end within its fields. -/
theorem failsIn_read (pad : Pad) {opcode : UInt8} {fields : List EventField}
    (h : fields? opcode = some fields) : FailsIn fields fun s => read pad (opcode :: s) := by
  unfold fields? at h
  split at h <;> cases h
  · exact (readBy_word _).bind fun _ => readBy_colour.bind fun _ =>
      (readBy_word _).bind fun _ => failsIn_pure _
  · exact (readBy_word _).bind fun _ => (readBy_byte _).bind fun _ => readBy_colour.bind fun _ =>
      (readBy_word _).bind fun _ => failsIn_pure _
  · exact (readBy_word _).bind fun _ => (readBy_word _).bind fun _ => (readBy_byte _).bind fun _ =>
      readBy_colour.bind fun _ => (readBy_word _).bind fun _ => failsIn_pure _
  · exact (readBy_word _).bind fun _ => (readBy_word _).bind fun _ => failsIn_pure _
  · exact (readBy_word _).bind fun _ => failsIn_pure _
  · exact (readBy_byte _).bind fun _ => failsIn_pure _

/-- An opcode without fields is refused, whatever stands behind it. -/
theorem read_of_unknown (pad : Pad) {opcode : UInt8} (h : fields? opcode = none) (s : Bytes) :
    read pad (opcode :: s) = .error (.unsupportedPadOpcode pad opcode) := by
  unfold fields? at h
  split at h
  case h_7 =>
    simp only [read, bind, StateT.bind, Reader.byte, Except.bind]
    rfl
  all_goals cases h

/-- An event cannot be read exactly if its opcode is missing, unknown or followed by too few
bytes. -/
theorem read_eq_error_iff {pad : Pad} {s : Bytes} {e : CodecError} :
    read pad s = .error e ↔ Malformed pad e s := by
  cases s with
  | nil =>
    constructor
    · rintro ⟨⟩
      exact .missing
    · rintro ⟨⟩
      rfl
  | cons opcode s =>
    constructor
    · intro h
      cases hfields : fields? opcode with
      | some fields =>
        obtain ⟨item, hcut, rfl⟩ := (failsIn_read pad hfields s e).1 h
        exact .cutOff hfields hcut
      | none =>
        rw [read_of_unknown pad hfields] at h
        cases h
        exact .unsupported hfields s
    · intro h
      cases h with
      | unsupported hopcode => exact read_of_unknown pad hopcode s
      | cutOff hopcode hcut => exact (failsIn_read pad hopcode s _).2 ⟨_, hcut, rfl⟩

end PadEvent

namespace Stream

variable {ε : Type} {event : Reader ε} {payload : Bytes} {e : CodecError}

/-- No timed event can be read off the bytes: neither its distance can be, or the event behind that
cannot. -/
inductive Malformed (broken : CodecError → Bytes → Prop) : CodecError → Bytes → Prop
  | delta {e : CodecError} {s : Bytes} (hne : s ≠ [])
    (hdelta : Varint.Malformed Varint.maxLength e s) : Malformed broken e s
  | event {n : Nat} {front back : Bytes} {e : CodecError} (hdelta : Varint.Readable n front)
    (hevent : broken e back) : Malformed broken e (front ++ back)

theorem Malformed.ne_nil {broken : CodecError → Bytes → Prop} {s : Bytes}
    (h : Malformed broken e s) : s ≠ [] := by
  cases h with
  | delta hne => exact hne
  | event hdelta => exact fun hnil => hdelta.1.ne_nil (List.append_eq_nil_iff.1 hnil).1

/-- An event in a stream cannot be read if its distance cannot, or the event behind that. -/
theorem timed_eq_error_iff {broken : CodecError → Bytes → Prop}
    (hevent : ∀ s e, event s = .error e ↔ broken e s) {s : Bytes} (hne : s ≠ []) :
    (do return (← Varint.read, ← event) : Reader (Nat × ε)) s = .error e ↔
      Malformed broken e s := by
  rw [Reader.bind_eq_error_iff, Varint.read, Varint.readWithin_eq_error_iff]
  constructor
  · rintro (hdelta | ⟨n, mid, hread, hrest⟩)
    · exact .delta hne hdelta
    · obtain ⟨front, rfl, hdelta⟩ := (Varint.reads_read _ _ _).1 hread
      rcases Reader.bind_eq_error_iff.1 hrest with hrest | ⟨_, _, _, hpure⟩
      · exact .event hdelta ((hevent mid e).1 hrest)
      · cases hpure
  · intro h
    cases h with
    | delta _ hdelta => exact .inl hdelta
    | @event n _ back _ hdelta hbroken =>
      refine .inr ⟨n, back, Varint.reads_read.of_form hdelta back, ?_⟩
      exact Reader.bind_eq_error_iff.2 (.inl ((hevent back e).2 hbroken))

/-- A stream is refused with the error of its first malformed event, whatever comes behind that. -/
theorem read_eq_error_iff {form : ε → Bytes → Prop} {broken : CodecError → Bytes → Prop}
    (hr : Reader.Reads event form) (hevent : ∀ s e, event s = .error e ↔ broken e s) :
    read event payload = .error e ↔ ∃ events front back, payload = front ++ back ∧
      Form form events front ∧ Malformed broken e back := by
  rw [read, (reads_timed hr).toEnd_eq_error_iff fun _ _ h => h.ne_nil]
  refine exists_congr fun events => exists_congr fun front => exists_congr fun back =>
    and_congr_right fun _ => and_congr_right fun _ => ?_
  constructor
  · rintro ⟨hne, herror⟩
    exact (timed_eq_error_iff hevent hne).1 herror
  · intro h
    exact ⟨h.ne_nil, (timed_eq_error_iff hevent h.ne_nil).2 h⟩

end Stream

end LightShow
