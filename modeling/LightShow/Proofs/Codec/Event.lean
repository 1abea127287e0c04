import LightShow.PadEvent
import LightShow.Proofs.Codec.Stream
import LightShow.Tempo.Events

namespace LightShow

namespace ColourRef

/-- The bytes name the colour: a first byte and, if that has the flag for it, the colour itself. -/
inductive Form : ColourRef → Bytes → Prop
  | palette {mode : UInt8} (hmode : mode &&& literalFlag = 0) :
    Form (.palette (mode &&& indexMask)) [mode]
  | literal {mode : UInt8} {colour : Colour} (hmode : mode &&& literalFlag ≠ 0) :
    Form (.literal colour) (mode :: colour.bytes)

/-- A reference that the table of colours can answer. -/
def InTable : ColourRef → Prop
  | .palette index => index.toNat < Palette.size
  | .literal _ => True

/-- A colour is read as it is written: by an index in the low bits of the mode, or in full behind
it. -/
theorem reads_read : Reader.Reads read Form := by
  intro s colour rest
  simp only [read, Reader.bind_eq_ok_iff, Reader.byte_eq_ok_iff]
  constructor
  · rintro ⟨mode, mid, rfl, h⟩
    split at h
    next hmode =>
      simp only [Reader.bind_eq_ok_iff, Reader.byte_eq_ok_iff, Reader.pure_eq_ok_iff] at h
      obtain ⟨red, _, rfl, green, _, rfl, blue, _, rfl, rfl, rfl⟩ := h
      exact ⟨_, rfl, .literal hmode⟩
    next hmode =>
      obtain ⟨rfl, rfl⟩ := Reader.pure_eq_ok_iff.1 h
      exact ⟨[mode], rfl, .palette (Decidable.not_not.1 hmode)⟩
  · rintro ⟨_, rfl, hform⟩
    cases hform with
    | @palette mode hmode =>
      refine ⟨mode, rest, rfl, ?_⟩
      rw [if_neg (not_not_intro hmode)]
      rfl
    | @literal mode colour hmode =>
      refine ⟨mode, colour.bytes ++ rest, rfl, ?_⟩
      rw [if_pos hmode]
      rfl

/-- The index mask leaves no index that the table does not have. -/
theorem and_indexMask_toNat_lt (mode : UInt8) : (mode &&& indexMask).toNat < Palette.size := by
  rw [UInt8.toNat_and]
  exact Nat.lt_succ_of_le Nat.and_le_right

/-- A colour that has been read can always be answered by the table. -/
theorem Form.inTable {colour : ColourRef} {s : Bytes} (h : Form colour s) : colour.InTable := by
  cases h with
  | palette _ => exact and_indexMask_toNat_lt _
  | literal _ => trivial

/-- An index of the table is not changed by the mask. -/
theorem and_indexMask_of_lt {index : UInt8} (h : index.toNat < Palette.size) :
    index &&& indexMask = index := by
  apply UInt8.toNat_inj.1
  rw [UInt8.toNat_and]
  exact (Nat.and_two_pow_sub_one_eq_mod index.toNat 5).trans (Nat.mod_eq_of_lt h)

/-- A colour that the table can answer is written in a form that can be read. -/
theorem form_encode {colour : ColourRef} (h : colour.InTable) : Form colour colour.encode := by
  cases colour with
  | palette index =>
    have hmask : index &&& indexMask = index := and_indexMask_of_lt h
    have hflag : (index &&& indexMask) &&& literalFlag = 0 := by
      rw [UInt8.and_assoc, show indexMask &&& literalFlag = 0 from rfl, UInt8.and_zero]
    have hform := Form.palette hflag
    rw [encode, hmask]
    rwa [hmask, hmask] at hform
  | literal colour => exact .literal (by decide)

end ColourRef

namespace PadEvent

/-- The bytes are the event: its opcode and its fields. -/
inductive Form : PadEvent → Bytes → Prop
  | switch (transition : UInt16) {colour : ColourRef} (hold : UInt16) {s : Bytes}
    (hcolour : colour.Form s) :
    Form (.switch transition colour hold)
      (0x10 :: (LittleEndian.bytes 2 transition.toNat ++ s ++ LittleEndian.bytes 2 hold.toNat))
  | fade (ramp : UInt16) (pulses : UInt8) {colour : ColourRef} (hold : UInt16) {s : Bytes}
    (hcolour : colour.Form s) :
    Form (.fade ramp pulses colour hold)
      (0x11 :: (LittleEndian.bytes 2 ramp.toNat ++ pulses :: s ++
        LittleEndian.bytes 2 hold.toNat))
  | flash (on off : UInt16) (pulses : UInt8) {colour : ColourRef} (hold : UInt16) {s : Bytes}
    (hcolour : colour.Form s) :
    Form (.flash on off pulses colour hold)
      (0x12 :: (LittleEndian.bytes 2 on.toNat ++ LittleEndian.bytes 2 off.toNat ++ pulses :: s ++
        LittleEndian.bytes 2 hold.toNat))
  | blackout (transition hold : UInt16) :
    Form (.blackout transition hold)
      (0x13 :: (LittleEndian.bytes 2 transition.toNat ++ LittleEndian.bytes 2 hold.toNat))
  | defaultTransition (transition : UInt16) :
    Form (.defaultTransition transition) (0x14 :: LittleEndian.bytes 2 transition.toNat)
  | keyframe (state : UInt8) : Form (.keyframe state) [0x1F, state]

/-- True if the event shows something on its pad. -/
def shows : PadEvent → Bool
  | .switch .. | .fade .. | .flash .. | .blackout .. => true
  | .defaultTransition _ | .keyframe _ => false

/-- The colour of the event, if it names one, is one that the table can answer. -/
def InTable (e : PadEvent) : Prop := ∀ colour, e.colour? = some colour → colour.InTable

/-- An event that has been read has no colour outside the table. -/
theorem Form.inTable {e : PadEvent} {s : Bytes} (h : Form e s) : e.InTable := by
  intro colour hcolour
  cases h <;> simp only [colour?, Option.some.injEq, reduceCtorEq] at hcolour
  all_goals
    subst hcolour
    rename_i hform
    exact hform.inTable

/-- An event whose colours the table can answer is written in a form that can be read, opcode by
opcode. -/
theorem form_encode {e : PadEvent} (h : e.InTable) : Form e e.encode := by
  cases e with
  | switch transition colour hold => exact .switch _ _ (ColourRef.form_encode (h _ rfl))
  | fade ramp pulses colour hold => exact .fade _ _ _ (ColourRef.form_encode (h _ rfl))
  | flash on off pulses colour hold => exact .flash _ _ _ _ (ColourRef.form_encode (h _ rfl))
  | blackout transition hold => exact .blackout _ _
  | defaultTransition transition => exact .defaultTransition _
  | keyframe state => exact .keyframe _

/-- What is read as an event stands at the front of the bytes in one of the forms of that event. -/
theorem form_of_read {pad : Pad} {s rest : Bytes} {e : PadEvent}
    (h : read pad s = .ok (e, rest)) : ∃ front, s = front ++ rest ∧ Form e front := by
  simp only [read, Reader.bind_eq_ok_iff, Reader.byte_eq_ok_iff] at h
  obtain ⟨opcode, mid, rfl, h⟩ := h
  split at h <;>
    simp only [Reader.bind_eq_ok_iff, Reader.byte_eq_ok_iff, Reader.u16_eq_ok_iff,
      Reader.pure_eq_ok_iff, Reader.throw_ne_ok] at h
  · obtain ⟨transition, _, rfl, colour, _, hcolour, hold, _, rfl, rfl, rfl⟩ := h
    obtain ⟨s, rfl, hform⟩ := (ColourRef.reads_read _ _ _).1 hcolour
    exact ⟨_, by simp, .switch transition hold hform⟩
  · obtain ⟨ramp, _, rfl, pulses, _, rfl, colour, _, hcolour, hold, _, rfl, rfl, rfl⟩ := h
    obtain ⟨s, rfl, hform⟩ := (ColourRef.reads_read _ _ _).1 hcolour
    exact ⟨_, by simp, .fade ramp pulses hold hform⟩
  · obtain ⟨on, _, rfl, off, _, rfl, pulses, _, rfl, colour, _, hcolour, hold, _, rfl, rfl,
      rfl⟩ := h
    obtain ⟨s, rfl, hform⟩ := (ColourRef.reads_read _ _ _).1 hcolour
    exact ⟨_, by simp, .flash on off pulses hold hform⟩
  · obtain ⟨transition, _, rfl, hold, _, rfl, rfl, rfl⟩ := h
    exact ⟨_, by simp, .blackout transition hold⟩
  · obtain ⟨transition, _, rfl, rfl, rfl⟩ := h
    exact ⟨_, by simp, .defaultTransition transition⟩
  · obtain ⟨state, _, rfl, rfl, rfl⟩ := h
    exact ⟨_, by simp, .keyframe state⟩

/-- Each form of an event is read as the event, whatever stands behind. -/
theorem read_of_form (pad : Pad) {front : Bytes} {e : PadEvent} (h : Form e front) (rest : Bytes) :
    read pad (front ++ rest) = .ok (e, rest) := by
  simp only [read, Reader.bind_eq_ok_iff, Reader.byte_eq_ok_iff]
  cases h with
  | switch transition hold hcolour =>
    simp only [List.cons_append, List.append_assoc]
    refine ⟨0x10, _, rfl, ?_⟩
    simp only [Reader.bind_eq_ok_iff, Reader.u16_eq_ok_iff, Reader.pure_eq_ok_iff]
    exact ⟨_, _, rfl, _, _, ColourRef.reads_read.of_form hcolour _, _, _, rfl, rfl, rfl⟩
  | fade ramp pulses hold hcolour =>
    simp only [List.cons_append, List.append_assoc]
    refine ⟨0x11, _, rfl, ?_⟩
    simp only [Reader.bind_eq_ok_iff, Reader.byte_eq_ok_iff, Reader.u16_eq_ok_iff,
      Reader.pure_eq_ok_iff]
    exact ⟨_, _, rfl, _, _, rfl, _, _, ColourRef.reads_read.of_form hcolour _, _, _, rfl, rfl, rfl⟩
  | flash on off pulses hold hcolour =>
    simp only [List.cons_append, List.append_assoc]
    refine ⟨0x12, _, rfl, ?_⟩
    simp only [Reader.bind_eq_ok_iff, Reader.byte_eq_ok_iff, Reader.u16_eq_ok_iff,
      Reader.pure_eq_ok_iff]
    exact ⟨_, _, rfl, _, _, rfl, _, _, rfl, _, _, ColourRef.reads_read.of_form hcolour _, _, _, rfl,
      rfl, rfl⟩
  | blackout transition hold =>
    simp only [List.cons_append, List.append_assoc]
    refine ⟨0x13, _, rfl, ?_⟩
    simp only [Reader.bind_eq_ok_iff, Reader.u16_eq_ok_iff, Reader.pure_eq_ok_iff]
    exact ⟨_, _, rfl, _, _, rfl, rfl, rfl⟩
  | defaultTransition transition =>
    refine ⟨0x14, _, rfl, ?_⟩
    simp only [Reader.bind_eq_ok_iff, Reader.u16_eq_ok_iff, Reader.pure_eq_ok_iff]
    exact ⟨_, _, rfl, rfl, rfl⟩
  | keyframe state =>
    refine ⟨0x1F, _, rfl, ?_⟩
    simp only [Reader.bind_eq_ok_iff, Reader.byte_eq_ok_iff, Reader.pure_eq_ok_iff]
    exact ⟨_, _, rfl, rfl, rfl⟩

/-- An event is read exactly where one of its forms stands. -/
theorem reads_read (pad : Pad) : Reader.Reads (read pad) Form := by
  intro s e rest
  constructor
  · exact form_of_read
  · rintro ⟨front, rfl, hform⟩
    exact read_of_form pad hform rest

end PadEvent

namespace TempoChange

/-- A change has only one form. -/
theorem reads_read : Reader.Reads read fun change s => s = change.encode := by
  intro s change rest
  simp only [read, Reader.bind_eq_ok_iff, Reader.byte_eq_ok_iff]
  constructor
  · rintro ⟨opcode, mid, rfl, h⟩
    split at h <;>
      simp only [Reader.bind_eq_ok_iff, Reader.u32_eq_ok_iff, Reader.u16_eq_ok_iff,
        Reader.pure_eq_ok_iff, Reader.throw_ne_ok] at h
    · obtain ⟨value, _, rfl, rfl, rfl⟩ := h
      exact ⟨_, rfl, rfl⟩
    · obtain ⟨value, _, rfl, rfl, rfl⟩ := h
      exact ⟨_, rfl, rfl⟩
  · rintro ⟨_, rfl, rfl⟩
    cases change with
    | tempo value =>
      refine ⟨0x01, _, rfl, ?_⟩
      simp only [Reader.bind_eq_ok_iff, Reader.u32_eq_ok_iff, Reader.pure_eq_ok_iff]
      exact ⟨_, _, rfl, rfl, rfl⟩
    | timebase value =>
      refine ⟨0x02, _, rfl, ?_⟩
      simp only [Reader.bind_eq_ok_iff, Reader.u16_eq_ok_iff, Reader.pure_eq_ok_iff]
      exact ⟨_, _, rfl, rfl, rfl⟩

end TempoChange

end LightShow
