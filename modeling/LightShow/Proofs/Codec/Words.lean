import LightShow.Proofs.Codec.Malformed
import Mathlib.Algebra.Group.Nat.Defs
import Mathlib.Order.Bounds.Basic

namespace LightShow.Varint

/-- The number that the low seven bits of some bytes make, the lowest first. -/
def lowBits : Bytes → Nat
  | [] => 0
  | b :: rest => b.toNat % 128 + 128 * lowBits rest

/-- All bytes are marked as not being the last. -/
def Marked (s : Bytes) : Prop := ∀ b ∈ s, 0x80 ≤ b

/-- Each byte carries seven bits. -/
theorem limit_eq (length : Nat) : limit length = 2 ^ (7 * length) := by
  induction length with
  | zero => rfl
  | succ length ih => rw [limit, ih, Nat.mul_succ, Nat.pow_add, Nat.mul_comm]

/-- A form is made of marked bytes and a last one, and its number of their low bits. -/
theorem form_iff {n : Nat} {s : Bytes} :
    Form n s ↔ ∃ front b, s = front ++ [b] ∧ Marked front ∧ b < 0x80 ∧ n = lowBits s := by
  constructor
  · intro h
    induction h with
    | @last b hb =>
      have hlt := UInt8.lt_iff_toNat_lt.1 hb
      refine ⟨[], b, rfl, fun _ hmem => absurd hmem List.not_mem_nil, hb, ?_⟩
      exact (Nat.mod_eq_of_lt hlt).symm
    | @more b n s hb _ ih =>
      obtain ⟨front, last, rfl, hmarked, hlast, rfl⟩ := ih
      have hge := UInt8.le_iff_toNat_le.1 hb
      have hlt := b.toNat_lt
      refine ⟨b :: front, last, rfl, List.forall_mem_cons.2 ⟨hb, hmarked⟩, hlast, ?_⟩
      have hlow : b.toNat - 128 = b.toNat % 128 := by
        change 128 ≤ b.toNat at hge
        omega
      rw [lowBits, hlow]
  · rintro ⟨front, b, rfl, hmarked, hb, rfl⟩
    induction front with
    | nil =>
      have hlow : lowBits [b] = b.toNat := Nat.mod_eq_of_lt (UInt8.lt_iff_toNat_lt.1 hb)
      rw [List.nil_append, hlow]
      exact .last hb
    | cons c front ih =>
      obtain ⟨hc, hmarked⟩ := List.forall_mem_cons.1 hmarked
      have hge := UInt8.le_iff_toNat_le.1 hc
      have hlt := c.toNat_lt
      have hlow : c.toNat % 128 = c.toNat - 128 := by
        change 128 ≤ c.toNat at hge
        omega
      rw [List.cons_append, lowBits, hlow]
      exact .more hc (ih hmarked)

theorem limit_mono {length length' : Nat} (h : length ≤ length') :
    limit length ≤ limit length' := by
  rw [limit_eq, limit_eq]
  exact Nat.pow_le_pow_right (by decide) (Nat.mul_le_mul_left 7 h)

/-- A number takes no more than so many bytes exactly if it is below their limit. -/
theorem length_encode_le_iff {length n : Nat} (hpos : 0 < length) :
    (encode n).length ≤ length ↔ n < limit length :=
  ⟨fun h => (form_encode n).lt_limit.trans_le (limit_mono h), length_encode_le hpos⟩

/-- No form is shorter than the one that is written. -/
theorem Form.length_encode_le {n : Nat} {s : Bytes} (h : Form n s) :
    (encode n).length ≤ s.length :=
  Varint.length_encode_le (List.length_pos_iff.2 h.ne_nil) h.lt_limit

theorem length_encode_zero : (encode 0).length = 1 := by
  rw [encode, if_pos (by decide)]
  rfl

/-- What is written has as many bytes of seven bits as the number needs. -/
theorem isLeast_length_encode {n : Nat} (h : n ≠ 0) :
    IsLeast {length | n < 2 ^ (7 * length)} (encode n).length := by
  have hlength (length : Nat) : n < 2 ^ (7 * length) ↔ (encode n).length ≤ length := by
    rw [← limit_eq]
    rcases Nat.eq_zero_or_pos length with rfl | hpos
    · have hne := (form_encode n).ne_nil
      refine iff_of_false ?_ fun hle => hne (List.length_eq_zero_iff.1 (Nat.le_zero.1 hle))
      rw [limit]
      omega
    · exact (length_encode_le_iff hpos).symm
  exact ⟨(hlength _).2 (Nat.le_refl _), fun length hlt => (hlength length).1 hlt⟩

/-- A number that needs more than five bytes has all of the first five marked. -/
theorem read_encode_of_large {n : Nat} (h : limit maxLength ≤ n) (rest : Bytes) :
    read (encode n ++ rest) = .error .varintTooLarge := by
  have hlong : maxLength < (encode n).length := by
    by_contra hshort
    exact absurd ((length_encode_le_iff (by decide)).1 (Nat.not_lt.1 hshort)) (Nat.not_lt.2 h)
  obtain ⟨front, b, hencode, hmarked, _⟩ := form_iff.1 (form_encode n)
  rw [hencode, List.length_append, List.length_singleton] at hlong
  have hfive : (front.take maxLength).length = maxLength := List.length_take_of_le (by omega)
  have hmalformed := Malformed.tooLarge (front.take maxLength)
    (fun c hc => hmarked c (List.mem_of_mem_take hc)) hfive
    (front.drop maxLength ++ ([b] ++ rest))
  rw [← List.append_assoc, List.take_append_drop, ← List.append_assoc, ← hencode] at hmalformed
  exact readWithin_eq_error_iff.2 hmalformed

/-- A number is read from marked bytes up to the first that is not marked, of which there are not
too many. -/
theorem read_eq_ok_iff {n : Nat} {s rest : Bytes} :
    read s = .ok (n, rest) ↔ ∃ front b, s = front ++ b :: rest ∧ front.length < maxLength ∧
      Marked front ∧ b < 0x80 ∧ n = lowBits (front ++ [b]) := by
  rw [reads_read s n rest]
  constructor
  · rintro ⟨_, rfl, hform, hlength⟩
    obtain ⟨front, b, rfl, hmarked, hb, rfl⟩ := form_iff.1 hform
    rw [List.length_append, List.length_singleton] at hlength
    exact ⟨front, b, by rw [List.append_assoc]; rfl, hlength, hmarked, hb, rfl⟩
  · rintro ⟨front, b, rfl, hlength, hmarked, hb, rfl⟩
    refine ⟨front ++ [b], by rw [List.append_assoc]; rfl, ?_, ?_⟩
    · exact form_iff.2 ⟨front, b, rfl, hmarked, hb, rfl⟩
    · rw [List.length_append, List.length_singleton]
      exact hlength

/-- A number is too large exactly if as many bytes as are allowed are all marked. -/
theorem read_eq_tooLarge_iff {s : Bytes} :
    read s = .error .varintTooLarge ↔ maxLength ≤ s.length ∧ Marked (s.take maxLength) := by
  rw [read, readWithin_eq_error_iff]
  constructor
  · generalize herror : CodecError.varintTooLarge = e
    intro h
    cases h with
    | cutOff => cases herror
    | tooLarge front hmarked hlength back =>
      rw [← hlength, List.take_left, List.length_append]
      exact ⟨Nat.le_add_right _ _, hmarked⟩
  · rintro ⟨hlength, hmarked⟩
    rw [← List.take_append_drop maxLength s]
    exact .tooLarge _ hmarked (List.length_take_of_le hlength) _

/-- Whatever else goes wrong, the bytes end within the number. -/
theorem read_eq_error_iff_of_ne {s : Bytes} {e : CodecError} (he : e ≠ .varintTooLarge) :
    read s = .error e ↔
      e = .unexpectedEnd "variable-length integer" ∧ s.length < maxLength ∧ Marked s := by
  rw [read, readWithin_eq_error_iff]
  constructor
  · intro h
    cases h with
    | cutOff hmarked hlength => exact ⟨rfl, hlength, hmarked⟩
    | tooLarge => exact absurd rfl he
  · rintro ⟨rfl, hlength, hmarked⟩
    exact .cutOff hmarked hlength

/-- Among some bytes there is a first one that is not marked, unless all are. -/
theorem marked_or_exists (s : Bytes) :
    Marked s ∨ ∃ front b rest, s = front ++ b :: rest ∧ Marked front ∧ b < 0x80 := by
  induction s with
  | nil => exact .inl fun _ hmem => absurd hmem List.not_mem_nil
  | cons b s ih =>
    by_cases hb : b < 0x80
    · exact .inr ⟨[], b, s, rfl, fun _ hmem => absurd hmem List.not_mem_nil, hb⟩
    · have hb := UInt8.not_lt.1 hb
      rcases ih with hmarked | ⟨front, last, rest, rfl, hmarked, hlast⟩
      · exact .inl (List.forall_mem_cons.2 ⟨hb, hmarked⟩)
      · exact .inr ⟨b :: front, last, rest, rfl, List.forall_mem_cons.2 ⟨hb, hmarked⟩, hlast⟩

/-- A number can be read exactly if one of the bytes that are allowed is not marked. -/
theorem exists_read_iff {s : Bytes} :
    (∃ n rest, read s = .ok (n, rest)) ↔ ∃ b ∈ s.take maxLength, b < 0x80 := by
  constructor
  · rintro ⟨n, rest, h⟩
    obtain ⟨front, b, rfl, hlength, _, hb, _⟩ := read_eq_ok_iff.1 h
    refine ⟨b, ?_, hb⟩
    obtain ⟨more, hmore⟩ := Nat.exists_eq_add_of_lt hlength
    have hbehind : maxLength - front.length = more + 1 := by omega
    rw [List.take_append, hbehind, List.take_succ_cons]
    exact List.mem_append_right _ List.mem_cons_self
  · rintro ⟨b, hmem, hb⟩
    rcases marked_or_exists (s.take maxLength) with hmarked | ⟨front, last, rest, htake, hmarked, hlast⟩
    · exact absurd hb (UInt8.not_lt.2 (hmarked b hmem))
    · have hlength := List.length_take_le maxLength s
      rw [htake, List.length_append, List.length_cons] at hlength
      have hbytes : s = front ++ last :: (rest ++ s.drop maxLength) := by
        rw [← List.cons_append, ← List.append_assoc, ← htake, List.take_append_drop]
      exact ⟨_, _, read_eq_ok_iff.2 ⟨front, last, hbytes, by omega, hmarked, hlast, rfl⟩⟩

/-- Writes a word of sixty-four bits behind the bytes that are there, seven bits at a time. -/
def push (output : Bytes) (v : UInt64) : Bytes :=
  let low := (v &&& 0x7F).toUInt8
  let high := v >>> 7
  if high = 0 then output ++ [low] else push (output ++ [low ||| 0x80]) high
termination_by v.toNat
decreasing_by
  rename_i hhigh
  have hne : (v >>> 7).toNat ≠ 0 := fun hzero => hhigh (UInt64.toNat_inj.1 hzero)
  rw [UInt64.toNat_shiftRight] at hne ⊢
  change v.toNat >>> 7 ≠ 0 at hne
  change v.toNat >>> 7 < v.toNat
  rw [Nat.shiftRight_eq_div_pow] at hne ⊢
  omega

/-- Reads a word of sixty-four bits, of which the bits below `shift` have been read. Its bits are
taken seven at a time, up to the thirty-fifth. -/
def gather (value : UInt64) (shift : Nat) : Reader UInt64 := do
  let b ← Reader.byte "variable-length integer"
  let value := value ||| (b &&& 0x7F).toUInt64 <<< UInt64.ofNat shift
  if b &&& 0x80 = 0 then return value
  else if 28 < shift + 7 then throw .varintTooLarge
  else gather value (shift + 7)
termination_by 35 - shift

theorem toNat_shiftRight_seven (v : UInt64) : (v >>> 7).toNat = v.toNat / 128 := by
  rw [UInt64.toNat_shiftRight]
  exact Nat.shiftRight_eq_div_pow v.toNat 7

/-- The low seven bits are the remainder by a hundred and twenty-eight. -/
theorem toUInt8_and_low (v : UInt64) : (v &&& 0x7F).toUInt8 = UInt8.ofNat (v.toNat % 128) := by
  apply UInt8.toNat_inj.1
  have hlow : (v &&& 0x7F).toNat = v.toNat % 128 :=
    (UInt64.toNat_and v 0x7F).trans (Nat.and_two_pow_sub_one_eq_mod v.toNat 7)
  rw [UInt64.toNat_toUInt8, hlow, UInt8.toNat_ofNat']

/-- Marking a byte adds a hundred and twenty-eight to it. -/
theorem ofNat_or_mark {n : Nat} (h : n < 128) : UInt8.ofNat n ||| 0x80 = UInt8.ofNat (n + 128) := by
  apply UInt8.toNat_inj.1
  rw [UInt8.toNat_or, UInt8.toNat_ofNat', UInt8.toNat_ofNat', Nat.mod_eq_of_lt (by omega),
    Nat.mod_eq_of_lt (by omega)]
  have hor := Nat.two_pow_add_eq_or_of_lt (i := 7) h 1
  rw [Nat.or_comm] at hor
  exact hor.symm.trans (Nat.add_comm _ _)

theorem toNat_and_low (b : UInt8) : (b &&& 0x7F).toNat = b.toNat % 128 :=
  (UInt8.toNat_and b 0x7F).trans (Nat.and_two_pow_sub_one_eq_mod b.toNat 7)

/-- A byte is not marked exactly if it is below the mark. -/
theorem and_mark_eq_zero_iff (b : UInt8) : b &&& 0x80 = 0 ↔ b < 0x80 := by
  have hcodes : ∀ n < 256, n &&& 128 = 0 ↔ n < 128 := by decide +kernel
  rw [← UInt8.toNat_inj, UInt8.toNat_and, UInt8.lt_iff_toNat_lt]
  exact hcodes b.toNat b.toNat_lt

/-- The loop leaves what is there in place and writes the shortest form behind it. -/
theorem push_eq (output : Bytes) (v : UInt64) : push output v = output ++ encode v.toNat := by
  fun_induction push output v with
  | case1 output v low high hhigh =>
    have hsmall : v.toNat / 128 = 0 := by
      rw [← toNat_shiftRight_seven]
      exact congrArg UInt64.toNat hhigh
    rw [encode, if_pos (by omega)]
    have hlow : low = UInt8.ofNat v.toNat := by
      rw [← Nat.mod_eq_of_lt (show v.toNat < 128 by omega)]
      exact toUInt8_and_low v
    rw [hlow]
  | case2 output v low high hhigh ih =>
    have hlarge : v.toNat / 128 ≠ 0 := by
      rw [← toNat_shiftRight_seven]
      exact fun hzero => hhigh (UInt64.toNat_inj.1 hzero)
    have hlow : low ||| 0x80 = UInt8.ofNat (v.toNat % 128 + 128) := by
      rw [← ofNat_or_mark (Nat.mod_lt _ (by decide))]
      exact congrArg (· ||| 0x80) (toUInt8_and_low v)
    rw [ih, encode.eq_1 v.toNat, if_neg (by omega), hlow, ← toNat_shiftRight_seven, List.append_assoc]
    rfl

/-- Seven more bits are put above those that have been read. -/
theorem toNat_or_shiftLeft {value : UInt64} {shift : Nat} (hvalue : value.toNat < 2 ^ shift)
    (hshift : shift ≤ 28) (b : UInt8) :
    (value ||| (b &&& 0x7F).toUInt64 <<< UInt64.ofNat shift).toNat =
      value.toNat + 2 ^ shift * (b.toNat % 128) := by
  have hpower : 2 ^ shift ≤ 2 ^ 28 := Nat.pow_le_pow_right (by decide) hshift
  have hlow : b.toNat % 128 < 128 := Nat.mod_lt _ (by decide)
  have hplaced : 2 ^ shift * (b.toNat % 128) < 2 ^ 64 :=
    (Nat.mul_lt_mul'' (Nat.lt_succ_of_le hpower) hlow).trans (by decide)
  have hamount : (UInt64.ofNat shift).toNat % 64 = shift := by
    rw [UInt64.toNat_ofNat']
    omega
  rw [UInt64.toNat_or, UInt64.toNat_shiftLeft, UInt8.toNat_toUInt64, toNat_and_low, hamount,
    Nat.shiftLeft_eq, Nat.mul_comm, Nat.mod_eq_of_lt hplaced, Nat.or_comm,
    ← Nat.two_pow_add_eq_or_of_lt hvalue, Nat.add_comm]

/-- While there is room in the word, putting seven bits above those that are there adds them at
their place. -/
theorem ofNat_eq_or_shiftLeft {value : UInt64} {shift : Nat} (hvalue : value.toNat < 2 ^ shift)
    (hshift : shift ≤ 28) (b : UInt8) :
    value ||| (b &&& 0x7F).toUInt64 <<< UInt64.ofNat shift =
      UInt64.ofNat (value.toNat + 2 ^ shift * (b.toNat % 128)) := by
  rw [← toNat_or_shiftLeft hvalue hshift, UInt64.ofNat_toNat]

section

variable {value : UInt64} {shift : Nat} {b : UInt8}

/-- A byte without a mark ends the number. -/
theorem gather_of_last (hvalue : value.toNat < 2 ^ shift) (hshift : shift ≤ 28) (hb : b < 0x80)
    (rest : Bytes) : gather value shift (b :: rest) =
      .ok (UInt64.ofNat (value.toNat + 2 ^ shift * b.toNat), rest) := by
  have hlow : b.toNat % 128 = b.toNat := Nat.mod_eq_of_lt (UInt8.lt_iff_toNat_lt.1 hb)
  rw [gather]
  change (if b &&& 0x80 = 0 then _ else _ : Reader UInt64) rest = _
  rw [if_pos ((and_mark_eq_zero_iff b).2 hb), ofNat_eq_or_shiftLeft hvalue hshift, hlow]
  rfl

/-- A marked byte adds its seven bits, and the loop goes on unless the shift has come too far. -/
theorem gather_of_marked (hvalue : value.toNat < 2 ^ shift) (hshift : shift ≤ 28)
    (hb : 0x80 ≤ b) (rest : Bytes) : gather value shift (b :: rest) =
      if 28 < shift + 7 then .error .varintTooLarge
      else gather (UInt64.ofNat (value.toNat + 2 ^ shift * (b.toNat - 128))) (shift + 7) rest := by
  have hge : 128 ≤ b.toNat := UInt8.le_iff_toNat_le.1 hb
  have hlt := b.toNat_lt
  have hlow : b.toNat % 128 = b.toNat - 128 := by omega
  have hmark : ¬ b &&& 0x80 = 0 := fun hzero =>
    UInt8.not_lt.2 hb ((and_mark_eq_zero_iff b).1 hzero)
  rw [gather]
  change (if b &&& 0x80 = 0 then _ else _ : Reader UInt64) rest = _
  rw [if_neg hmark, ofNat_eq_or_shiftLeft hvalue hshift, hlow]
  split <;> rfl

end

/-- A byte without a mark is the rest of the number. -/
theorem readWithin_of_last (length : Nat) {b : UInt8} (hb : b < 0x80) (rest : Bytes) :
    readWithin (length + 1) (b :: rest) = .ok (b.toNat, rest) := by
  change (if b < 0x80 then _ else _ : Reader Nat) rest = _
  rw [if_pos hb]
  rfl

/-- A marked byte adds its seven bits below the number that follows. -/
theorem readWithin_of_marked (length : Nat) {b : UInt8} (hb : 0x80 ≤ b) (rest : Bytes) :
    readWithin (length + 1) (b :: rest) =
      (readWithin length rest).map fun (n, rest) => (b.toNat - 128 + 128 * n, rest) := by
  change (if b < 0x80 then _ else _ : Reader Nat) rest = _
  rw [if_neg (UInt8.not_lt.2 hb)]
  change (readWithin length rest >>= _) = _
  cases readWithin length rest <;> rfl

/-- The loop puts the bits into their places, so it reads the number that is read byte by byte. -/
theorem gather_eq_map {length shift : Nat} (hlength : shift + 7 * length = 28) {value : UInt64}
    (hvalue : value.toNat < 2 ^ shift) (s : Bytes) :
    gather value shift s = (readWithin (length + 1) s).map fun (n, rest) =>
      (UInt64.ofNat (value.toNat + 2 ^ shift * n), rest) := by
  have hshift : shift ≤ 28 := by omega
  induction length generalizing shift value s with
  | zero =>
    obtain _ | ⟨b, rest⟩ := s
    · rw [gather]
      rfl
    rcases UInt8.lt_or_le b 0x80 with hb | hb
    · rw [gather_of_last hvalue hshift hb, readWithin_of_last _ hb]
      rfl
    · rw [gather_of_marked hvalue hshift hb, readWithin_of_marked _ hb, if_pos (by omega)]
      rfl
  | succ length ih =>
    obtain _ | ⟨b, rest⟩ := s
    · rw [gather]
      rfl
    rcases UInt8.lt_or_le b 0x80 with hb | hb
    · rw [gather_of_last hvalue hshift hb, readWithin_of_last _ hb]
      rfl
    · have hnext : shift + 7 + 7 * length = 28 := by omega
      have hroom : shift + 7 ≤ 28 := by omega
      have hlow : b.toNat - 128 < 128 := by
        have hlt := b.toNat_lt
        omega
      have hpower : 2 ^ (shift + 7) = 2 ^ shift * 128 := Nat.pow_add 2 shift 7
      have hbound : value.toNat + 2 ^ shift * (b.toNat - 128) < 2 ^ (shift + 7) := by
        have hplaced := Nat.mul_le_mul_left (2 ^ shift) (Nat.le_of_lt_succ hlow)
        omega
      have hword : (UInt64.ofNat (value.toNat + 2 ^ shift * (b.toNat - 128))).toNat =
          value.toNat + 2 ^ shift * (b.toNat - 128) := by
        have hsmall : 2 ^ (shift + 7) ≤ 2 ^ 28 := Nat.pow_le_pow_right (by decide) (by omega)
        rw [UInt64.toNat_ofNat']
        omega
      rw [← hword] at hbound
      rw [gather_of_marked hvalue hshift hb, readWithin_of_marked _ hb,
        if_neg (Nat.not_lt.2 hroom), ih hnext hbound rest hroom, hword]
      cases readWithin (length + 1) rest with
      | error e => simp only [Except.map]
      | ok p =>
        have hvalue : value.toNat + 2 ^ shift * (b.toNat - 128) + 2 ^ (shift + 7) * p.1 =
            value.toNat + 2 ^ shift * (b.toNat - 128 + 128 * p.1) := by
          rw [hpower, Nat.mul_add, Nat.mul_assoc, Nat.add_assoc]
        simp only [Except.map, hvalue]

theorem limit_maxLength : limit maxLength = 2 ^ 35 := limit_eq maxLength

/-- Written numbers and read ones match exactly. A word is written behind what is there as its
shortest form, and that is read again, whatever follows it, unless it has more than thirty-five
bits. Of any bytes, those up to the first of five that is not marked are read, and give the number
of their low bits; where there is none, the number is too large or cut off. -/
theorem read_push_exact :
    (∀ (output : Bytes) (v : UInt64), ∃ form, push output v = output ++ form ∧
      form = encode v.toNat ∧ Form v.toNat form ∧
      (∀ s, Form v.toNat s → form.length ≤ s.length) ∧
      (v = 0 → form.length = 1) ∧
      (v ≠ 0 → IsLeast {length | v.toNat < 2 ^ (7 * length)} form.length) ∧
      ∀ rest, (v.toNat < 2 ^ 35 → read (form ++ rest) = .ok (v.toNat, rest)) ∧
        (2 ^ 35 ≤ v.toNat → read (form ++ rest) = .error .varintTooLarge)) ∧
    (∀ s, gather 0 0 s = (read s).map fun (n, rest) => (UInt64.ofNat n, rest)) ∧
    ∀ s,
      ((∃ n rest, read s = .ok (n, rest)) ↔ ∃ b ∈ s.take 5, b < 0x80) ∧
      (∀ n rest, read s = .ok (n, rest) ↔ ∃ front b, s = front ++ b :: rest ∧
        front.length < 5 ∧ Marked front ∧ b < 0x80 ∧ n = lowBits (front ++ [b])) ∧
      (∀ n rest, read s = .ok (n, rest) → n < 2 ^ 35) ∧
      (read s = .error .varintTooLarge ↔ 5 ≤ s.length ∧ Marked (s.take 5)) ∧
      ∀ e, e ≠ .varintTooLarge → (read s = .error e ↔
        e = .unexpectedEnd "variable-length integer" ∧ s.length < 5 ∧ Marked s) := by
  refine ⟨fun output v => ⟨_, push_eq output v, rfl, form_encode _, fun s => Form.length_encode_le,
    ?_, ?_, fun rest => ⟨fun hlt => ?_, fun hge => ?_⟩⟩, fun s => ?_,
    fun s => ⟨exists_read_iff, fun n rest => read_eq_ok_iff, fun n rest hread => ?_,
    read_eq_tooLarge_iff, fun e he => read_eq_error_iff_of_ne he⟩⟩
  · rintro rfl
    exact length_encode_zero
  · intro hne
    exact isLeast_length_encode fun hzero => hne (UInt64.toNat_inj.1 hzero)
  · rw [← limit_maxLength] at hlt
    exact reads_read.of_form (readable_encode hlt) rest
  · rw [← limit_maxLength] at hge
    exact read_encode_of_large hge rest
  · rw [gather_eq_map (show 0 + 7 * 4 = 28 from rfl) (by decide)]
    simp only [UInt64.toNat_zero, Nat.pow_zero, Nat.zero_add, Nat.one_mul]
    rfl
  · obtain ⟨front, _, hform, hlength⟩ := (reads_read s n rest).1 hread
    rw [← limit_maxLength]
    exact hform.lt_limit.trans_le (limit_mono hlength)

theorem read_push_exact_around_limit :
    push [0x07] 300 = [0x07, 0xAC, 0x02] ∧ read ([0xAC, 0x02] ++ [0x09]) = .ok (300, [0x09]) ∧
      IsLeast {length | 300 < 2 ^ (7 * length)} 2 ∧
      (2 : Nat) ^ 35 ≤ (0x800000000 : UInt64).toNat ∧
      read ([0x80, 0x80, 0x80, 0x80, 0x80, 0x01] ++ [0x09]) = .error .varintTooLarge ∧
      read [0x80, 0x80] = .error (.unexpectedEnd "variable-length integer") := by
  have hsmall : encode (300 : UInt64).toNat = [0xAC, 0x02] := by decide +kernel
  have hlarge : encode (0x800000000 : UInt64).toNat = [0x80, 0x80, 0x80, 0x80, 0x80, 0x01] := by
    decide +kernel
  have hlimit : (2 : Nat) ^ 35 ≤ (0x800000000 : UInt64).toNat := by decide
  obtain ⟨hwrite, _, hread⟩ := read_push_exact
  obtain ⟨_, hpush, rfl, _, _, _, hleast, hagain⟩ := hwrite [0x07] 300
  obtain ⟨_, _, rfl, _, _, _, _, hrefused⟩ := hwrite [] 0x800000000
  rw [hsmall] at hpush hleast hagain
  rw [hlarge] at hrefused
  have hmarked : ∀ b ∈ ([0x80, 0x80] : Bytes), 0x80 ≤ b := by simp
  obtain ⟨_, _, _, _, hcut⟩ := hread [0x80, 0x80]
  refine ⟨hpush, (hagain [0x09]).1 (by decide), hleast (by decide), hlimit,
    (hrefused [0x09]).2 hlimit, ?_⟩
  exact (hcut (.unexpectedEnd _) (by nofun)).2 ⟨rfl, by decide, hmarked⟩

end LightShow.Varint
