import LightShow.Proofs.Codec.Reading
import LightShow.Varint

namespace LightShow.Varint

/-- The bytes are a form of the number: seven bits a byte, lowest first, each byte but the last
marked by its high bit. Forms longer than needed count as well. -/
inductive Form : Nat → Bytes → Prop
  | last {b : UInt8} (hb : b < 0x80) : Form b.toNat [b]
  | more {b : UInt8} {n : Nat} {s : Bytes} (hb : 0x80 ≤ b) (hs : Form n s) :
    Form (b.toNat - 128 + 128 * n) (b :: s)

/-- A form of the number that is short enough to be read. -/
def Readable (n : Nat) (s : Bytes) : Prop := Form n s ∧ s.length ≤ maxLength

/-- How many numbers have a form of `length` bytes. -/
def limit : (length : Nat) → Nat
  | 0 => 1
  | length + 1 => 128 * limit length

theorem Form.ne_nil {n : Nat} {s : Bytes} (h : Form n s) : s ≠ [] := by
  cases h <;> simp

/-- So many bytes can only hold numbers below their limit. -/
theorem Form.lt_limit {n : Nat} {s : Bytes} (h : Form n s) : n < limit s.length := by
  induction h with
  | @last b hb =>
    rw [UInt8.lt_iff_toNat_lt] at hb
    exact hb
  | @more b n s hb _ ih =>
    have hlt := b.toNat_lt
    simp only [List.length_cons, limit]
    omega

/-- A number is read exactly where one of its forms stands that is not too long, by induction on the
bytes that are allowed. -/
theorem reads_readWithin (length : Nat) :
    Reader.Reads (readWithin length) fun n s => Form n s ∧ s.length ≤ length := by
  induction length with
  | zero =>
    intro s n rest
    simp only [readWithin, Reader.throw_ne_ok, Nat.le_zero, List.length_eq_zero_iff, false_iff]
    rintro ⟨front, _, hform, hnil⟩
    exact hform.ne_nil hnil
  | succ length ih =>
    intro s n rest
    simp only [readWithin, Reader.bind_eq_ok_iff, Reader.byte_eq_ok_iff]
    constructor
    · rintro ⟨b, mid, rfl, h⟩
      split at h
      next hb =>
        obtain ⟨rfl, rfl⟩ := Reader.pure_eq_ok_iff.1 h
        exact ⟨[b], rfl, .last hb, Nat.succ_le_succ (Nat.zero_le _)⟩
      next hb =>
        obtain ⟨high, mid, hhigh, h⟩ := Reader.bind_eq_ok_iff.1 h
        obtain ⟨rfl, rfl⟩ := Reader.pure_eq_ok_iff.1 h
        obtain ⟨front, rfl, hform, hlength⟩ := (ih _ _ _).1 hhigh
        exact ⟨b :: front, rfl, .more (UInt8.not_lt.1 hb) hform, Nat.succ_le_succ hlength⟩
    · rintro ⟨_, rfl, hform, hlength⟩
      cases hform with
      | @last b hb =>
        refine ⟨b, rest, rfl, ?_⟩
        rw [if_pos hb]
        rfl
      | @more b high front hb hform =>
        refine ⟨b, front ++ rest, rfl, ?_⟩
        rw [if_neg (UInt8.not_lt.2 hb), Reader.bind_eq_ok_iff]
        have hread := ih.of_form ⟨hform, Nat.le_of_succ_le_succ hlength⟩ rest
        exact ⟨high, rest, hread, rfl⟩

/-- Reading takes every form of at most five bytes, the shortest or not. -/
theorem reads_read : Reader.Reads read Readable :=
  reads_readWithin maxLength

/-- What is written for a number can be read. -/
theorem form_encode (n : Nat) : Form n (encode n) := by
  induction n using encode.induct with
  | case1 n hlt =>
    have hsmall : n % 256 = n := Nat.mod_eq_of_lt (by omega)
    rw [encode, if_pos hlt]
    have hb : UInt8.ofNat n < 0x80 := by
      rw [UInt8.lt_iff_toNat_lt, UInt8.toNat_ofNat', hsmall]
      exact hlt
    have hform := Form.last hb
    rwa [UInt8.toNat_ofNat', hsmall] at hform
  | case2 n hge ih =>
    have hsmall : (n % 128 + 128) % 256 = n % 128 + 128 := Nat.mod_eq_of_lt (by omega)
    rw [encode, if_neg hge]
    have hb : 0x80 ≤ UInt8.ofNat (n % 128 + 128) := by
      rw [UInt8.le_iff_toNat_le, UInt8.toNat_ofNat', hsmall]
      exact Nat.le_add_left ..
    have hform := Form.more hb ih
    rw [UInt8.toNat_ofNat', hsmall] at hform
    rwa [Nat.add_sub_cancel, Nat.mod_add_div] at hform

/-- A number below the limit of some bytes is written in no more than these. -/
theorem length_encode_le {length n : Nat} (hpos : 0 < length) (hlt : n < limit length) :
    (encode n).length ≤ length := by
  induction length generalizing n with
  | zero => exact absurd hpos (Nat.lt_irrefl 0)
  | succ length ih =>
    rw [encode]
    by_cases hn : n < 128
    · rw [if_pos hn]
      exact Nat.succ_le_succ (Nat.zero_le _)
    · rw [if_neg hn]
      simp only [limit] at hlt
      have hlength : 0 < length := by
        rcases Nat.eq_zero_or_pos length with rfl | h
        · simp only [limit] at hlt
          omega
        · exact h
      exact Nat.succ_le_succ (ih hlength (by omega))

/-- What is written for a number of at most thirty-five bits can be read again. -/
theorem readable_encode {n : Nat} (hlt : n < limit maxLength) : Readable n (encode n) :=
  ⟨form_encode n, length_encode_le (by decide) hlt⟩

end LightShow.Varint
