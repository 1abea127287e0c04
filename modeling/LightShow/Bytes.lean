namespace LightShow

/-- A run of bytes, as a file or a chunk holds it. -/
abbrev Bytes := List UInt8

namespace LittleEndian

/-- The lowest `width` bytes of `n`, least significant first. -/
def bytes : (width : Nat) → (n : Nat) → Bytes
  | 0, _ => []
  | width + 1, n => UInt8.ofNat n :: bytes width (n / 256)

/-- The number whose bytes, least significant first, are given. -/
def value : Bytes → Nat
  | [] => 0
  | b :: rest => b.toNat + 256 * value rest

/-- The number of values that `width` bytes can have. -/
def limit : (width : Nat) → Nat
  | 0 => 1
  | width + 1 => 256 * limit width

@[simp] theorem length_bytes (width n : Nat) : (bytes width n).length = width := by
  induction width generalizing n with
  | zero => rfl
  | succ width ih => simp [bytes, ih]

theorem value_bytes (width n : Nat) : value (bytes width n) = n % limit width := by
  induction width generalizing n with
  | zero => simp only [bytes, value, limit, Nat.mod_one]
  | succ width ih =>
    simp only [bytes, value, limit, ih, UInt8.toNat_ofNat', Nat.mod_mul]

theorem value_lt (s : Bytes) : value s < limit s.length := by
  induction s with
  | nil => simp only [value, List.length_nil, limit, Nat.zero_lt_one]
  | cons b s ih =>
    have hb := b.toNat_lt
    simp only [value, List.length_cons, limit]
    omega

theorem bytes_value (s : Bytes) : bytes s.length (value s) = s := by
  induction s with
  | nil => rfl
  | cons b s ih =>
    have hb := b.toNat_lt
    have hdiv : value (b :: s) / 256 = value s := by simp only [value]; omega
    have hhead : UInt8.ofNat (value (b :: s)) = b := by
      apply UInt8.toNat_inj.1
      simp only [value, UInt8.toNat_ofNat']
      omega
    simp only [List.length_cons, bytes, hdiv, hhead, ih]

end LittleEndian

end LightShow
