import LightShow.Reader

namespace LightShow.Varint

/-- The longest form that is read, in bytes of seven bits each. -/
def maxLength : Nat := 5

/-- The shortest form of `n`: seven bits a byte, lowest first, each byte but the last marked by its
high bit. -/
def encode (n : Nat) : Bytes :=
  if n < 128 then [UInt8.ofNat n]
  else UInt8.ofNat (n % 128 + 128) :: encode (n / 128)

/-- Reads a form of at most `length` bytes. -/
def readWithin : (length : Nat) → Reader Nat
  | 0 => throw .varintTooLarge
  | length + 1 => do
    let b ← Reader.byte "variable-length integer"
    if b < 0x80 then return b.toNat
    else
      let high ← readWithin length
      return b.toNat - 128 + 128 * high

/-- Reads a number; the form need not be the shortest. -/
def read : Reader Nat := readWithin maxLength

end LightShow.Varint
