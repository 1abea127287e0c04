import LightShow.Bytes
import LightShow.Hex

namespace LightShow

/-- The four bytes that name a chunk. -/
structure Tag where
  b0 : UInt8
  b1 : UInt8
  b2 : UInt8
  b3 : UInt8
  deriving DecidableEq, Repr

namespace Tag

def bytes (t : Tag) : Bytes := [t.b0, t.b1, t.b2, t.b3]

/-- True if every byte is ASCII, which a track file demands of its tags. -/
def isAscii (t : Tag) : Bool := t.bytes.all (· < 0x80)

/-- The tag as text; each byte is a character of that code. -/
def text (t : Tag) : String := String.ofList (t.bytes.map fun b => Char.ofNat b.toNat)

/-- The bytes in hexadecimal, for a tag that is no text. -/
def hexList (t : Tag) : String :=
  "[" ++ ", ".intercalate (t.bytes.map fun b => hexText 2 b.toNat) ++ "]"

/-- `HEAD`: the timebase and first tempo of the file. -/
def head : Tag := ⟨0x48, 0x45, 0x41, 0x44⟩

/-- `TEMP`: changes of tempo and timebase. -/
def temp : Tag := ⟨0x54, 0x45, 0x4D, 0x50⟩

/-- `PAL0`: overrides of palette entries. -/
def pal0 : Tag := ⟨0x50, 0x41, 0x4C, 0x30⟩

/-- `PAD` and a digit: the events of one pad. -/
def pad (digit : UInt8) : Tag := ⟨0x50, 0x41, 0x44, digit⟩

end Tag

end LightShow
