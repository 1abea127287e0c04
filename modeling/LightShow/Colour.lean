import LightShow.Hex

namespace LightShow

/-- A 24-bit colour. -/
structure Colour where
  red : UInt8
  green : UInt8
  blue : UInt8
  deriving DecidableEq, Repr, Inhabited

namespace Colour

def black : Colour := ⟨0, 0, 0⟩

def white : Colour := ⟨0xFF, 0xFF, 0xFF⟩

/-- The colour as `#RRGGBB`, in upper case. -/
def text (c : Colour) : String :=
  "#" ++ hexText 2 c.red.toNat ++ hexText 2 c.green.toNat ++ hexText 2 c.blue.toNat

/-- The three strengths in the order in which every record writes them. -/
def bytes (c : Colour) : List UInt8 :=
  [c.red, c.green, c.blue]

end Colour

end LightShow
