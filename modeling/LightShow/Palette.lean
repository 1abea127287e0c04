import LightShow.Colour
import LightShow.Reader

namespace LightShow

/-- The table of colours that events refer to by index. -/
structure Palette where
  entries : Vector Colour 32
  deriving DecidableEq, Repr

namespace Palette

def size : Nat := 32

/-- The palette of a file that overrides nothing: black, three whites, then the circle of hues. -/
def default : Palette where
  entries := #v[
    ⟨0x00, 0x00, 0x00⟩, ⟨0xFF, 0xFF, 0xFF⟩, ⟨0xFF, 0xD8, 0xB0⟩, ⟨0xD6, 0xF0, 0xFF⟩,
    ⟨0xFF, 0x00, 0x00⟩, ⟨0xFF, 0x33, 0x00⟩, ⟨0xFF, 0x66, 0x00⟩, ⟨0xFF, 0x99, 0x00⟩,
    ⟨0xFF, 0xCC, 0x00⟩, ⟨0xFF, 0xFF, 0x00⟩, ⟨0xCC, 0xFF, 0x00⟩, ⟨0x99, 0xFF, 0x00⟩,
    ⟨0x66, 0xFF, 0x00⟩, ⟨0x33, 0xFF, 0x00⟩, ⟨0x00, 0xFF, 0x00⟩, ⟨0x00, 0xFF, 0x66⟩,
    ⟨0x00, 0xFF, 0xCC⟩, ⟨0x00, 0xFF, 0xFF⟩, ⟨0x00, 0xCC, 0xFF⟩, ⟨0x00, 0x99, 0xFF⟩,
    ⟨0x00, 0x66, 0xFF⟩, ⟨0x00, 0x33, 0xFF⟩, ⟨0x00, 0x00, 0xFF⟩, ⟨0x33, 0x00, 0xFF⟩,
    ⟨0x66, 0x00, 0xFF⟩, ⟨0x99, 0x00, 0xFF⟩, ⟨0xCC, 0x00, 0xFF⟩, ⟨0xFF, 0x00, 0xFF⟩,
    ⟨0xFF, 0x00, 0x99⟩, ⟨0xFF, 0x00, 0x66⟩, ⟨0xFF, 0x00, 0x33⟩, ⟨0xFF, 0x19, 0x19⟩]

/-- The colour of an entry, if there is one of that index. -/
def get? (p : Palette) (index : UInt8) : Option Colour := p.entries[index.toNat]?

/-- The colour of an entry that has to be there. -/
def resolve (p : Palette) (index : UInt8) : Except CodecError Colour :=
  match p.get? index with
  | some colour => .ok colour
  | none => .error (.paletteIndexOutOfRange index)

/-- Changes one entry; an index beyond the table changes nothing. -/
def override (p : Palette) (index : UInt8) (colour : Colour) : Palette :=
  ⟨p.entries.setIfInBounds index.toNat colour⟩

/-- The records of an override payload: an index and a colour in four bytes. -/
def records : Bytes → List (UInt8 × Colour)
  | index :: red :: green :: blue :: rest => (index, ⟨red, green, blue⟩) :: records rest
  | _ => []

end Palette

/-- Collects the palette of a file. The first override payload counts and later ones are skipped,
even if the first one was malformed. -/
structure PaletteDraft where
  palette : Palette
  overridden : Bool
  deriving DecidableEq, Repr

namespace PaletteDraft

def new : PaletteDraft := ⟨.default, false⟩

/-- Applies a payload: a count, then that many records, of which a later one wins over an earlier
one. The draft that comes back has taken note of the payload in any case, but a payload that is
too short changes no entry. An empty payload is fine. -/
def apply (b : PaletteDraft) (payload : Bytes) : PaletteDraft × Except CodecError Unit :=
  if b.overridden then (b, .ok ())
  else match payload with
    | [] => ({ b with overridden := true }, .ok ())
    | count :: rest =>
      let needed := 4 * count.toNat
      if rest.length < needed then
        ({ b with overridden := true }, .error (.unexpectedEnd "palette override entry"))
      else
        let records := Palette.records (rest.take needed)
        let palette := records.foldl (fun p (index, colour) => p.override index colour) b.palette
        (⟨palette, true⟩, .ok ())

end PaletteDraft

end LightShow
