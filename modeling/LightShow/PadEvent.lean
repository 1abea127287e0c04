import LightShow.Palette
import LightShow.Stream

namespace LightShow

/-- A colour as an event names it. -/
inductive ColourRef where
  | palette (index : UInt8)
  | literal (colour : Colour)
  deriving DecidableEq, Repr

namespace ColourRef

/-- Set in the first byte of a reference if the colour itself follows. -/
def literalFlag : UInt8 := 0x20

/-- The bits of the first byte that hold a palette index. -/
def indexMask : UInt8 := 0x1F

/-- Reads a reference. Bits that mean nothing are ignored. -/
def read : Reader ColourRef := do
  let mode ← Reader.byte "colour mode"
  if mode &&& literalFlag ≠ 0 then
    let red ← Reader.byte "literal colour"
    let green ← Reader.byte "literal colour"
    let blue ← Reader.byte "literal colour"
    return .literal ⟨red, green, blue⟩
  else return .palette (mode &&& indexMask)

/-- The reference with all bits that mean nothing cleared. -/
def encode : ColourRef → Bytes
  | palette index => [index &&& indexMask]
  | literal colour => literalFlag :: colour.bytes

/-- The colour that is meant, by a palette. -/
def resolve (palette : Palette) : ColourRef → Except CodecError Colour
  | .palette index => palette.resolve index
  | .literal colour => .ok colour

end ColourRef

/-- One event of a pad's stream. Lengths are in ticks. -/
inductive PadEvent where
  /-- Go over to a colour within `transition` ticks and stay on it. -/
  | switch (transition : UInt16) (colour : ColourRef) (hold : UInt16)
  /-- Fade to a colour in `pulses` pulses that together take `ramp` ticks. -/
  | fade (ramp : UInt16) (pulses : UInt8) (colour : ColourRef) (hold : UInt16)
  /-- Flash a colour `pulses` times. -/
  | flash (on off : UInt16) (pulses : UInt8) (colour : ColourRef) (hold : UInt16)
  /-- Go over to black within `transition` ticks. -/
  | blackout (transition hold : UInt16)
  /-- Set the transition that later switches may ask for. -/
  | defaultTransition (transition : UInt16)
  /-- Reserved; shows nothing. -/
  | keyframe (state : UInt8)
  deriving DecidableEq, Repr

namespace PadEvent

/-- The transition by which a switch asks for the default one. -/
def useDefaultTransition : UInt16 := 0xFFFF

def read (pad : Pad) : Reader PadEvent := do
  match ← Reader.byte "pad opcode" with
  | 0x10 =>
    let transition ← Reader.u16 "SwitchColour transition"
    let colour ← ColourRef.read
    let hold ← Reader.u16 "SwitchColour hold"
    return .switch transition colour hold
  | 0x11 =>
    let ramp ← Reader.u16 "FadeToColour ramp"
    let pulses ← Reader.byte "FadeToColour pulses"
    let colour ← ColourRef.read
    let hold ← Reader.u16 "FadeToColour hold"
    return .fade ramp pulses colour hold
  | 0x12 =>
    let on ← Reader.u16 "FlashColour on length"
    let off ← Reader.u16 "FlashColour off length"
    let pulses ← Reader.byte "FlashColour pulses"
    let colour ← ColourRef.read
    let hold ← Reader.u16 "FlashColour hold"
    return .flash on off pulses colour hold
  | 0x13 =>
    let transition ← Reader.u16 "Blackout transition"
    let hold ← Reader.u16 "Blackout hold"
    return .blackout transition hold
  | 0x14 =>
    let transition ← Reader.u16 "SetDefaultTransition payload"
    return .defaultTransition transition
  | 0x1F =>
    let state ← Reader.byte "KeyframeState payload"
    return .keyframe state
  | opcode => throw (.unsupportedPadOpcode pad opcode)

/-- The event as `read` takes it. -/
def encode : PadEvent → Bytes
  | switch transition colour hold =>
    0x10 :: LittleEndian.bytes 2 transition.toNat ++ colour.encode ++
      LittleEndian.bytes 2 hold.toNat
  | fade ramp pulses colour hold =>
    0x11 :: LittleEndian.bytes 2 ramp.toNat ++ pulses :: colour.encode ++
      LittleEndian.bytes 2 hold.toNat
  | flash on off pulses colour hold =>
    0x12 :: LittleEndian.bytes 2 on.toNat ++ LittleEndian.bytes 2 off.toNat ++
      pulses :: colour.encode ++ LittleEndian.bytes 2 hold.toNat
  | blackout transition hold =>
    0x13 :: LittleEndian.bytes 2 transition.toNat ++ LittleEndian.bytes 2 hold.toNat
  | defaultTransition transition => 0x14 :: LittleEndian.bytes 2 transition.toNat
  | keyframe state => [0x1F, state]

def colour? : PadEvent → Option ColourRef
  | switch _ colour _ => some colour
  | fade _ _ colour _ => some colour
  | flash _ _ _ colour _ => some colour
  | _ => none

/-- The events of a pad's payloads, which form one stream: ticks are counted on from one payload to
the next. -/
def readAll (pad : Pad) (payloads : List Bytes) : Except CodecError (List (Int × PadEvent)) := do
  let parts ← payloads.mapM (Stream.read (read pad))
  return Stream.positions 0 parts.flatten

end PadEvent

end LightShow
