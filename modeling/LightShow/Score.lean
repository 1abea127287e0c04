import LightShow.Chunk
import LightShow.Container

namespace LightShow

/-- The events of one pad in the order in which they were written down. -/
abbrev PadScore := List (UInt32 × PadEvent)

namespace PadScore

/-- Adds an event at a tick. A palette index that the table cannot have is refused. -/
def add (s : PadScore) (tick : UInt32) (event : PadEvent) : Except CodecError PadScore :=
  match event.colour? with
  | some (.palette index) =>
    if Palette.size ≤ index.toNat then .error (.invalidRequest (.paletteIndexReserved index))
    else .ok (s ++ [(tick, event)])
  | _ => .ok (s ++ [(tick, event)])

/-- The payload of the pad's chunk. -/
def encode (s : PadScore) : Bytes := Stream.encode PadEvent.encode s

end PadScore

/-- A track file in the making. Events may be added in any order. -/
structure Score where
  ticksPerBeat : UInt16
  microsecondsPerBeat : UInt32
  flags : UInt16
  /-- The palette entries that are overridden, by index. -/
  overrides : Vector (Option Colour) 32
  tempo : List (UInt32 × TempoChange)
  /-- The pads that have a stream, be it empty. -/
  pads : PerPad (Option PadScore)
  deriving DecidableEq, Repr

namespace Score

/-- An empty score. A timebase or tempo of zero is raised to one. -/
def new (ticksPerBeat : UInt16) (microsecondsPerBeat : UInt32) : Score where
  ticksPerBeat := max ticksPerBeat 1
  microsecondsPerBeat := max microsecondsPerBeat 1
  flags := 0
  overrides := Vector.replicate 32 none
  tempo := []
  pads := .const none

/-- The score that starts at 120 beats a minute with 960 ticks to the beat. -/
def default : Score := new 960 500000

/-- The tick nearest to a position in beats. What is below zero or too large is brought to the
nearest tick there is. -/
def ticks (s : Score) (beats : Binary64) : UInt32 :=
  let position := beats * ((s.ticksPerBeat.toNat : Int) : Binary64)
  UInt32.ofNat (position.saturate 0xFFFFFFFF)

def setFlags (s : Score) (flags : UInt16) : Score := { s with flags }

def overrideColour (s : Score) (index : UInt8) (colour : Colour) : Except CodecError Score :=
  if Palette.size ≤ index.toNat then .error (.invalidRequest (.paletteIndexReserved index))
  else .ok { s with overrides := s.overrides.setIfInBounds index.toNat (some colour) }

/-- Changes the length of a beat from a tick on. -/
def setTempo (s : Score) (tick microsecondsPerBeat : UInt32) : Score :=
  { s with tempo := s.tempo ++ [(tick, .tempo microsecondsPerBeat)] }

/-- Changes the number of ticks in a beat from a tick on. -/
def setTimebase (s : Score) (tick : UInt32) (ticksPerBeat : UInt16) : Score :=
  { s with tempo := s.tempo ++ [(tick, .timebase ticksPerBeat)] }

def pad (s : Score) (p : Pad) : PadScore := (s.pads.get p).getD []

/-- Gives a pad a stream if it has none. -/
def touch (s : Score) (p : Pad) : Score := { s with pads := s.pads.set p (some (s.pad p)) }

/-- Adds an event to a pad's stream, which is made if it is missing, even if the event is
refused. -/
def addEvent (s : Score) (p : Pad) (tick : UInt32) (event : PadEvent) :
    Score × Except CodecError Unit :=
  match (s.pad p).add tick event with
  | .ok events => ({ s with pads := s.pads.set p (some events) }, .ok ())
  | .error error => (s.touch p, .error error)

def header (s : Score) : Header where
  version := Header.supportedVersion
  ticksPerBeat := s.ticksPerBeat
  microsecondsPerBeat := s.microsecondsPerBeat
  declaredTrackCount := UInt16.ofNat s.pads.pads.length
  flags := s.flags

/-- The overridden entries in order of index. -/
def overrideList (s : Score) : List (UInt8 × Colour) :=
  s.overrides.toList.zipIdx.filterMap fun (colour, index) =>
    colour.map (UInt8.ofNat index, ·)

def palettePayload (s : Score) : Bytes :=
  UInt8.ofNat s.overrideList.length ::
    s.overrideList.flatMap fun (index, colour) => index :: colour.bytes

/-- The chunks of the file: the header, the palette if anything is overridden, the tempo, and one
chunk for each pad that has a stream. -/
def chunks (s : Score) : List Chunk :=
  [⟨.head, s.header.encode⟩] ++
    (if s.overrideList = [] then [] else [⟨.pal0, s.palettePayload⟩]) ++
    [⟨.temp, Stream.encode TempoChange.encode s.tempo⟩] ++
    s.pads.entries.map fun (p, events) => ⟨.ofPad p, PadScore.encode events⟩

def toBytes (s : Score) : Bytes := s.chunks.flatMap Chunk.encode

end Score

end LightShow
