import LightShow.Chunk
import LightShow.Cue
import LightShow.Header
import LightShow.Tempo.Events

namespace LightShow

/-- What a chunk is, by its tag. -/
inductive ChunkKind where
  | head
  | tempo
  | palette
  | pad (p : Pad)
  | unknown
  deriving DecidableEq, Repr

namespace Tag

def digitZero : UInt8 := 0x30

def ofPad (p : Pad) : Tag := pad (digitZero + p.index)

/-- The kind of chunk that a tag names. -/
def kind (t : Tag) : ChunkKind :=
  if t = head then .head
  else if t = temp then .tempo
  else if t = pal0 then .palette
  else match Pad.all.find? (fun p => t = ofPad p) with
    | some p => .pad p
    | none => .unknown

end Tag

/-- The contents of a track file as far as its chunks have been taken in. -/
structure Container where
  header : Option Header
  tempo : List TempoEvent
  palette : PaletteDraft
  /-- The payloads of each pad, in order. -/
  pads : PerPad (List Bytes)
  deriving DecidableEq, Repr

namespace Container

def empty : Container := ⟨none, [], .new, .const []⟩

/-- Takes in one chunk. A second header is refused; chunks of an unknown kind are skipped. -/
def add (c : Container) (chunk : Chunk) : Except CodecError Container := do
  match chunk.tag.kind with
  | .head =>
    if c.header.isSome then throw .duplicateHeader
    return { c with header := some (← Header.read chunk.payload) }
  | .tempo => return { c with tempo := c.tempo ++ (← TempoEvent.readAll chunk.payload) }
  | .palette =>
    let (palette, result) := c.palette.apply chunk.payload
    result
    return { c with palette }
  | .pad p => return { c with pads := c.pads.set p (c.pads.get p ++ [chunk.payload]) }
  | .unknown => return c

def ofChunks (chunks : List Chunk) : Except CodecError Container :=
  chunks.foldlM add empty

variable {τ : Type} [Clock τ]

/-- The track of one pad, if it has any commands. -/
def track? (c : Container) (tempo : TempoMap τ) (p : Pad) :
    Except CodecError (Option (Track τ)) := do
  let track ← Track.decode p tempo c.palette.palette (c.pads.get p)
  return if track.isEmpty then none else some track

/-- The program of a file whose chunks have all been taken in: events are decoded only now, so it
does not matter where tempo and palette stood among them. -/
def program (c : Container) : Except CodecError (Program τ) := do
  let some header := c.header | throw .missingHeader
  let tempo ← TempoMap.build ⟨header.microsecondsPerBeat, header.ticksPerBeat⟩ c.tempo
  let centre ← c.track? tempo .centre
  let left ← c.track? tempo .left
  let right ← c.track? tempo .right
  let program : Program τ := ⟨⟨centre, left, right⟩⟩
  if program.isEmpty then throw .noPadTracks
  return program

end Container

namespace Program

variable {τ : Type} [Clock τ]

/-- The program that a track file holds. Times are exact or rounded as the clock has it. -/
def parse (data : Bytes) : Except CodecError (Program τ) := do
  let chunks ← Chunk.readAll data
  let container ← Container.ofChunks chunks
  container.program

end Program

/-- A program with times in binary64, as it is played. -/
abbrev Show := Program Binary64

end LightShow
