import LightShow.Base64
import LightShow.FileSystem.Error
import LightShow.Pad
import LightShow.Tag

namespace LightShow

/-- What keeps a text from being an envelope around a track file. -/
inductive EnvelopeFlaw where
  | notAscii
  | empty
  | headerMissing
  | payloadMissing
  deriving DecidableEq, Repr

def EnvelopeFlaw.message : EnvelopeFlaw → String
  | notAscii => "text-encoded LSTF files must be ASCII"
  | empty => "file is empty"
  | headerMissing => "missing LSTF-TEXT header"
  | payloadMissing => "no payload data"

/-- A request that no track file or tempo map can meet. -/
inductive RequestFlaw where
  | zeroTimebase
  | zeroTempo
  | negativeTick (tick : Int)
  | reversedInterval (start stop : Int)
  | paletteIndexReserved (index : UInt8)
  deriving DecidableEq, Repr

def RequestFlaw.message : RequestFlaw → String
  | zeroTimebase => "ticks_per_beat must be positive"
  | zeroTempo => "microseconds_per_beat must be positive"
  | negativeTick tick => s!"tick positions cannot be negative (got {tick})"
  | reversedInterval start stop => s!"end tick {stop} precedes start tick {start}"
  | paletteIndexReserved index => s!"palette index {index} must be in range 0-31"

/-- Why a track cannot be read, written or loaded. -/
inductive CodecError where
  | unexpectedEnd (item : String)
  | varintTooLarge
  | nonAsciiTag (tag : Tag)
  | truncatedChunkHeader (offset : Nat)
  | chunkOverrun (tag : Tag) (declared remaining : Nat)
  | headerTooSmall (size : Nat)
  | invalidMagic (found : UInt32)
  | unsupportedVersion (found : UInt16)
  | invalidTimebase
  | invalidTempo
  | duplicateHeader
  | missingHeader
  | noPadTracks
  | unsupportedTempoOpcode (opcode : UInt8)
  | unsupportedPadOpcode (pad : Pad) (opcode : UInt8)
  | paletteIndexOutOfRange (index : UInt8)
  | envelope (flaw : EnvelopeFlaw)
  | unsupportedTextVersion (version : String)
  | base64 (flaw : Base64.Flaw)
  | invalidRequest (flaw : RequestFlaw)
  | file (error : FileError)
  deriving DecidableEq, Repr

namespace CodecError

/-- Who is to blame for an error. -/
inductive Kind where
  /-- The data is malformed or cut short. -/
  | format
  /-- The caller asked for what cannot be. -/
  | request
  /-- A file could not be read. -/
  | file
  deriving DecidableEq, Repr

def kind : CodecError → Kind
  | invalidRequest _ => .request
  | file _ => .file
  | _ => .format

def message : CodecError → String
  | unexpectedEnd item => s!"Unexpected end of data while reading {item}"
  | varintTooLarge => "Variable-length integer is too large"
  | nonAsciiTag tag => s!"Chunk tag {tag.hexList} is not ASCII"
  | truncatedChunkHeader offset =>
    s!"Unexpected end of file while reading chunk header at offset {offset}"
  | chunkOverrun tag declared remaining =>
    s!"Chunk '{tag.text}' exceeds file length ({declared} bytes declared, {remaining} available)"
  | headerTooSmall size => s!"HEAD chunk must contain at least 16 bytes, found {size}"
  | invalidMagic found => s!"Invalid LSTF magic value 0x{hexText 8 found.toNat}"
  | unsupportedVersion found => s!"Unsupported LSTF version {found}"
  | invalidTimebase => "ticks_per_beat must be positive"
  | invalidTempo => "Initial tempo must be positive"
  | duplicateHeader => "LSTF file contains more than one HEAD chunk"
  | missingHeader => "LSTF file missing HEAD chunk"
  | noPadTracks => "LSTF file did not contain any pad tracks"
  | unsupportedTempoOpcode opcode => s!"Unsupported tempo opcode 0x{hexText 2 opcode.toNat}"
  | unsupportedPadOpcode pad opcode =>
    s!"Unsupported pad opcode 0x{hexText 2 opcode.toNat} in {pad.name} track"
  | paletteIndexOutOfRange index => s!"Palette index {index} out of range"
  | envelope flaw => s!"Invalid LSTF-TEXT envelope: {flaw.message}"
  | unsupportedTextVersion version => s!"Unsupported LSTF-TEXT version '{version}'"
  | base64 flaw => s!"Invalid base64 payload in LSTF-TEXT envelope: {flaw.message}"
  | invalidRequest flaw => s!"Invalid input: {flaw.message}"
  | file error => s!"IO error: {error.message}"

end CodecError

end LightShow
