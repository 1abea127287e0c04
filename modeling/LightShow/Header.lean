import LightShow.Reader

namespace LightShow

/-- The payload of a `HEAD` chunk: how many ticks make a beat, and how long a beat is at first. -/
structure Header where
  version : UInt16
  ticksPerBeat : UInt16
  microsecondsPerBeat : UInt32
  declaredTrackCount : UInt16
  flags : UInt16
  deriving DecidableEq, Repr

namespace Header

/-- The first four bytes of every header, `FTSL`, as a number. -/
def magic : UInt32 := 0x4C535446

/-- The only version there is. -/
def supportedVersion : UInt16 := 1

/-- The length of a header; bytes behind it are ignored. -/
def length : Nat := 16

/-- Checks a condition on what was read. -/
def require (ok : Bool) (error : CodecError) : Reader Unit :=
  if ok then return () else throw error

def reader : Reader Header := do
  let found ← Reader.u32 "HEAD magic"
  require (found = magic) (.invalidMagic found)
  let version ← Reader.u16 "HEAD version"
  require (version = supportedVersion) (.unsupportedVersion version)
  let ticksPerBeat ← Reader.u16 "HEAD ticks per beat"
  require (ticksPerBeat ≠ 0) .invalidTimebase
  let microsecondsPerBeat ← Reader.u32 "HEAD tempo"
  require (microsecondsPerBeat ≠ 0) .invalidTempo
  let declaredTrackCount ← Reader.u16 "HEAD track count"
  let flags ← Reader.u16 "HEAD flags"
  return { version, ticksPerBeat, microsecondsPerBeat, declaredTrackCount, flags }

/-- The header that a payload holds. The declared number of tracks may be anything. -/
def read (payload : Bytes) : Except CodecError Header :=
  if payload.length < length then .error (.headerTooSmall payload.length)
  else do
    let (header, _) ← reader payload
    return header

/-- The payload of a header, with the magic number in front. -/
def encode (h : Header) : Bytes :=
  LittleEndian.bytes 4 magic.toNat ++ LittleEndian.bytes 2 h.version.toNat ++
    LittleEndian.bytes 2 h.ticksPerBeat.toNat ++ LittleEndian.bytes 4 h.microsecondsPerBeat.toNat ++
    LittleEndian.bytes 2 h.declaredTrackCount.toNat ++ LittleEndian.bytes 2 h.flags.toNat

end Header

end LightShow
