import LightShow.Stream
import LightShow.Tempo

namespace LightShow

namespace TempoChange

/-- Reads the kind of a change and its value. -/
def read : Reader TempoChange := do
  match ← Reader.byte "tempo event opcode" with
  | 0x01 => return .tempo (← Reader.u32 "SetTempo payload")
  | 0x02 => return .timebase (← Reader.u16 "SetTimebase payload")
  | opcode => throw (.unsupportedTempoOpcode opcode)

/-- The kind of a change and its value, as `read` takes them. -/
def encode : TempoChange → Bytes
  | tempo value => 0x01 :: LittleEndian.bytes 4 value.toNat
  | timebase value => 0x02 :: LittleEndian.bytes 2 value.toNat

end TempoChange

namespace TempoEvent

/-- The events of a `TEMP` payload. Each payload counts its ticks from zero. -/
def readAll (payload : Bytes) : Except CodecError (List TempoEvent) := do
  let changes ← Stream.read TempoChange.read payload
  return (Stream.positions 0 changes).map fun (tick, change) => { tick, change }

end TempoEvent

end LightShow
