import LightShow.Reader

namespace LightShow

/-- A named part of a track file. -/
structure Chunk where
  tag : Tag
  payload : Bytes
  deriving DecidableEq, Repr

namespace Chunk

/-- The bytes before a payload: the tag and the payload's length. -/
def headerLength : Nat := 8

/-- The chunk as it stands in a file: tag, length of the payload in four bytes, payload. -/
def encode (c : Chunk) : Bytes :=
  c.tag.bytes ++ LittleEndian.bytes 4 c.payload.length ++ c.payload

/-- Splits what stands from `offset` on into chunks. -/
def readFrom (offset : Nat) (data : Bytes) : Except CodecError (List Chunk) :=
  match data with
  | [] => .ok []
  | b0 :: b1 :: b2 :: b3 :: l0 :: l1 :: l2 :: l3 :: rest =>
    let tag : Tag := ⟨b0, b1, b2, b3⟩
    let length := LittleEndian.value [l0, l1, l2, l3]
    if !tag.isAscii then .error (.nonAsciiTag tag)
    else if rest.length < length then .error (.chunkOverrun tag length rest.length)
    else do
      let more ← readFrom (offset + headerLength + length) (rest.drop length)
      return ⟨tag, rest.take length⟩ :: more
  | _ => .error (.truncatedChunkHeader offset)
termination_by data.length
decreasing_by simp only [List.length_drop, List.length_cons]; omega

/-- Splits a track file into its chunks, without looking into them. -/
def readAll (data : Bytes) : Except CodecError (List Chunk) := readFrom 0 data

end Chunk

end LightShow
