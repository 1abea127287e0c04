import LightShow.Varint

namespace LightShow.Stream

variable {ε : Type}

/-- Reads events to the end of a payload. Each is preceded by its distance in ticks from the event
before it. -/
def read (event : Reader ε) (payload : Bytes) : Except CodecError (List (Nat × ε)) :=
  Reader.toEnd (do return (← Varint.read, ← event)) payload

/-- Turns distances into positions, counted on from `start`. -/
def positions (start : Int) : List (Nat × ε) → List (Int × ε)
  | [] => []
  | (delta, event) :: rest => (start + delta, event) :: positions (start + delta) rest

/-- Events in order of position; those of one position keep their order. -/
def inOrder (events : List (UInt32 × ε)) : List (UInt32 × ε) :=
  events.mergeSort fun a b => decide (a.1 ≤ b.1)

/-- Turns positions into distances, the first counted from `start`. -/
def distances (start : Nat) : List (UInt32 × ε) → List (Nat × ε)
  | [] => []
  | (tick, event) :: rest => (tick.toNat - start, event) :: distances tick.toNat rest

/-- Writes events that may be given in any order. -/
def encode (event : ε → Bytes) (events : List (UInt32 × ε)) : Bytes :=
  (distances 0 (inOrder events)).flatMap fun (delta, e) => Varint.encode delta ++ event e

end LightShow.Stream
