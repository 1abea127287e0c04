import LightShow.Pad
import LightShow.Track

namespace LightShow

/-- A decoded show: a track for each pad that has one. -/
structure Program (τ : Type) where
  tracks : PerPad (Option (Track τ))
  deriving DecidableEq, Repr

namespace Program

variable {τ : Type}

def empty : Program τ := ⟨.const none⟩

def track (p : Program τ) (pad : Pad) : Option (Track τ) := p.tracks.get pad

/-- The pads that have a track, in pad order. -/
def pads (p : Program τ) : List Pad := p.tracks.pads

def size (p : Program τ) : Nat := p.pads.length

def isEmpty (p : Program τ) : Bool := p.pads.isEmpty

/-- A program with a single track fits any pad and is bound to one when it is played. -/
def isGeneric (p : Program τ) : Bool := p.size = 1

def isFull (p : Program τ) : Bool := Pad.all.all fun pad => (p.track pad).isSome

/-- The only track of a generic program. -/
def genericTrack? (p : Program τ) : Option (Track τ) :=
  match p.tracks.entries with
  | [(_, track)] => some track
  | _ => none

end Program

end LightShow
