import LightShow.Binary64

namespace LightShow

/-- A number type in which times are kept, in seconds. Whole numbers are written with a cast, and
`+ - * /` are the type's own, exact or rounded. -/
class Clock (τ : Type) extends Add τ, Sub τ, Mul τ, Div τ, IntCast τ where
  /-- The order in which a track keeps its commands. -/
  le : τ → τ → Bool
  later : τ → τ → τ
  /-- A span in the actuator's units of ten milliseconds: nothing for a span that is not positive,
  else the nearest unit (a half goes to the even neighbour) within `1 … 255`. -/
  units : τ → UInt8
  /-- The shortest period of a loop, ten milliseconds. -/
  minPeriod : τ

/-- A number of units, kept within what an actuator takes. -/
def clampUnits (n : Nat) : UInt8 :=
  UInt8.ofNat (max 1 (min 255 n))

namespace Binary64

/-- The number nearest to one hundredth. -/
def hundredth : Binary64 := ⟨0x3F847AE147AE147B⟩

def units (seconds : Binary64) : UInt8 :=
  if seconds.isPositive then
    let scaled := seconds / hundredth
    clampUnits (if scaled.isInfinite then 255 else scaled.scaledHalfEven 1)
  else 0

instance : Clock Binary64 where
  le := totalLe
  later := larger
  units := units
  minPeriod := hundredth

end Binary64

instance : Clock Rat where
  le a b := decide (a ≤ b)
  later a b := if a ≤ b then b else a
  units seconds :=
    if 0 < seconds then
      clampUnits (roundHalfEven (seconds.num.natAbs * 100) seconds.den)
    else 0
  minPeriod := mkRat 1 100

end LightShow
