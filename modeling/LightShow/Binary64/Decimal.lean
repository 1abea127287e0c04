import LightShow.Binary64

namespace LightShow

/-- A whole number of units of `10 ^ -scale`. -/
structure Decimal where
  units : Nat
  scale : Int
  deriving DecidableEq, Repr

namespace Decimal

/-- A whole number with some zeros written behind it. -/
def withZeros (n count : Nat) : Nat := n * Nat.pow 10 count

def quotient (d : Decimal) : Nat × Nat :=
  (withZeros d.units (-d.scale).toNat, withZeros 1 d.scale.toNat)

/-- Drops up to `count` zeros at the end of the fraction. -/
def dropZeros : (count : Nat) → Decimal → Decimal
  | 0, d => d
  | count + 1, d =>
    if 0 < d.scale ∧ d.units % 10 = 0 then dropZeros count ⟨d.units / 10, d.scale - 1⟩ else d

/-- The number in positional notation, with at least one digit before the point and behind it. -/
def text (d : Decimal) : String :=
  if d.scale ≤ 0 then toString (withZeros d.units (-d.scale).toNat) ++ ".0"
  else
    let places := d.scale.toNat
    let fraction := (toString (d.units % withZeros 1 places)).toList
    toString (d.units / withZeros 1 places) ++ "." ++
      String.ofList (List.replicate (places - fraction.length) '0' ++ fraction)

/-- The number of zeros between the point and the first digit of `num / den`, which is below one.
No more than `limit` are counted. -/
def leadingZeros : (limit : Nat) → (num den : Nat) → Nat
  | 0, _, _ => 0
  | limit + 1, num, den => if den ≤ num * 10 then 0 else leadingZeros limit (num * 10) den + 1

/-- The place of the first digit of `num / den`: how many digits stand before the point, or, as a
negative number, how many zeros follow it. -/
def firstPlace (num den : Nat) : Int :=
  if den ≤ num then (toString (num / den)).length
  else -(leadingZeros 400 num den : Int)

end Decimal

namespace Binary64

/-- The largest power of ten by which a number is scaled when it is read: beyond it every number
is infinite or zero. -/
def maxPower : Int := 400

/-- The finite number nearest to `± units · 10 ^ -scale`; none if that is too large for one. -/
def ofDecimal? (negative : Bool) (d : Decimal) : Option Binary64 :=
  let size : Int := (toString d.units).length - d.scale
  if d.units = 0 ∨ size < -maxPower then some (ofMagnitude negative 0)
  else if maxPower < size then none
  else
    let (num, den) := d.quotient
    let x := ofMagnitude negative (nearestMagnitude num den)
    if x.isFinite then some x else none

/-- The decimals of `places` digits next to a magnitude that read back as it. Of two the nearer is
taken; a tie goes up. -/
def neighbour? (magnitude num den : Nat) (places : Nat) : Option Decimal :=
  let scale : Int := places - Decimal.firstPlace num den
  let scaledNum := Decimal.withZeros num scale.toNat
  let scaledDen := Decimal.withZeros den (-scale).toNat
  let below : Decimal := ⟨scaledNum / scaledDen, scale⟩
  let above : Decimal := ⟨scaledNum / scaledDen + 1, scale⟩
  let readsBack (d : Decimal) : Bool :=
    decide (nearestMagnitude d.quotient.1 d.quotient.2 = magnitude)
  if readsBack below then
    if readsBack above && decide (scaledDen ≤ 2 * (scaledNum % scaledDen)) then some above
    else some below
  else if readsBack above then some above
  else none

/-- The decimal with the fewest digits that reads back as the absolute value of a finite number
above zero; of those the nearest. Seventeen digits always suffice. -/
def shortestDecimal (x : Binary64) : Decimal :=
  let (num, den) := x.scaledQuotient 1
  let found := (List.range 17).findSome? fun n => neighbour? x.magnitude num den (n + 1)
  (found.getD ⟨0, 0⟩).dropZeros 20

/-- The shortest text that reads back as the number, without an exponent. -/
def text (x : Binary64) : String :=
  if x.isNaN then "nan"
  else
    let sign := if x.signBit then "-" else ""
    if x.isInfinite then sign ++ "inf"
    else if x.isZero then sign ++ "0.0"
    else sign ++ x.shortestDecimal.text

end Binary64

end LightShow
