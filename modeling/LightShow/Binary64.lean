namespace LightShow

/-- The quotient of `num` and `den`, rounded to the nearest whole number; a half goes to the even
neighbour. -/
def roundHalfEven (num den : Nat) : Nat :=
  let q := num / den
  let r := num % den
  if 2 * r < den then q
  else if den < 2 * r then q + 1
  else if q % 2 = 0 then q
  else q + 1

/-- The quotient of `num` and `den`, rounded to the nearest whole number; a half goes up. -/
def roundHalfUp (num den : Nat) : Nat :=
  (2 * num + den) / (2 * den)

/-- The whole part of the base-two logarithm of `num / den`, for positive arguments. -/
def floorLog2 (num den : Nat) : Int :=
  let k : Int := num.log2 - den.log2
  if den <<< k.toNat ≤ num <<< (-k).toNat then k else k - 1

/-- An IEEE-754 binary64 number, held by its bit pattern, so that also the sign of a zero and of a
NaN is kept. Arithmetic is exact rational arithmetic followed by one rounding to nearest, a tie
going to the even neighbour. -/
structure Binary64 where
  bits : UInt64
  deriving DecidableEq, Repr, Inhabited

namespace Binary64

def signPlace : Nat := 0x8000000000000000

/-- The place of the exponent in a bit pattern, above the fifty-two bits of the fraction. -/
def exponentPlace : Nat := 0x10000000000000

/-- True of negative numbers, of minus zero and of a NaN whose sign is set. -/
def signBit (x : Binary64) : Bool :=
  decide (signPlace ≤ x.bits.toNat)

/-- The bit pattern without its sign. -/
def magnitude (x : Binary64) : Nat :=
  x.bits.toNat % signPlace

/-- The bit pattern of infinity: every magnitude above it is a NaN. -/
def infinityMagnitude : Nat := 0x7FF * exponentPlace

def isNaN (x : Binary64) : Bool :=
  decide (infinityMagnitude < x.magnitude)

def isInfinite (x : Binary64) : Bool :=
  decide (x.magnitude = infinityMagnitude)

def isFinite (x : Binary64) : Bool :=
  decide (x.magnitude < infinityMagnitude)

def isZero (x : Binary64) : Bool :=
  decide (x.magnitude = 0)

def ofMagnitude (negative : Bool) (m : Nat) : Binary64 :=
  ⟨UInt64.ofNat (if negative then signPlace + m else m)⟩

def zero : Binary64 := ⟨0⟩

def infinity (negative : Bool) : Binary64 := ofMagnitude negative infinityMagnitude

def nan : Binary64 := ⟨0x7FF8000000000000⟩

/-- The whole number that, times a power of two, is a finite number's absolute value. -/
def significand (x : Binary64) : Nat :=
  if x.magnitude < exponentPlace then x.magnitude
  else exponentPlace + x.magnitude % exponentPlace

/-- The exponent of that power of two. -/
def exponent (x : Binary64) : Int :=
  max 1 (x.magnitude / exponentPlace : Nat) - 1075

def absValue (x : Binary64) : Rat :=
  mkRat (x.significand <<< x.exponent.toNat : Nat) (1 <<< (-x.exponent).toNat)

/-- The exact value of a finite number. -/
def value (x : Binary64) : Rat :=
  if x.signBit then -x.absValue else x.absValue

/-- The magnitude nearest to `num / den`, or that of infinity if the quotient is too large. The
significand `q` is found in units of `2 ^ e`; added to the exponent's place it also carries over
into the next exponent when it rounds up to a power of two. -/
def nearestMagnitude (num den : Nat) : Nat :=
  if num = 0 then 0
  else
    let e : Int := max (-1074) (floorLog2 num den - 52)
    let q := roundHalfEven (num <<< (-e).toNat) (den <<< e.toNat)
    min ((e + 1074).toNat * exponentPlace + q) infinityMagnitude

/-- The number nearest to `r`. A zero takes the sign that is asked for. -/
def ofRat (negativeZero : Bool) (r : Rat) : Binary64 :=
  let negative := if r = 0 then negativeZero else decide (r < 0)
  ofMagnitude negative (nearestMagnitude r.num.natAbs r.den)

def ofInt (n : Int) : Binary64 := ofRat false n

def neg (x : Binary64) : Binary64 := ofMagnitude (!x.signBit) x.magnitude

def add (x y : Binary64) : Binary64 :=
  if x.isNaN || y.isNaN then nan
  else if x.isInfinite then
    if y.isInfinite && (x.signBit != y.signBit) then nan else x
  else if y.isInfinite then y
  else ofRat (x.signBit && y.signBit) (x.value + y.value)

def sub (x y : Binary64) : Binary64 := x.add y.neg

def mul (x y : Binary64) : Binary64 :=
  let negative := x.signBit != y.signBit
  if x.isNaN || y.isNaN then nan
  else if x.isInfinite || y.isInfinite then
    if x.isZero || y.isZero then nan else infinity negative
  else ofRat negative (x.value * y.value)

def div (x y : Binary64) : Binary64 :=
  let negative := x.signBit != y.signBit
  if x.isNaN || y.isNaN then nan
  else if x.isInfinite then
    if y.isInfinite then nan else infinity negative
  else if y.isInfinite then ofMagnitude negative 0
  else if y.isZero then
    if x.isZero then nan else infinity negative
  else ofRat negative (x.value / y.value)

instance : Add Binary64 := ⟨add⟩
instance : Sub Binary64 := ⟨sub⟩
instance : Mul Binary64 := ⟨mul⟩
instance : Div Binary64 := ⟨div⟩
instance : Neg Binary64 := ⟨neg⟩
instance : IntCast Binary64 := ⟨ofInt⟩

/-- The place of a number in the total order of all bit patterns: minus zero stands just below
zero, and a NaN stands beyond the infinity of its sign. -/
def orderKey (x : Binary64) : Int :=
  if x.signBit then -(x.magnitude : Int) - 1 else x.magnitude

def totalLe (x y : Binary64) : Bool :=
  decide (x.orderKey ≤ y.orderKey)

/-- The larger of two numbers; a NaN gives way to the other one. -/
def larger (x y : Binary64) : Binary64 :=
  if x.isNaN then y
  else if y.isNaN then x
  else if x.orderKey < y.orderKey then y
  else x

/-- True of every number above zero; not of a NaN. -/
def isPositive (x : Binary64) : Bool :=
  !x.signBit && !x.isZero && !x.isNaN

/-- The absolute value of a finite number times `scale`, as a quotient of whole numbers. -/
def scaledQuotient (x : Binary64) (scale : Nat) : Nat × Nat :=
  ((x.significand <<< x.exponent.toNat) * scale, 1 <<< (-x.exponent).toNat)

/-- A number that is not negative, times `scale`, rounded to the nearest whole number with halves
going to the even neighbour. -/
def scaledHalfEven (x : Binary64) (scale : Nat) : Nat :=
  roundHalfEven (x.scaledQuotient scale).1 (x.scaledQuotient scale).2

/-- The nearest whole number within `0 … limit`, halves going up; a NaN counts as zero. -/
def saturate (x : Binary64) (limit : Nat) : Nat :=
  if !x.isPositive then 0
  else if x.isInfinite then limit
  else min limit (roundHalfUp (x.scaledQuotient 1).1 (x.scaledQuotient 1).2)

end Binary64

end LightShow
