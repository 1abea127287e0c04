import LightShow.Proofs.Binary64.Rounding

namespace LightShow.Binary64

/-- A number of seconds that can pass: it is not below zero and no NaN. It may be infinite. -/
structure IsSpan (x : Binary64) : Prop where
  signBit : x.signBit = false
  isNaN : x.isNaN = false

theorem signPlace_eq : signPlace = 2 ^ 63 := rfl

theorem magnitude_lt (x : Binary64) : x.magnitude < signPlace :=
  Nat.mod_lt _ (by decide)

theorem infinityMagnitude_lt : infinityMagnitude < signPlace := by decide

/-- A sign and a magnitude are put into one word without overlap. -/
theorem bits_ofMagnitude {m : Nat} (h : m < signPlace) (negative : Bool) :
    (ofMagnitude negative m).bits.toNat = if negative then signPlace + m else m := by
  rw [signPlace_eq] at h
  rw [ofMagnitude, UInt64.toNat_ofNat', Nat.mod_eq_of_lt]
  cases negative
  · simp only [Bool.false_eq_true, if_false]
    omega
  · simp only [if_true, signPlace_eq]
    omega

/-- The magnitude comes out of the bit pattern as it was put in. -/
theorem magnitude_ofMagnitude {m : Nat} (h : m < signPlace) (negative : Bool) :
    (ofMagnitude negative m).magnitude = m := by
  rw [magnitude, bits_ofMagnitude h]
  cases negative
  · exact Nat.mod_eq_of_lt h
  · simp only [if_true, Nat.add_mod_left]
    exact Nat.mod_eq_of_lt h

/-- So does the sign. -/
theorem signBit_ofMagnitude {m : Nat} (h : m < signPlace) (negative : Bool) :
    (ofMagnitude negative m).signBit = negative := by
  rw [signBit, bits_ofMagnitude h]
  cases negative
  · simpa using h
  · simp

namespace IsSpan

variable {x y z : Binary64}

theorem magnitude_le (h : x.IsSpan) : x.magnitude ≤ infinityMagnitude := by
  have hNaN := h.isNaN
  rw [Binary64.isNaN, decide_eq_false_iff_not] at hNaN
  exact Nat.le_of_not_lt hNaN

/-- Without a sign, every magnitude up to that of infinity is a span. -/
theorem ofMagnitude {m : Nat} (h : m ≤ infinityMagnitude) : (ofMagnitude false m).IsSpan := by
  have hlt := h.trans_lt infinityMagnitude_lt
  refine ⟨signBit_ofMagnitude hlt false, ?_⟩
  rw [Binary64.isNaN, magnitude_ofMagnitude hlt, decide_eq_false_iff_not]
  exact Nat.not_lt.2 h

theorem bits_eq (h : x.IsSpan) : x.bits.toNat = x.magnitude := by
  have hsign := h.signBit
  rw [Binary64.signBit, decide_eq_false_iff_not] at hsign
  exact (Nat.mod_eq_of_lt (Nat.lt_of_not_le hsign)).symm

/-- Spans of one magnitude are the same. -/
theorem ext (hx : x.IsSpan) (hy : y.IsSpan) (h : x.magnitude = y.magnitude) : x = y := by
  rw [← hx.bits_eq, ← hy.bits_eq] at h
  cases x
  cases y
  exact congrArg _ (UInt64.toNat_inj.1 h)

/-- Spans are ordered by their magnitudes. -/
theorem totalLe_iff (hx : x.IsSpan) (hy : y.IsSpan) :
    totalLe x y = true ↔ x.magnitude ≤ y.magnitude := by
  rw [totalLe, decide_eq_true_eq, orderKey, orderKey, hx.signBit, hy.signBit]
  simp

/-- A span is either finite or infinite, since it is no NaN. -/
theorem finite_or_infinite (h : x.IsSpan) :
    x.isFinite = true ∧ x.isInfinite = false ∨ x.isFinite = false ∧ x.isInfinite = true := by
  have hle := h.magnitude_le
  simp only [isFinite, isInfinite, decide_eq_true_eq, decide_eq_false_iff_not]
  omega

theorem value_eq (h : x.IsSpan) : x.value = x.absValue := by
  rw [value, h.signBit]
  rfl

theorem value_nonneg (h : x.IsSpan) : 0 ≤ x.value := by
  rw [h.value_eq]
  exact absValue_nonneg x

/-- The value of a finite span rounds to its own magnitude. -/
theorem magnitudeOf_value (h : x.IsSpan) (hfinite : x.isFinite = true) :
    magnitudeOf x.value = x.magnitude := by
  rw [h.value_eq]
  exact magnitudeOf_absValue (of_decide_eq_true hfinite)

end IsSpan

/-- A number that is not negative is rounded to a magnitude without a sign. -/
theorem ofRat_of_nonneg {r : ℚ} (h : 0 ≤ r) : ofRat false r = ofMagnitude false (magnitudeOf r) := by
  have hnot : ¬ r < 0 := not_lt.2 h
  simp [ofRat, magnitudeOf, hnot]

/-- Whatever is not negative is rounded to a span. -/
theorem isSpan_ofRat {r : ℚ} (h : 0 ≤ r) : (ofRat false r).IsSpan := by
  rw [ofRat_of_nonneg h]
  exact .ofMagnitude (magnitudeOf_le r)

theorem magnitude_ofRat {r : ℚ} (h : 0 ≤ r) : (ofRat false r).magnitude = magnitudeOf r := by
  rw [ofRat_of_nonneg h, magnitude_ofMagnitude ((magnitudeOf_le r).trans_lt infinityMagnitude_lt)]

/-- Rounding keeps the order. -/
theorem ofRat_mono {r s : ℚ} (hr : 0 ≤ r) (h : r ≤ s) :
    (ofRat false r).magnitude ≤ (ofRat false s).magnitude := by
  rw [magnitude_ofRat hr, magnitude_ofRat (hr.trans h)]
  exact magnitudeOf_mono hr h

namespace IsSpan

variable {x y z : Binary64}

/-- A finite span is its own rounding. -/
theorem ofRat_value (h : x.IsSpan) (hfinite : x.isFinite = true) : ofRat false x.value = x := by
  refine (isSpan_ofRat h.value_nonneg).ext h ?_
  rw [magnitude_ofRat h.value_nonneg, h.magnitudeOf_value hfinite]

/-- Finite spans are ordered by value as they are by magnitude. -/
theorem value_le_iff (hx : x.IsSpan) (hxf : x.isFinite = true) (hy : y.IsSpan)
    (hyf : y.isFinite = true) : x.value ≤ y.value ↔ x.magnitude ≤ y.magnitude := by
  rw [hx.value_eq, hy.value_eq, absValue_le_iff hxf hyf]

end IsSpan

end LightShow.Binary64
