import LightShow.Proofs.Binary64.Spans

namespace LightShow.Binary64

variable {x y : Binary64}

theorem isNaN_of_isFinite (h : x.isFinite = true) : x.isNaN = false := by
  simp only [isFinite, isNaN, decide_eq_true_eq, decide_eq_false_iff_not] at h ⊢
  exact Nat.lt_asymm h

/-- The total order is that of the keys. -/
theorem totalLe_iff : totalLe x y = true ↔ x.orderKey ≤ y.orderKey := decide_eq_true_iff

theorem totalLe_refl (x : Binary64) : totalLe x x = true := totalLe_iff.2 (Int.le_refl _)

theorem totalLe_trans {z : Binary64} (hxy : totalLe x y = true) (hyz : totalLe y z = true) :
    totalLe x z = true :=
  totalLe_iff.2 ((totalLe_iff.1 hxy).trans (totalLe_iff.1 hyz))

/-- Of two bit patterns, NaNs included, one comes first. -/
theorem totalLe_total (x y : Binary64) : (totalLe x y || totalLe y x) = true := by
  simp only [Bool.or_eq_true, totalLe_iff]
  exact le_total _ _

/-- A bit pattern is its sign and its magnitude. -/
theorem toNat_bits (x : Binary64) :
    x.bits.toNat = if x.signBit then signPlace + x.magnitude else x.magnitude := by
  have hlt := x.bits.toNat_lt
  by_cases hsign : signPlace ≤ x.bits.toNat
  · rw [signBit, decide_eq_true hsign, if_pos rfl, magnitude]
    simp only [signPlace] at hsign ⊢
    omega
  · rw [signBit, decide_eq_false hsign, if_neg Bool.false_ne_true, magnitude]
    exact (Nat.mod_eq_of_lt (Nat.not_le.1 hsign)).symm

/-- Numbers of one place are the same bit pattern. -/
theorem totalLe_antisymm (hxy : totalLe x y = true) (hyx : totalLe y x = true) : x = y := by
  have hkey := (totalLe_iff.1 hxy).antisymm (totalLe_iff.1 hyx)
  have hbits : x.bits.toNat = y.bits.toNat := by
    rw [toNat_bits, toNat_bits]
    simp only [orderKey] at hkey
    cases hx : x.signBit <;> cases hy : y.signBit <;>
      simp only [hx, hy, Bool.false_eq_true, if_true, if_false] at hkey ⊢ <;> omega
  obtain ⟨_⟩ := x
  obtain ⟨_⟩ := y
  exact congrArg _ (UInt64.toNat_inj.1 hbits)

/-- The larger of two is one of them, and the first only if that is a number or neither is one. -/
theorem larger_cases (x y : Binary64) :
    (larger x y = x ∧ (x.isNaN = true → y.isNaN = true)) ∨ larger x y = y := by
  rw [larger]
  split
  next => exact .inr rfl
  next hx =>
    split
    next hy => exact .inl ⟨rfl, fun _ => hy⟩
    next =>
      split
      · exact .inr rfl
      · exact .inl ⟨rfl, fun h => absurd h hx⟩

/-- The larger of two is a number as soon as the second is one. -/
theorem isNaN_larger_of_right (hy : y.isNaN = false) : (larger x y).isNaN = false := by
  rcases larger_cases x y with ⟨heq, hnan⟩ | heq
  · rw [heq, ← Bool.not_eq_true]
    exact fun hx => Bool.false_ne_true (hy.symm.trans (hnan hx))
  · rw [heq, hy]

/-- The larger of two is no smaller than the first, if that is a number. -/
theorem totalLe_larger_left (hx : x.isNaN = false) : totalLe x (larger x y) = true := by
  rw [larger, hx]
  cases hy : y.isNaN with
  | true => exact totalLe_refl x
  | false =>
    simp only [Bool.false_eq_true, if_false]
    split
    next hlt => exact totalLe_iff.2 hlt.le
    next => exact totalLe_refl x

/-- The larger of two is no smaller than the second, if that is a number. -/
theorem totalLe_larger_right (hy : y.isNaN = false) : totalLe y (larger x y) = true := by
  rw [larger, hy]
  cases hx : x.isNaN with
  | true => exact totalLe_refl y
  | false =>
    simp only [Bool.false_eq_true, if_false]
    split
    next => exact totalLe_refl y
    next hge => exact totalLe_iff.2 (not_lt.1 hge)

/-- The total order of bit patterns is the order of the numbers, as far as they are finite. -/
theorem value_le_of_orderKey_le (hx : x.isFinite = true) (hy : y.isFinite = true)
    (h : x.orderKey ≤ y.orderKey) : x.value ≤ y.value := by
  have hxAbs := absValue_nonneg x
  have hyAbs := absValue_nonneg y
  simp only [orderKey, value] at h ⊢
  cases hxSign : x.signBit with
  | false =>
    cases hySign : y.signBit with
    | false =>
      simp only [hxSign, hySign, Bool.false_eq_true, if_false, Nat.cast_le] at h ⊢
      exact (absValue_le_iff hx hy).2 h
    | true =>
      simp only [hxSign, hySign, Bool.false_eq_true, if_false, if_true] at h
      omega
  | true =>
    cases hySign : y.signBit with
    | false =>
      simp only [Bool.false_eq_true, if_false, if_true]
      exact (neg_nonpos.2 hxAbs).trans hyAbs
    | true =>
      simp only [hxSign, hySign, if_true] at h ⊢
      exact neg_le_neg ((absValue_le_iff hy hx).2 (by omega))

theorem value_le_of_totalLe (hx : x.isFinite = true) (hy : y.isFinite = true)
    (h : totalLe x y = true) : x.value ≤ y.value :=
  value_le_of_orderKey_le hx hy (of_decide_eq_true h)

/-- Of finite numbers the one with the higher key is taken, and the first if they are the same. -/
theorem larger_of_finite (hx : x.isFinite = true) (hy : y.isFinite = true) :
    larger x y = if x.orderKey < y.orderKey then y else x := by
  rw [larger, isNaN_of_isFinite hx, isNaN_of_isFinite hy]
  rfl

/-- The larger of two finite numbers is finite. -/
theorem isFinite_larger (hx : x.isFinite = true) (hy : y.isFinite = true) :
    (larger x y).isFinite = true := by
  rw [larger_of_finite hx hy]
  split
  · exact hy
  · exact hx

/-- As far as numbers are finite, the larger one is that of the larger value. -/
theorem value_larger (hx : x.isFinite = true) (hy : y.isFinite = true) :
    (larger x y).value = max x.value y.value := by
  rw [larger_of_finite hx hy]
  split
  next hlt => exact (max_eq_right (value_le_of_orderKey_le hx hy hlt.le)).symm
  next hge => exact (max_eq_left (value_le_of_orderKey_le hy hx (not_lt.1 hge))).symm

/-- Only a zero has no size. -/
theorem absValue_pos_iff : 0 < x.absValue ↔ x.magnitude ≠ 0 := by
  have hpower : (0 : ℚ) < 2 ^ x.exponent := by positivity
  have hplace : 0 < exponentPlace := by decide
  rw [absValue_eq, mul_pos_iff_of_pos_right hpower, Nat.cast_pos, significand]
  split <;> omega

/-- A finite number is positive exactly if its value is. -/
theorem isPositive_iff (h : x.isFinite = true) : x.isPositive = true ↔ 0 < x.value := by
  have hnonneg := absValue_nonneg x
  rw [isPositive, isNaN_of_isFinite h, value]
  cases x.signBit with
  | true => simpa using hnonneg
  | false => simpa [isZero] using absValue_pos_iff.symm

theorem value_eq_of_pos (h : 0 < x.value) : x.value = x.absValue := by
  have hnonneg := absValue_nonneg x
  rw [value] at h ⊢
  split at h
  next => linarith
  next hsign => rw [if_neg hsign]

/-- A number that is not negative, scaled and rounded to a whole one. -/
theorem scaledHalfEven_eq (x : Binary64) (scale : Nat) :
    x.scaledHalfEven scale = nearestWhole (x.absValue * scale) := by
  have hplaces : 0 < (x.scaledQuotient scale).2 := by
    simp only [scaledQuotient, Nat.shiftLeft_eq]
    positivity
  have hquotient : ((x.scaledQuotient scale).1 / (x.scaledQuotient scale).2 : ℚ) =
      x.absValue * scale := by
    simp only [scaledQuotient, absValue, Rat.mkRat_eq_div, Nat.cast_mul, Int.cast_natCast]
    exact mul_div_right_comm _ _ _
  rw [scaledHalfEven, ← nearestWhole_eq _ hplaces, hquotient]

end LightShow.Binary64
