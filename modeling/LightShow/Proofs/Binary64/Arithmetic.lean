import LightShow.Proofs.Binary64.Spans

namespace LightShow.Binary64

variable {x y z : Binary64}

theorem value_of_magnitude_eq_zero (h : x.IsSpan) (hzero : x.magnitude = 0) : x.value = 0 := by
  have hsignificand : x.significand = 0 := by simp [significand, hzero, exponentPlace]
  rw [h.value_eq, absValue_eq, hsignificand, Nat.cast_zero, zero_mul]

/-- Infinitely many seconds count as a span, so that sums and products stay spans. -/
theorem isSpan_infinity : (infinity false).IsSpan := .ofMagnitude le_rfl

/-- There is but one infinite span. -/
theorem IsSpan.eq_infinity (h : x.IsSpan) (hinfinite : x.isInfinite = true) : x = infinity false := by
  refine h.ext isSpan_infinity ?_
  rw [infinity, magnitude_ofMagnitude infinityMagnitude_lt]
  exact of_decide_eq_true hinfinite

theorem IsSpan.magnitude_le_infinity (h : x.IsSpan) : x.magnitude ≤ (infinity false).magnitude := by
  rw [infinity, magnitude_ofMagnitude infinityMagnitude_lt]
  exact h.magnitude_le

theorem isSpan_intCast {n : Int} (h : 0 ≤ n) : (n : Binary64).IsSpan :=
  isSpan_ofRat (Int.cast_nonneg h)

/-! Sums of spans. -/

/-- An infinite span swallows whatever is added to it. -/
theorem add_of_infinite (hx : x.IsSpan) (hy : y.IsSpan) (h : x.isInfinite = true) : x + y = x := by
  change x.add y = x
  simp [add, hx.isNaN, hy.isNaN, hx.signBit, hy.signBit, h]

theorem add_of_infinite_right (hx : x.IsSpan) (hy : y.IsSpan) (hxi : x.isInfinite = false)
    (hyi : y.isInfinite = true) : x + y = y := by
  change x.add y = y
  simp [add, hx.isNaN, hy.isNaN, hxi, hyi]

/-- Of finite spans the exact sum is rounded once. -/
theorem add_of_finite (hx : x.IsSpan) (hy : y.IsSpan) (hxi : x.isInfinite = false)
    (hyi : y.isInfinite = false) : x + y = ofRat false (x.value + y.value) := by
  change x.add y = _
  simp [add, hx.isNaN, hy.isNaN, hx.signBit, hxi, hyi]

/-- Sums of spans are spans, infinite ones included. -/
theorem IsSpan.add (hx : x.IsSpan) (hy : y.IsSpan) : (x + y).IsSpan := by
  cases hxi : x.isInfinite with
  | true => rwa [add_of_infinite hx hy hxi]
  | false =>
    cases hyi : y.isInfinite with
    | true => rwa [add_of_infinite_right hx hy hxi hyi]
    | false =>
      rw [add_of_finite hx hy hxi hyi]
      exact isSpan_ofRat (add_nonneg hx.value_nonneg hy.value_nonneg)

theorem IsSpan.isFinite_of_not (h : x.IsSpan) (hinfinite : x.isInfinite = false) :
    x.isFinite = true := by
  rcases h.finite_or_infinite with ⟨hfinite, _⟩ | ⟨_, hi⟩
  · exact hfinite
  · rw [hinfinite] at hi
    cases hi

/-- What is no larger than a finite span is finite. -/
theorem IsSpan.isInfinite_of_le (hy : y.IsSpan) (h : x.magnitude ≤ y.magnitude)
    (hfinite : y.isInfinite = false) : x.isInfinite = false := by
  have hle := hy.magnitude_le
  rw [isInfinite, decide_eq_false_iff_not] at hfinite ⊢
  omega

/-- Adding a span keeps the order of spans, whether or not the sums are rounded or grow to
infinity. -/
theorem add_le_add_left (hx : x.IsSpan) (hy : y.IsSpan) (hz : z.IsSpan)
    (h : y.magnitude ≤ z.magnitude) : (x + y).magnitude ≤ (x + z).magnitude := by
  cases hxi : x.isInfinite with
  | true => rw [add_of_infinite hx hy hxi, add_of_infinite hx hz hxi]
  | false =>
    cases hzi : z.isInfinite with
    | true =>
      rw [add_of_infinite_right hx hz hxi hzi, hz.eq_infinity hzi]
      exact (hx.add hy).magnitude_le_infinity
    | false =>
      have hyi := hz.isInfinite_of_le h hzi
      rw [add_of_finite hx hy hxi hyi, add_of_finite hx hz hxi hzi]
      refine ofRat_mono (add_nonneg hx.value_nonneg hy.value_nonneg) ?_
      have hvalue := (hy.value_le_iff (hy.isFinite_of_not hyi) hz (hz.isFinite_of_not hzi)).2 h
      exact add_le_add_right hvalue _

/-! Products of spans with paces. -/

/-- A number of seconds that a tick can take: above zero and finite. -/
structure IsPace (x : Binary64) : Prop extends IsSpan x where
  isFinite : x.isFinite = true
  isZero : x.isZero = false

theorem IsPace.isInfinite (h : x.IsPace) : x.isInfinite = false := by
  rcases h.toIsSpan.finite_or_infinite with ⟨_, hi⟩ | ⟨hf, _⟩
  · exact hi
  · rw [h.isFinite] at hf
    cases hf

/-- A pace is not zero, so that an infinite span times a pace is no NaN. -/
theorem mul_of_infinite (hx : x.IsSpan) (hy : y.IsPace) (h : x.isInfinite = true) :
    x * y = infinity false := by
  have hzero : x.isZero = false := by
    rw [Binary64.isInfinite, decide_eq_true_eq] at h
    rw [Binary64.isZero, h]
    rfl
  change x.mul y = _
  simp [mul, hx.isNaN, hy.isNaN, hx.signBit, hy.signBit, h, hzero, hy.isZero]

/-- The product of a finite span and a pace is the exact product, rounded once. -/
theorem mul_of_finite (hx : x.IsSpan) (hy : y.IsPace) (h : x.isInfinite = false) :
    x * y = ofRat false (x.value * y.value) := by
  change x.mul y = _
  simp [mul, hx.isNaN, hy.isNaN, hx.signBit, hy.signBit, h, hy.isInfinite]

/-- Spans times paces are spans. -/
theorem IsSpan.mul (hx : x.IsSpan) (hy : y.IsPace) : (x * y).IsSpan := by
  cases hxi : x.isInfinite with
  | true =>
    rw [mul_of_infinite hx hy hxi]
    exact isSpan_infinity
  | false =>
    rw [mul_of_finite hx hy hxi]
    exact isSpan_ofRat (mul_nonneg hx.value_nonneg hy.toIsSpan.value_nonneg)

/-- Multiplying by a pace keeps the order of spans. -/
theorem mul_le_mul_right (hx : x.IsSpan) (hy : y.IsSpan) (hz : z.IsPace)
    (h : x.magnitude ≤ y.magnitude) : (x * z).magnitude ≤ (y * z).magnitude := by
  cases hyi : y.isInfinite with
  | true =>
    rw [mul_of_infinite hy hz hyi]
    exact (hx.mul hz).magnitude_le_infinity
  | false =>
    have hxi := hy.isInfinite_of_le h hyi
    rw [mul_of_finite hx hz hxi, mul_of_finite hy hz hyi]
    have hvalue := (hx.value_le_iff (hx.isFinite_of_not hxi) hy (hy.isFinite_of_not hyi)).2 h
    exact ofRat_mono (mul_nonneg hx.value_nonneg hz.toIsSpan.value_nonneg)
      (mul_le_mul_of_nonneg_right hvalue hz.toIsSpan.value_nonneg)

/-- No ticks at any pace add no time. -/
theorem add_zero_mul (hx : x.IsSpan) (hy : y.IsPace) : x + ((0 : Int) : Binary64) * y = x := by
  have hmagnitude : ((0 : Int) : Binary64).magnitude = 0 := magnitude_ofRat le_rfl
  have hzero : ((0 : Int) : Binary64).IsSpan := isSpan_intCast le_rfl
  have hi : ((0 : Int) : Binary64).isInfinite = false := by
    rw [isInfinite, hmagnitude]
    rfl
  have hproduct : ((0 : Int) : Binary64) * y = ((0 : Int) : Binary64) := by
    rw [mul_of_finite hzero hy hi, value_of_magnitude_eq_zero hzero hmagnitude, zero_mul]
    rfl
  rw [hproduct]
  cases hxi : x.isInfinite with
  | true => exact add_of_infinite hx hzero hxi
  | false =>
    rw [add_of_finite hx hzero hxi hi, value_of_magnitude_eq_zero hzero hmagnitude, add_zero]
    exact hx.ofRat_value (hx.isFinite_of_not hxi)

/-! Differences of spans. -/

/-- Finite numbers are whole multiples of the least one above zero. -/
theorem IsSpan.exists_value_eq (h : x.IsSpan) : ∃ k : Nat, x.value = k * 2 ^ (-1074 : Int) := by
  obtain ⟨n, hn⟩ : ∃ n : Nat, x.exponent + 1074 = n := Int.eq_ofNat_of_zero_le (by
    rw [exponent]
    omega)
  have hexponent : x.exponent = n + (-1074) := by omega
  refine ⟨x.significand * 2 ^ n, ?_⟩
  rw [h.value_eq, absValue_eq, hexponent, zpow_add₀ two_ne_zero, zpow_natCast, Nat.cast_mul,
    Nat.cast_pow, Nat.cast_ofNat, mul_assoc]

theorem magnitudeOf_least : magnitudeOf (2 ^ (-1074 : Int)) = 1 := by
  have h := magnitudeOf_eq Nat.one_pos (by decide) (.inr rfl)
  rwa [Nat.cast_one, one_mul] at h

/-- A difference of finite spans is never so small that it rounds to nothing. -/
theorem magnitudeOf_sub_pos (hx : x.IsSpan) (hy : y.IsSpan) (h : x.value < y.value) :
    0 < magnitudeOf (y.value - x.value) := by
  obtain ⟨m, hm⟩ := hx.exists_value_eq
  obtain ⟨n, hn⟩ := hy.exists_value_eq
  have hleast : (0 : ℚ) < 2 ^ (-1074 : Int) := by positivity
  -- On the grid of all numbers the two lie at least one place apart.
  rw [hm, hn] at h ⊢
  have hlt : m < n := by exact_mod_cast lt_of_mul_lt_mul_right h hleast.le
  have hgap : (m : ℚ) + 1 ≤ n := by exact_mod_cast hlt
  have hle : (2 : ℚ) ^ (-1074 : Int) ≤ n * 2 ^ (-1074 : Int) - m * 2 ^ (-1074 : Int) := by
    rw [← sub_mul]
    exact le_mul_of_one_le_left hleast.le (by linarith)
  have hmono := magnitudeOf_mono hleast.le hle
  rwa [magnitudeOf_least] at hmono

/-- Of spans all but zero are positive. -/
theorem IsSpan.isPositive_iff (h : x.IsSpan) : x.isPositive = true ↔ x.magnitude ≠ 0 := by
  simp [isPositive, h.signBit, h.isNaN, isZero]

theorem IsSpan.signBit_neg (h : x.IsSpan) : x.neg.signBit = true := by
  rw [neg, signBit_ofMagnitude x.magnitude_lt, h.signBit]
  rfl

theorem magnitude_neg (x : Binary64) : x.neg.magnitude = x.magnitude :=
  magnitude_ofMagnitude x.magnitude_lt _

theorem isNaN_neg (x : Binary64) : x.neg.isNaN = x.isNaN := by
  simp only [isNaN, magnitude_neg]

theorem isInfinite_neg (x : Binary64) : x.neg.isInfinite = x.isInfinite := by
  simp only [isInfinite, magnitude_neg]

theorem IsSpan.value_neg (h : x.IsSpan) : x.neg.value = -x.value := by
  have habs : x.neg.absValue = x.absValue := by
    simp only [absValue, significand, exponent, magnitude_neg]
  rw [value, h.signBit_neg, habs, h.value_eq]
  rfl

/-- Of finite spans the exact difference is rounded once. -/
theorem sub_of_finite (hy : y.IsSpan) (hx : x.IsSpan) (hyi : y.isInfinite = false)
    (hxi : x.isInfinite = false) : y - x = ofRat false (y.value - x.value) := by
  change y.add x.neg = _
  simp [add, isNaN_neg, isInfinite_neg, hy.isNaN, hx.isNaN, hyi, hxi, hy.signBit, hx.value_neg,
    sub_eq_add_neg]

/-- An infinite span less a finite one is still infinite, and less itself it is no number. -/
theorem sub_of_infinite (hy : y.IsSpan) (hx : x.IsSpan) (hyi : y.isInfinite = true) :
    y - x = if x.isInfinite then nan else y := by
  change y.add x.neg = _
  simp [add, isNaN_neg, isInfinite_neg, hy.isNaN, hx.isNaN, hyi, hy.signBit, hx.signBit_neg]

/-- From one span to another that is no smaller, some time passes unless the two are the same. The
difference of infinity and itself is no number. -/
theorem isPositive_sub_iff (hx : x.IsSpan) (hy : y.IsSpan) (h : x.magnitude ≤ y.magnitude) :
    (y - x).isPositive = true ↔ y ≠ x := by
  cases hyi : y.isInfinite with
  | true =>
    rw [sub_of_infinite hy hx hyi]
    cases hxi : x.isInfinite with
    | true =>
      rw [hx.eq_infinity hxi, hy.eq_infinity hyi]
      simp only [if_true, ne_eq, not_true]
      exact iff_of_false (by decide) id
    | false =>
      have hne : y ≠ x := by
        rintro rfl
        rw [hyi] at hxi
        cases hxi
      rw [isInfinite, decide_eq_true_eq] at hyi
      simp only [Bool.false_eq_true, if_false, hy.isPositive_iff, hyi]
      exact iff_of_true (by decide) hne
  | false =>
    have hxi := hy.isInfinite_of_le h hyi
    have hxf := hx.isFinite_of_not hxi
    have hyf := hy.isFinite_of_not hyi
    have hvalue := (hx.value_le_iff hxf hy hyf).2 h
    have hdiff : 0 ≤ y.value - x.value := sub_nonneg.2 hvalue
    rw [sub_of_finite hy hx hyi hxi, (isSpan_ofRat hdiff).isPositive_iff, magnitude_ofRat hdiff]
    constructor
    · rintro hpos rfl
      rw [sub_self, magnitudeOf_zero] at hpos
      exact hpos rfl
    · intro hne
      have hlt : x.value < y.value := by
        refine lt_of_not_ge fun hge => hne ?_
        exact hy.ext hx (Nat.le_antisymm ((hy.value_le_iff hyf hx hxf).1 hge) h)
      exact (magnitudeOf_sub_pos hx hy hlt).ne'

/-! Quotients, between powers of two. -/

/-- A power of two in the normal range has an empty fraction. -/
theorem magnitudeOf_two_zpow {a : Int} (hlow : -1022 ≤ a) (hhigh : a ≤ 1023) :
    magnitudeOf (2 ^ a) = (a + 1023).toNat * exponentPlace := by
  have hfull : (2 : ℚ) ^ a = exponentPlace * 2 ^ (a - 52) := by
    rw [exponentPlace_eq, ← zpow_add₀ two_ne_zero, add_sub_cancel]
  have hgrid : (a - 52 + 1074).toNat * exponentPlace + exponentPlace =
      (a + 1023).toNat * exponentPlace := by
    rw [← Nat.succ_mul]
    congr 1
    omega
  have hle : (a + 1023).toNat * exponentPlace ≤ infinityMagnitude :=
    Nat.mul_le_mul_right _ (by omega)
  rw [hfull, magnitudeOf_eq (by decide) (by decide) (.inl ⟨le_rfl, by omega⟩), hgrid,
    Nat.min_eq_left hle]

/-- Powers of two in the normal range are met exactly. -/
theorem value_ofRat_two_zpow {a : Int} (hlow : -1022 ≤ a) (hhigh : a ≤ 1023) :
    (ofRat false (2 ^ a)).value = 2 ^ a := by
  have hpos : (0 : ℚ) ≤ 2 ^ a := by positivity
  have hmagnitude := magnitude_ofRat hpos
  rw [magnitudeOf_two_zpow hlow hhigh] at hmagnitude
  have hplace : 0 < exponentPlace := by decide
  have hexponent : (ofRat false (2 ^ a)).exponent = a - 52 := by
    rw [exponent, hmagnitude, Nat.mul_div_cancel _ hplace]
    omega
  have hsignificand : (ofRat false (2 ^ a)).significand = exponentPlace := by
    have hlarge : exponentPlace ≤ (a + 1023).toNat * exponentPlace :=
      Nat.le_mul_of_pos_left _ (by omega)
    rw [significand, hmagnitude, if_neg (Nat.not_lt.2 hlarge), Nat.mul_mod_left, Nat.add_zero]
  rw [(isSpan_ofRat hpos).value_eq, absValue_eq, hsignificand, hexponent, exponentPlace_eq,
    ← zpow_add₀ two_ne_zero, add_sub_cancel]

/-- The number lies between two powers of two. -/
structure Between (low high : Int) (x : Binary64) : Prop extends IsPace x where
  le_value : 2 ^ low ≤ x.value
  value_le : x.value ≤ 2 ^ high

/-- What lies between two powers of two of the normal range rounds to neither zero nor infinity. -/
theorem isPace_ofRat {low high : Int} {r : ℚ} (hlow : -1022 ≤ low) (hhigh : high ≤ 1023)
    (hle : 2 ^ low ≤ r) (hge : r ≤ 2 ^ high) : (ofRat false r).IsPace := by
  have hpos : (0 : ℚ) < 2 ^ low := by positivity
  have hr : 0 ≤ r := hpos.le.trans hle
  have horder : low ≤ high := (zpow_le_zpow_iff_right₀ one_lt_two).1 (hle.trans hge)
  have hbelow := magnitudeOf_mono hpos.le hle
  have habove := magnitudeOf_mono hr hge
  rw [magnitudeOf_two_zpow hlow (horder.trans hhigh), ← magnitude_ofRat hr] at hbelow
  rw [magnitudeOf_two_zpow (hlow.trans horder) hhigh, ← magnitude_ofRat hr] at habove
  have hplace : 0 < exponentPlace := by decide
  have hzero : 0 < (low + 1023).toNat * exponentPlace := Nat.mul_pos (by omega) hplace
  have hinfinite : (high + 1023).toNat * exponentPlace < infinityMagnitude :=
    Nat.mul_lt_mul_of_pos_right (by omega) hplace
  refine ⟨isSpan_ofRat hr, ?_, ?_⟩
  · exact decide_eq_true (habove.trans_lt hinfinite)
  · exact decide_eq_false (hzero.trans_le hbelow).ne'

/-- Rounding does not lead across a power of two. -/
theorem between_ofRat {low high : Int} {r : ℚ} (hlow : -1022 ≤ low) (hhigh : high ≤ 1023)
    (hle : 2 ^ low ≤ r) (hge : r ≤ 2 ^ high) : (ofRat false r).Between low high := by
  have hpos (a : Int) : (0 : ℚ) < 2 ^ a := by positivity
  have hr : 0 ≤ r := (hpos low).le.trans hle
  have horder : low ≤ high := (zpow_le_zpow_iff_right₀ one_lt_two).1 (hle.trans hge)
  have hpace := isPace_ofRat hlow hhigh hle hge
  have hpaceLow : (ofRat false (2 ^ low)).IsPace := isPace_ofRat hlow hhigh le_rfl (hle.trans hge)
  have hpaceHigh : (ofRat false (2 ^ high)).IsPace := isPace_ofRat hlow hhigh (hle.trans hge) le_rfl
  refine ⟨hpace, ?_, ?_⟩
  · rw [← value_ofRat_two_zpow hlow (horder.trans hhigh)]
    exact (hpaceLow.value_le_iff hpaceLow.isFinite hpace.toIsSpan hpace.isFinite).2
      (ofRat_mono (hpos low).le hle)
  · rw [← value_ofRat_two_zpow (hlow.trans horder) hhigh]
    exact (hpace.value_le_iff hpace.isFinite hpaceHigh.toIsSpan hpaceHigh.isFinite).2
      (ofRat_mono hr hge)

/-- Of paces the exact quotient is rounded once. -/
theorem div_of_finite (hx : x.IsPace) (hy : y.IsPace) : x / y = ofRat false (x.value / y.value) := by
  change x.div y = _
  simp [div, hx.isNaN, hy.isNaN, hx.signBit, hy.signBit, hx.isInfinite, hy.isInfinite, hy.isZero]

/-- A quotient lies between the quotients of the bounds, also after it has been rounded. -/
theorem Between.div {a b c d : Int} (hx : x.Between a b) (hy : y.Between c d)
    (hlow : -1022 ≤ a - d) (hhigh : b - c ≤ 1023) : (x / y).Between (a - d) (b - c) := by
  have hpos (e : Int) : (0 : ℚ) < 2 ^ e := by positivity
  have hypos : 0 < y.value := (hpos c).trans_le hy.le_value
  rw [div_of_finite hx.toIsPace hy.toIsPace]
  refine between_ofRat hlow hhigh ?_ ?_
  · rw [zpow_sub₀ two_ne_zero]
    exact div_le_div₀ hx.toIsSpan.value_nonneg hx.le_value hypos hy.value_le
  · rw [zpow_sub₀ two_ne_zero]
    exact div_le_div₀ (hpos b).le hx.value_le (hpos c) hy.le_value

/-- A whole number between two powers of two is still between them once it has been rounded. -/
theorem between_intCast {n : Int} {low high : Nat} (hhigh : high ≤ 1023) (hle : 2 ^ low ≤ n)
    (hge : n ≤ 2 ^ high) : (n : Binary64).Between low high := by
  refine between_ofRat (by omega) (by omega) ?_ ?_
  · exact_mod_cast hle
  · exact_mod_cast hge

end LightShow.Binary64
