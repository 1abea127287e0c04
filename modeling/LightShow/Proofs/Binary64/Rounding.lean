import LightShow.Binary64
import Mathlib.Algebra.Order.Field.Power
import Mathlib.Algebra.Order.Field.Rat
import Mathlib.Data.Int.Log
import Mathlib.Data.Rat.Floor
import Mathlib.Tactic.FieldSimp
import Mathlib.Tactic.Linarith
import Mathlib.Tactic.Positivity
import Mathlib.Tactic.Ring

namespace LightShow

/-- A fraction need not be in lowest terms to be rounded. -/
theorem roundHalfEven_scale (num den : Nat) {k : Nat} (hk : 0 < k) :
    roundHalfEven (num * k) (den * k) = roundHalfEven num den := by
  have hlt (a b : Nat) : 2 * (a * k) < b * k ↔ 2 * a < b := by
    rw [← Nat.mul_assoc, Nat.mul_lt_mul_right hk]
  have hgt (a b : Nat) : b * k < 2 * (a * k) ↔ b < 2 * a := by
    rw [← Nat.mul_assoc, Nat.mul_lt_mul_right hk]
  simp only [roundHalfEven, Nat.mul_div_mul_right _ _ hk, Nat.mul_mod_mul_right, hlt, hgt]

/-- Of fractions with one denominator the larger is not rounded to less. -/
theorem roundHalfEven_mono {num num' : Nat} (den : Nat) (h : num ≤ num') :
    roundHalfEven num den ≤ roundHalfEven num' den := by
  have hquot : num / den ≤ num' / den := Nat.div_le_div_right h
  have hsplit := Nat.div_add_mod num den
  have hsplit' := Nat.div_add_mod num' den
  rcases Nat.lt_or_eq_of_le hquot with hlt | heq
  · simp only [roundHalfEven]
    split_ifs <;> omega
  · rw [heq] at hsplit
    simp only [roundHalfEven, heq]
    split_ifs <;> omega

/-- Whole numbers stay what they are. -/
theorem roundHalfEven_mul_self (n : Nat) {den : Nat} (hden : 0 < den) :
    roundHalfEven (n * den) den = n := by
  simp [roundHalfEven, Nat.mul_div_cancel _ hden, hden]

namespace Binary64

/-- The whole number nearest to a number, a half going to the even neighbour. -/
def nearestWhole (x : ℚ) : Nat := roundHalfEven x.num.natAbs x.den

theorem natCast_div_le_iff {a b c d : Nat} (hb : 0 < b) (hd : 0 < d) :
    (a / b : ℚ) ≤ c / d ↔ a * d ≤ c * b := by
  rw [div_le_div_iff₀ (by positivity) (by positivity)]
  exact_mod_cast Iff.rfl

theorem natAbs_div_den {x : ℚ} (h : 0 ≤ x) : ((x.num.natAbs : ℚ) / x.den) = x := by
  have hnum : ((x.num.natAbs : ℤ) : ℚ) = (x.num : ℚ) := by
    rw [Int.natAbs_of_nonneg (Rat.num_nonneg.2 h)]
  rw [← Int.cast_natCast, hnum, Rat.num_div_den]

/-- The larger of two fractions is not rounded to less, whatever their denominators are. -/
theorem roundHalfEven_le {a b c d : Nat} (hb : 0 < b) (hd : 0 < d) (h : (a / b : ℚ) ≤ c / d) :
    roundHalfEven a b ≤ roundHalfEven c d := by
  rw [natCast_div_le_iff hb hd] at h
  rw [← roundHalfEven_scale a b hd, ← roundHalfEven_scale c d hb, Nat.mul_comm d b]
  exact roundHalfEven_mono _ h

/-- The nearest whole number does not depend on how the fraction is written. -/
theorem nearestWhole_eq (num : Nat) {den : Nat} (hden : 0 < den) :
    nearestWhole (num / den) = roundHalfEven num den := by
  have hvalue := natAbs_div_den (x := (num / den : ℚ)) (by positivity)
  apply Nat.le_antisymm
  · exact roundHalfEven_le (Rat.den_pos _) hden hvalue.le
  · exact roundHalfEven_le hden (Rat.den_pos _) hvalue.ge

/-- Taking the nearest whole number keeps the order. -/
theorem nearestWhole_mono {x y : ℚ} (hx : 0 ≤ x) (h : x ≤ y) : nearestWhole x ≤ nearestWhole y := by
  refine roundHalfEven_le (Rat.den_pos _) (Rat.den_pos _) ?_
  rwa [natAbs_div_den hx, natAbs_div_den (hx.trans h)]

theorem nearestWhole_natCast (n : Nat) : nearestWhole n = n := by
  have h := nearestWhole_eq n Nat.one_pos
  rw [Nat.cast_one, div_one] at h
  rw [h]
  simpa using roundHalfEven_mul_self n Nat.one_pos

/-- A shift by an exponent, which may be negative, as it is written with two shifts. -/
theorem shifted_div (num den : Nat) (e : Int) :
    ((num <<< (-e).toNat : Nat) : ℚ) / (den <<< e.toNat : Nat) = num / den / 2 ^ e := by
  rcases le_total 0 e with h | h
  · lift e to Nat using h
    simp [Nat.shiftLeft_eq, div_div]
  · obtain ⟨n, rfl⟩ := Int.exists_eq_neg_ofNat h
    simp [Nat.shiftLeft_eq]
    ring

/-- A number between two neighbouring powers of two has the exponent of the lower one as its
logarithm. -/
theorem log_eq {x : ℚ} {k : Int} (hle : 2 ^ k ≤ x) (hlt : x < 2 ^ (k + 1)) : Int.log 2 x = k := by
  have hpos : 0 < x := lt_of_lt_of_le (by positivity) hle
  have hlower : k ≤ Int.log 2 x :=
    (Int.zpow_le_iff_le_log Nat.one_lt_two hpos).1 (by exact_mod_cast hle)
  have hupper : Int.log 2 x < k + 1 :=
    (Int.lt_zpow_iff_log_lt Nat.one_lt_two hpos).1 (by exact_mod_cast hlt)
  omega

/-- The estimate from the lengths of numerator and denominator is off by one at most, and the
comparison of shifted numbers corrects it. -/
theorem floorLog2_eq {num den : Nat} (hnum : 0 < num) (hden : 0 < den) :
    floorLog2 num den = Int.log 2 (num / den : ℚ) := by
  have hnumLe : ((2 : ℚ) ^ num.log2) ≤ num := by exact_mod_cast Nat.log2_self_le hnum.ne'
  have hnumLt : (num : ℚ) < 2 ^ (num.log2 + 1) := by exact_mod_cast Nat.lt_log2_self
  have hdenLe : ((2 : ℚ) ^ den.log2) ≤ den := by exact_mod_cast Nat.log2_self_le hden.ne'
  have hdenLt : (den : ℚ) < 2 ^ (den.log2 + 1) := by exact_mod_cast Nat.lt_log2_self
  have hdenPos : (0 : ℚ) < den := by positivity
  -- The lengths of the two numbers leave two candidates, between which the shift test decides.
  let k : Int := num.log2 - den.log2
  have hbelow : (2 : ℚ) ^ (k - 1) ≤ num / den := by
    rw [le_div_iff₀ hdenPos]
    calc (2 : ℚ) ^ (k - 1) * den ≤ 2 ^ (k - 1) * 2 ^ (den.log2 + 1) := by gcongr
      _ = 2 ^ num.log2 := by
        rw [← zpow_natCast, ← zpow_add₀ two_ne_zero, ← zpow_natCast]
        congr 1
        push_cast
        omega
      _ ≤ num := hnumLe
  have habove : (num / den : ℚ) < 2 ^ (k + 1) := by
    rw [div_lt_iff₀ hdenPos]
    calc (num : ℚ) < 2 ^ (num.log2 + 1) := hnumLt
      _ = 2 ^ (k + 1) * 2 ^ den.log2 := by
        rw [← zpow_natCast, ← zpow_natCast, ← zpow_add₀ two_ne_zero]
        congr 1
        push_cast
        omega
      _ ≤ 2 ^ (k + 1) * den := by gcongr
  have htest : den <<< k.toNat ≤ num <<< (-k).toNat ↔ (2 : ℚ) ^ k ≤ num / den := by
    have hshift : (0 : ℚ) < (den <<< k.toNat : Nat) := by
      rw [Nat.shiftLeft_eq]
      positivity
    rw [← one_le_div₀ (by positivity : (0 : ℚ) < 2 ^ k), ← shifted_div, one_le_div₀ hshift,
      Nat.cast_le]
  rw [floorLog2]
  split_ifs with h
  · exact (log_eq (htest.1 h) habove).symm
  · refine (log_eq hbelow ?_).symm
    rw [sub_add_cancel]
    exact lt_of_not_ge fun hle => h (htest.2 hle)

/-- The exponent of the grid to which a number of the size of `x` is rounded. -/
def gridExponent (x : ℚ) : Int := max (-1074) (Int.log 2 x - 52)

/-- The magnitude of the number that stands for `x`. -/
def magnitudeOf (x : ℚ) : Nat := nearestMagnitude x.num.natAbs x.den

theorem magnitudeOf_zero : magnitudeOf 0 = 0 := rfl

/-- A positive number is rounded on its grid, unless that leads beyond all finite numbers. -/
theorem magnitudeOf_of_pos {x : ℚ} (h : 0 < x) :
    magnitudeOf x = min ((gridExponent x + 1074).toNat * exponentPlace +
      nearestWhole (x / 2 ^ gridExponent x)) infinityMagnitude := by
  have hnum : 0 < x.num.natAbs := Int.natAbs_pos.2 (Rat.num_pos.2 h).ne'
  have hvalue := natAbs_div_den h.le
  have hgrid : max (-1074) (floorLog2 x.num.natAbs x.den - 52) = gridExponent x := by
    rw [floorLog2_eq hnum (Rat.den_pos x), hvalue, gridExponent]
  have hden : 0 < x.den <<< (gridExponent x).toNat := by
    rw [Nat.shiftLeft_eq]
    exact Nat.mul_pos (Rat.den_pos x) (Nat.two_pow_pos _)
  rw [magnitudeOf, nearestMagnitude, if_neg hnum.ne']
  simp only [hgrid]
  rw [← nearestWhole_eq _ hden, shifted_div, hvalue]

/-- No number is rounded to a NaN. -/
theorem magnitudeOf_le (x : ℚ) : magnitudeOf x ≤ infinityMagnitude := by
  rw [magnitudeOf, nearestMagnitude]
  split_ifs
  · exact Nat.zero_le _
  · exact Nat.min_le_right _ _

/-- Larger numbers are rounded on grids that are no finer. -/
theorem gridExponent_mono {x y : ℚ} (hx : 0 < x) (h : x ≤ y) : gridExponent x ≤ gridExponent y := by
  have hlog : Int.log 2 x ≤ Int.log 2 y := Int.log_mono_right hx h
  rw [gridExponent, gridExponent]
  omega

theorem exponentPlace_eq : ((exponentPlace : Nat) : ℚ) = 2 ^ (52 : Int) := by
  norm_num [exponentPlace]

/-- On its grid a number is at most twice as large as the least significand of full length. -/
theorem scaled_le (x : ℚ) : x / 2 ^ gridExponent x ≤ (2 * exponentPlace : Nat) := by
  have hgrid : Int.log 2 x + 1 ≤ 53 + gridExponent x := by
    rw [gridExponent]
    omega
  have hlog : x < 2 ^ (Int.log 2 x + 1) := by
    exact_mod_cast Int.lt_zpow_succ_log_self Nat.one_lt_two x
  rw [div_le_iff₀ (by positivity), Nat.cast_mul, exponentPlace_eq]
  calc x ≤ 2 ^ (Int.log 2 x + 1) := hlog.le
    _ ≤ 2 ^ (53 + gridExponent x) := by gcongr; norm_num
    _ = (2 : Nat) * 2 ^ (52 : Int) * 2 ^ gridExponent x := by
      rw [zpow_add₀ two_ne_zero]
      norm_num

/-- Above the finest grid a number fills its significand. -/
theorem le_scaled {x : ℚ} (h : 0 < x) (hgrid : -1074 < gridExponent x) :
    (exponentPlace : Nat) ≤ x / 2 ^ gridExponent x := by
  have hlog : (2 : ℚ) ^ Int.log 2 x ≤ x := by
    exact_mod_cast Int.zpow_log_le_self Nat.one_lt_two h
  have hexponent : 52 + gridExponent x = Int.log 2 x := by
    rw [gridExponent] at hgrid ⊢
    omega
  rwa [le_div_iff₀ (by positivity), exponentPlace_eq, ← zpow_add₀ two_ne_zero, hexponent]

/-- Rounding never turns an order around. Between two numbers of one grid that is so since whole
numbers are in order; a number of a coarser grid lies beyond all those of a finer one. -/
theorem magnitudeOf_mono {x y : ℚ} (hx : 0 ≤ x) (h : x ≤ y) : magnitudeOf x ≤ magnitudeOf y := by
  rcases hx.eq_or_lt with rfl | hx
  · rw [magnitudeOf_zero]
    exact Nat.zero_le _
  have hy : 0 < y := hx.trans_le h
  rw [magnitudeOf_of_pos hx, magnitudeOf_of_pos hy]
  refine min_le_min_right _ ?_
  rcases (gridExponent_mono hx h).eq_or_lt with heq | hlt
  · rw [heq]
    refine Nat.add_le_add_left (nearestWhole_mono (by positivity) ?_) _
    gcongr
  · have hlow : -1074 ≤ gridExponent x := le_max_left _ _
    have hfine := nearestWhole_mono (by positivity) (scaled_le x)
    have hcoarse := nearestWhole_mono (by positivity) (le_scaled hy (hlow.trans_lt hlt))
    rw [nearestWhole_natCast] at hfine hcoarse
    have hplace : (gridExponent x + 1074).toNat * exponentPlace + exponentPlace ≤
        (gridExponent y + 1074).toNat * exponentPlace := by
      rw [← Nat.succ_mul]
      exact Nat.mul_le_mul_right _ (by omega)
    omega

/-- A significand that fills its grid, or any on the finest grid, is rounded on the grid it is
written on. -/
theorem gridExponent_eq {n : Nat} {e : Int} (hpos : 0 < n) (hlt : n < 2 * exponentPlace)
    (h : exponentPlace ≤ n ∧ -1074 ≤ e ∨ e = -1074) : gridExponent (n * 2 ^ e) = e := by
  have hlt' : (n : ℚ) * 2 ^ e < 2 ^ (e + 53) := by
    rw [zpow_add₀ two_ne_zero, mul_comm]
    gcongr
    rw [show (53 : Int) = 1 + 52 from rfl, zpow_add₀ two_ne_zero, ← exponentPlace_eq]
    exact_mod_cast hlt
  have hupper : Int.log 2 ((n : ℚ) * 2 ^ e) < e + 53 :=
    (Int.lt_zpow_iff_log_lt Nat.one_lt_two (by positivity)).1 (by exact_mod_cast hlt')
  rw [gridExponent]
  rcases h with ⟨hfull, hgrid⟩ | rfl
  · have hle : (2 : ℚ) ^ (e + 52) ≤ n * 2 ^ e := by
      rw [zpow_add₀ two_ne_zero, mul_comm, ← exponentPlace_eq]
      gcongr
    have hlower : e + 52 ≤ Int.log 2 ((n : ℚ) * 2 ^ e) :=
      (Int.zpow_le_iff_le_log Nat.one_lt_two (by positivity)).1 (by exact_mod_cast hle)
    omega
  · omega

theorem magnitudeOf_eq {n : Nat} {e : Int} (hpos : 0 < n) (hlt : n < 2 * exponentPlace)
    (h : exponentPlace ≤ n ∧ -1074 ≤ e ∨ e = -1074) :
    magnitudeOf (n * 2 ^ e) = min ((e + 1074).toNat * exponentPlace + n) infinityMagnitude := by
  rw [magnitudeOf_of_pos (by positivity), gridExponent_eq hpos hlt h,
    mul_div_cancel_right₀ _ (by positivity), nearestWhole_natCast]

/-- A finite number is its significand times a power of two. -/
theorem absValue_eq (x : Binary64) : x.absValue = x.significand * 2 ^ x.exponent := by
  have hshift := shifted_div x.significand 1 (-x.exponent)
  rw [neg_neg, Nat.cast_one, div_one, zpow_neg, div_inv_eq_mul] at hshift
  rw [absValue, Rat.mkRat_eq_div, ← hshift]
  rfl

theorem absValue_nonneg (x : Binary64) : 0 ≤ x.absValue := by
  rw [absValue_eq]
  positivity

/-- A finite number stands for its own value. -/
theorem magnitudeOf_absValue {x : Binary64} (h : x.magnitude < infinityMagnitude) :
    magnitudeOf x.absValue = x.magnitude := by
  rcases Nat.eq_zero_or_pos x.magnitude with hzero | hpos
  · have hsignificand : x.significand = 0 := by simp [significand, hzero, exponentPlace]
    rw [absValue_eq, hsignificand, hzero, Nat.cast_zero, zero_mul, magnitudeOf_zero]
  have hplace : 0 < exponentPlace := by decide
  have hsplit := Nat.div_add_mod x.magnitude exponentPlace
  have hmod := Nat.mod_lt x.magnitude hplace
  -- Below the first exponent's place the significand has no leading one that is left out.
  rcases Nat.lt_or_ge x.magnitude exponentPlace with hsmall | hlarge
  · have hsignificand : x.significand = x.magnitude := if_pos hsmall
    have hexponent : x.exponent = -1074 := by
      rw [exponent, Nat.div_eq_of_lt hsmall]
      rfl
    have hgrid : (-1074 + 1074 : Int).toNat = 0 := rfl
    rw [absValue_eq, hsignificand, hexponent, magnitudeOf_eq hpos (by omega) (.inr rfl), hgrid,
      Nat.zero_mul, Nat.zero_add, Nat.min_eq_left h.le]
  · have hsignificand : x.significand = exponentPlace + x.magnitude % exponentPlace :=
      if_neg (Nat.not_lt.2 hlarge)
    have hquot : 0 < x.magnitude / exponentPlace := Nat.div_pos hlarge hplace
    have hexponent : x.exponent = (x.magnitude / exponentPlace : Nat) - 1075 := by
      rw [exponent]
      omega
    rw [absValue_eq, hsignificand, hexponent,
      magnitudeOf_eq (by omega) (by omega) (.inl ⟨by omega, by omega⟩)]
    have hgrid : (((x.magnitude / exponentPlace : Nat) : Int) - 1075 + 1074).toNat =
        x.magnitude / exponentPlace - 1 := by omega
    have hfill : (x.magnitude / exponentPlace - 1) * exponentPlace + exponentPlace =
        exponentPlace * (x.magnitude / exponentPlace) := by
      rw [← Nat.succ_mul, Nat.mul_comm, Nat.succ_eq_add_one, Nat.sub_add_cancel hquot]
    rw [hgrid, ← Nat.add_assoc, hfill, hsplit, Nat.min_eq_left h.le]

/-- The sign does not enter the absolute value. -/
theorem absValue_congr {x y : Binary64} (h : x.magnitude = y.magnitude) :
    x.absValue = y.absValue := by
  simp only [absValue, significand, exponent, h]

/-- Finite numbers are ordered by size as their magnitudes are. -/
theorem absValue_le_iff {x y : Binary64} (hx : x.isFinite = true) (hy : y.isFinite = true) :
    x.absValue ≤ y.absValue ↔ x.magnitude ≤ y.magnitude := by
  have hxOwn := magnitudeOf_absValue (of_decide_eq_true hx)
  have hyOwn := magnitudeOf_absValue (of_decide_eq_true hy)
  constructor
  · intro h
    have hmono := magnitudeOf_mono (absValue_nonneg x) h
    rwa [hxOwn, hyOwn] at hmono
  · intro h
    rcases le_total x.absValue y.absValue with hle | hge
    · exact hle
    · have hmono := magnitudeOf_mono (absValue_nonneg y) hge
      rw [hxOwn, hyOwn] at hmono
      exact (absValue_congr (Nat.le_antisymm h hmono)).le

end Binary64

end LightShow
