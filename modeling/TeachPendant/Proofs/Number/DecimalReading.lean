import TeachPendant.Number.Reading
import TeachPendant.Number.Text
import TeachPendant.Proofs.Number.ShortestDecimal

namespace TeachPendant.Number

/-- What is read where a decimal is written in JSON: it has a digit behind the point if it is
written out and has no fraction. -/
def Decimal.toDouble (d : Decimal) : Double :=
  if 0 ≤ d.exponent then
    if plainExponents (d.exponent + digitCount d.digits - 1) then
      (Binary.ofNat (d.digits * 10 ^ (d.exponent.toNat + 1))).div (powerOfTen 1)
    else (Binary.ofNat d.digits).mul (powerOfTen d.exponent.toNat)
  else (Binary.ofNat d.digits).div (powerOfTen (-d.exponent).toNat)

/-- Two roundings to 53 bits are off by less than one part in so many. -/
def slack : ℕ := 4 * 10 ^ 15

namespace Binary

variable {f : Format} {x y : Binary f}

theorem isNaN_of_isFinite (h : x.isFinite = true) : x.isNaN = false := by
  simp only [isFinite, isNaN, decide_eq_true_eq, decide_eq_false_iff_not] at h ⊢
  omega

theorem isInfinite_of_isFinite (h : x.isFinite = true) : x.isInfinite = false := by
  simp only [isFinite, isInfinite, decide_eq_true_eq, beq_eq_false_iff_ne] at h ⊢
  omega

theorem significand_pos_of_magnitude_pos (h : 0 < x.magnitude) : 0 < x.significand := by
  have : (0 : ℚ) < x.significand := pos_of_mul_pos_left h (by positivity)
  exact_mod_cast this

theorem numerator_pos (h : 0 < x.magnitude) : 0 < x.numerator :=
  Nat.mul_pos (significand_pos_of_magnitude_pos h) (Nat.two_pow_pos _)

theorem isZero_of_magnitude_pos (h : 0 < x.magnitude) : x.isZero = false := by
  by_contra hz
  have hcode : (x.code : ℕ) = 0 := by simpa [isZero] using hz
  have hpos := significand_pos_of_magnitude_pos h
  unfold significand at hpos
  rw [hcode, if_pos f.binade_pos] at hpos
  exact lt_irrefl 0 hpos

theorem mul_eq_round (hx : x.isFinite = true) (hy : y.isFinite = true) :
    x.mul y = round (x.negative != y.negative) (x.numerator * y.numerator)
      (x.denominator * y.denominator) := by
  simp only [mul, isNaN_of_isFinite hx, isNaN_of_isFinite hy, isInfinite_of_isFinite hx,
    isInfinite_of_isFinite hy, Bool.or_self, Bool.false_eq_true, if_false]

theorem div_eq_round (hx : x.isFinite = true) (hy : y.isFinite = true) (hz : y.isZero = false) :
    x.div y = round (x.negative != y.negative) (x.numerator * y.denominator)
      (x.denominator * y.numerator) := by
  simp only [div, isNaN_of_isFinite hx, isNaN_of_isFinite hy, isInfinite_of_isFinite hx,
    isInfinite_of_isFinite hy, hz, Bool.or_self, Bool.false_eq_true, if_false]

end Binary

open Binary

/-- A finite positive number of 64 bits that is nearest to `v`. -/
structure Nearest (y : Double) (v : ℚ) : Prop where
  finite : y.isFinite = true
  positive : y.negative = false
  near : |y.magnitude - v| ≤ v / 2 ^ 53
  exact : ∀ (n : ℕ) (t : ℤ), n < 2 ^ 53 → v = n * 2 ^ t → y.magnitude = v

namespace Nearest

variable {x y : Double} {v : ℚ}

theorem bounds (h : Nearest y v) :
    v * (1 - 1 / 2 ^ 53) ≤ y.magnitude ∧ y.magnitude ≤ v * (1 + 1 / 2 ^ 53) := by
  obtain ⟨hlow, hhigh⟩ := abs_le.mp h.near
  constructor <;> linarith

theorem inRange_double (hlow : 2 ^ (-240 : ℤ) ≤ v) (hhigh : v < 2 ^ (240 : ℤ)) :
    InRange double v := by
  have hleast : double.leastExponent + double.precision - 1 = -1022 := by decide
  have hmost : double.leastExponent + 2 ^ double.exponentBits + double.precision - 4 = 1023 := by
    decide
  have hone : (1 : ℚ) ≤ 2 := one_le_two
  unfold InRange
  rw [hleast, hmost]
  exact ⟨(zpow_le_zpow_right₀ hone (by decide)).trans hlow,
    hhigh.trans_le (zpow_le_zpow_right₀ hone (by decide))⟩

theorem round {num den : ℕ} (hd : 0 < den) (hv : (num : ℚ) / den = v)
    (hlow : 2 ^ (-240 : ℤ) ≤ v) (hhigh : v < 2 ^ (240 : ℤ)) :
    Nearest (Binary.round false num den) v := by
  have hn : 0 < num := by
    have hv' : (0 : ℚ) < num / den := hv ▸ lt_of_lt_of_le (by positivity) hlow
    have hd' : (0 : ℚ) < den := by exact_mod_cast hd
    have : (0 : ℚ) < num := (div_pos_iff_of_pos_right hd').mp hv'
    exact_mod_cast this
  have hrange := inRange_double hlow hhigh
  exact ⟨(magnitude_round (by decide) hn hd hv hrange false).1, rfl,
    abs_magnitude_round_sub_le (by decide) hn hd hv hrange false,
    fun n t hfew hheld => magnitude_round_eq (by decide) hn hd hv hrange hfew hheld false⟩

theorem mul {a b : ℚ} (hx : x.isFinite = true) (hy : y.isFinite = true)
    (hsx : x.negative = false) (hsy : y.negative = false) (hxa : x.magnitude = a)
    (hyb : y.magnitude = b) (hlow : 2 ^ (-240 : ℤ) ≤ a * b) (hhigh : a * b < 2 ^ (240 : ℤ)) :
    Nearest (x.mul y) (a * b) := by
  rw [mul_eq_round hx hy, hsx, hsy]
  refine round (Nat.mul_pos x.denominator_pos y.denominator_pos) ?_ hlow hhigh
  rw [← hxa, ← hyb, magnitude_eq_div, magnitude_eq_div]
  push_cast
  rw [div_mul_div_comm]

theorem div {a b : ℚ} (hx : x.isFinite = true) (hy : y.isFinite = true)
    (hsx : x.negative = false) (hsy : y.negative = false) (hxa : x.magnitude = a)
    (hyb : y.magnitude = b) (hb : 0 < b) (hlow : 2 ^ (-240 : ℤ) ≤ a / b)
    (hhigh : a / b < 2 ^ (240 : ℤ)) : Nearest (x.div y) (a / b) := by
  have hpos : 0 < y.magnitude := hyb ▸ hb
  rw [div_eq_round hx hy (isZero_of_magnitude_pos hpos), hsx, hsy]
  refine round (Nat.mul_pos x.denominator_pos (numerator_pos hpos)) ?_ hlow hhigh
  rw [← hxa, ← hyb, magnitude_eq_div, magnitude_eq_div]
  push_cast
  rw [div_div_div_eq]

end Nearest

/-- Whole numbers of 53 bits are read as they are. -/
theorem nearest_ofNat {n : ℕ} (hpos : 0 < n) (h : n < 2 ^ 53) :
    Nearest (ofNat n) n ∧ (ofNat n : Double).magnitude = n := by
  have hone : (1 : ℚ) ≤ n := by exact_mod_cast hpos
  have hlt : (n : ℚ) < 2 ^ 53 := by exact_mod_cast h
  have hn : Nearest (ofNat n) n :=
    .round one_pos (by simp) (le_trans (by norm_num) hone) (hlt.trans (by norm_num))
  exact ⟨hn, hn.exact n 0 h (by simp)⟩

theorem nearest_powerOfTen {n : ℕ} (h : n ≤ 54) : Nearest (powerOfTen n) (10 ^ n) := by
  have hone : (1 : ℚ) ≤ 10 ^ n := one_le_pow₀ (by norm_num)
  have hle : (10 : ℚ) ^ n ≤ 10 ^ 54 := pow_le_pow_right₀ (by norm_num) h
  refine .round one_pos ?_ (le_trans (by norm_num) hone) (hle.trans_lt (by norm_num))
  push_cast
  simp

/-- The powers of ten up to the twenty-second can be held. -/
theorem magnitude_powerOfTen {n : ℕ} (h : n ≤ 22) : (powerOfTen n).magnitude = 10 ^ n := by
  refine (nearest_powerOfTen (by omega)).exact (5 ^ n) n ?_ ?_
  · calc 5 ^ n ≤ 5 ^ 22 := Nat.pow_le_pow_right (by decide) h
      _ < 2 ^ 53 := by decide
  · rw [zpow_natCast]
    push_cast
    rw [← mul_pow]
    norm_num

namespace Decimal

variable {d : Decimal}

/-- How `y` comes from a decimal: as it is, or by one operation with a power of ten. -/
inductive ReadAs (d : Decimal) (y : Double) : Prop
  | plain (near : Nearest y d.value) (same : y.magnitude = d.value)
  | multiplied (n : ℕ) (few : n ≤ 54) (exponent : (n : ℤ) = d.exponent)
      (near : Nearest y (d.digits * (powerOfTen n).magnitude))
  | divided (n : ℕ) (few : n ≤ 54) (exponent : (n : ℤ) = -d.exponent)
      (near : Nearest y (d.digits / (powerOfTen n).magnitude))

namespace Moderate

theorem digits_bounds (h : d.Moderate) : (1 : ℚ) ≤ d.digits ∧ (d.digits : ℚ) ≤ 10 ^ 11 := by
  refine ⟨by exact_mod_cast h.digits_pos, ?_⟩
  have : d.digits ≤ 10 ^ 11 := h.digits_le.trans (by norm_num)
  exact_mod_cast this

theorem nearest_digits (h : d.Moderate) :
    Nearest (ofNat d.digits) d.digits ∧ (ofNat d.digits : Double).magnitude = d.digits :=
  nearest_ofNat h.digits_pos (h.digits_le.trans_lt (by norm_num))

/-- A decimal written out without a fraction is read as it is. -/
theorem toDouble_of_plain (h : d.Moderate) (hexponent : 0 ≤ d.exponent)
    (hplain : plainExponents (d.exponent + digitCount d.digits - 1) = true) :
    Nearest d.toDouble d.value ∧ d.toDouble.magnitude = d.value := by
  obtain ⟨k, hk⟩ := Int.eq_ofNat_of_zero_le hexponent
  have hvalue : d.value = (d.digits * 10 ^ k : ℕ) := by
    rw [value, hk, zpow_natCast]
    push_cast
    rfl
  have hfew : d.digits * 10 ^ k < 10 ^ 13 := by
    obtain ⟨-, hdigits⟩ := digitCount_bounds h.digits_pos
    simp only [plainExponents, Bool.and_eq_true, decide_eq_true_eq] at hplain
    calc d.digits * 10 ^ k < 10 ^ digitCount d.digits * 10 ^ k :=
          Nat.mul_lt_mul_of_pos_right hdigits (Nat.pow_pos (by decide))
      _ = 10 ^ (digitCount d.digits + k) := (Nat.pow_add _ _ _).symm
      _ ≤ 10 ^ 13 := Nat.pow_le_pow_right (by decide) (by omega)
  have hpos : 0 < d.digits * 10 ^ k := Nat.mul_pos h.digits_pos (Nat.pow_pos (by decide))
  have hone : (1 : ℚ) ≤ (d.digits * 10 ^ k : ℕ) := by exact_mod_cast hpos
  have hlt : ((d.digits * 10 ^ k : ℕ) : ℚ) < 10 ^ 13 := by exact_mod_cast hfew
  have hten : d.digits * 10 ^ (k + 1) = d.digits * 10 ^ k * 10 := by ring
  obtain ⟨hn, hm⟩ := nearest_ofNat (n := d.digits * 10 ^ (k + 1)) (by omega)
    (by rw [hten]; exact (Nat.mul_lt_mul_of_pos_right hfew (by decide)).trans (by norm_num))
  have hp := nearest_powerOfTen (n := 1) (by decide)
  have hquotient : ((d.digits * 10 ^ (k + 1) : ℕ) : ℚ) / 10 ^ 1 = d.value := by
    rw [hvalue, hten]
    push_cast
    ring
  have hy := Nearest.div hn.finite hp.finite hn.positive hp.positive hm
    (magnitude_powerOfTen (by decide)) (by norm_num)
    (by rw [hquotient, hvalue]; exact le_trans (by norm_num) hone)
    (by rw [hquotient, hvalue]; exact hlt.trans (by norm_num))
  rw [hquotient] at hy
  have hsame : d.toDouble = (ofNat (d.digits * 10 ^ (k + 1))).div (powerOfTen 1) := by
    unfold toDouble
    rw [if_pos hexponent, if_pos hplain, hk, Int.toNat_natCast]
  rw [hsame]
  exact ⟨hy, hy.exact _ 0 (hfew.trans (by norm_num)) (by rw [hvalue]; simp)⟩

theorem readAs_toDouble (h : d.Moderate) : d.ReadAs d.toDouble := by
  obtain ⟨hn, hm⟩ := h.nearest_digits
  obtain ⟨hone, hmost⟩ := h.digits_bounds
  have hlow := h.exponent_low
  have hhigh := h.exponent_high
  have hpower {n : ℕ} (hn : n ≤ 54) :
      (1 : ℚ) / 2 ≤ (powerOfTen n).magnitude ∧ (powerOfTen n).magnitude ≤ 2 * 10 ^ 54 := by
    obtain ⟨hl, hh⟩ := (nearest_powerOfTen hn).bounds
    have hone : (1 : ℚ) ≤ 10 ^ n := one_le_pow₀ (by norm_num)
    have hle : (10 : ℚ) ^ n ≤ 10 ^ 54 := pow_le_pow_right₀ (by norm_num) hn
    constructor
    · refine le_trans ?_ hl
      linarith
    · refine hh.trans ?_
      linarith
  rcases le_or_gt 0 d.exponent with hsign | hsign
  · by_cases hplain : plainExponents (d.exponent + digitCount d.digits - 1) = true
    · obtain ⟨hnear, hsame⟩ := h.toDouble_of_plain hsign hplain
      exact .plain hnear hsame
    · refine .multiplied d.exponent.toNat (by omega) (by omega) ?_
      have hp := nearest_powerOfTen (n := d.exponent.toNat) (by omega)
      obtain ⟨hpl, hph⟩ := hpower (n := d.exponent.toNat) (by omega)
      unfold toDouble
      rw [if_pos hsign, if_neg hplain]
      refine .mul hn.finite hp.finite hn.positive hp.positive hm rfl ?_ ?_
      · calc (2 : ℚ) ^ (-240 : ℤ) ≤ 1 * (1 / 2) := by norm_num
          _ ≤ d.digits * (powerOfTen d.exponent.toNat).magnitude := by gcongr
      · calc (d.digits : ℚ) * (powerOfTen d.exponent.toNat).magnitude
            ≤ 10 ^ 11 * (2 * 10 ^ 54) := by gcongr
          _ < 2 ^ (240 : ℤ) := by norm_num
  · refine .divided (-d.exponent).toNat (by omega) (by omega) ?_
    have hp := nearest_powerOfTen (n := (-d.exponent).toNat) (by omega)
    obtain ⟨hpl, hph⟩ := hpower (n := (-d.exponent).toNat) (by omega)
    have hpos : 0 < (powerOfTen (-d.exponent).toNat).magnitude := by linarith
    unfold toDouble
    rw [if_neg (by omega)]
    refine .div hn.finite hp.finite hn.positive hp.positive hm rfl hpos ?_ ?_
    · rw [le_div_iff₀ hpos]
      calc (2 : ℚ) ^ (-240 : ℤ) * (powerOfTen (-d.exponent).toNat).magnitude
          ≤ 2 ^ (-240 : ℤ) * (2 * 10 ^ 54) := by gcongr
        _ ≤ 1 := by norm_num
        _ ≤ d.digits := hone
    · rw [div_lt_iff₀ hpos]
      calc (d.digits : ℚ) ≤ 10 ^ 11 := hmost
        _ < 2 ^ (240 : ℤ) * (1 / 2) := by norm_num
        _ ≤ 2 ^ (240 : ℤ) * (powerOfTen (-d.exponent).toNat).magnitude := by gcongr

theorem toDouble_finite (h : d.Moderate) :
    d.toDouble.isFinite = true ∧ d.toDouble.negative = false := by
  cases h.readAs_toDouble with
  | plain hy | multiplied _ _ _ hy | divided _ _ _ hy => exact ⟨hy.finite, hy.positive⟩

theorem value_eq_mul {n : ℕ} (hn : (n : ℤ) = d.exponent) : d.value = d.digits * 10 ^ n := by
  rw [value, ← hn, zpow_natCast]

theorem value_eq_div {n : ℕ} (hn : (n : ℤ) = -d.exponent) : d.value = d.digits / 10 ^ n := by
  rw [value, ← neg_neg d.exponent, ← hn, zpow_neg, zpow_natCast]
  rfl

/-- What is read is off by less than one part in `slack`. -/
theorem toDouble_near (h : d.Moderate) : slack * |d.toDouble.magnitude - d.value| < d.value := by
  have hpos := h.value_pos
  obtain ⟨hone, -⟩ := h.digits_bounds
  have hd : (0 : ℚ) < d.digits := by linarith
  have hslack : (slack : ℚ) = 4 * 10 ^ 15 := by norm_num [slack]
  suffices hy : d.value * (1 - 2 / 2 ^ 53) ≤ d.toDouble.magnitude ∧
      d.toDouble.magnitude ≤ d.value * ((1 + 1 / 2 ^ 53) / (1 - 1 / 2 ^ 53)) by
    rw [hslack, ← lt_div_iff₀' (by norm_num), abs_lt]
    constructor <;> linarith
  cases h.readAs_toDouble with
  | plain _ hy =>
    rw [hy]
    constructor <;> linarith
  | multiplied n hn hk hy =>
    obtain ⟨hlow, hhigh⟩ := (nearest_powerOfTen hn).bounds
    obtain ⟨hylow, hyhigh⟩ := hy.bounds
    have hvalue := value_eq_mul hk
    have hplow : d.value * (1 - 1 / 2 ^ 53) ≤ d.digits * (powerOfTen n).magnitude := by
      rw [hvalue, mul_assoc]
      gcongr
    have hphigh : d.digits * (powerOfTen n).magnitude ≤ d.value * (1 + 1 / 2 ^ 53) := by
      rw [hvalue, mul_assoc]
      gcongr
    constructor <;> linarith
  | divided n hn hk hy =>
    obtain ⟨hlow, hhigh⟩ := (nearest_powerOfTen hn).bounds
    obtain ⟨hylow, hyhigh⟩ := hy.bounds
    have hvalue := value_eq_div hk
    have hten : (0 : ℚ) < 10 ^ n := by positivity
    have hpower : 0 < (powerOfTen n).magnitude := by linarith
    have hplow : d.value ≤ d.digits / (powerOfTen n).magnitude * (1 + 1 / 2 ^ 53) := by
      rw [hvalue, div_mul_eq_mul_div, div_le_div_iff₀ hten hpower, mul_assoc, mul_comm (_ + _)]
      gcongr
    have hphigh : d.digits / (powerOfTen n).magnitude * (1 - 1 / 2 ^ 53) ≤ d.value := by
      rw [hvalue, div_mul_eq_mul_div, div_le_div_iff₀ hpower hten, mul_assoc, mul_comm (_ - _)]
      gcongr
    constructor <;> linarith

/-- What can be held is read as it is, as long as the power of ten can be held too. -/
theorem toDouble_exact (h : d.Moderate) (hlow : -22 ≤ d.exponent) (hhigh : d.exponent ≤ 22) {n : ℕ}
    {t : ℤ} (hfew : n < 2 ^ 53) (hheld : d.value = n * 2 ^ t) : d.toDouble.magnitude = d.value := by
  cases h.readAs_toDouble with
  | plain _ hy => exact hy
  | multiplied m _ hk hy =>
    rw [magnitude_powerOfTen (by omega), ← value_eq_mul hk] at hy
    exact hy.exact n t hfew hheld
  | divided m _ hk hy =>
    rw [magnitude_powerOfTen (by omega), ← value_eq_div hk] at hy
    exact hy.exact n t hfew hheld

end Moderate

end Decimal

end TeachPendant.Number
