import TeachPendant.Proofs.Number.Midpoints

namespace TeachPendant.Number

open Midpoint

namespace Single

variable {x : Single}

theorem code_eq (x : Single) :
    (x.code : ℕ) = (x.exponent + 149).toNat * 2 ^ 23 + x.significand :=
  Binary.code_eq x

theorem significand_lt (x : Single) : x.significand < 2 ^ 24 := Binary.significand_lt x

theorem leastExponent_le (x : Single) : -149 ≤ x.exponent := Binary.leastExponent_le x

/-- The midpoint above, and the code below it. -/
theorem upper_midpoint (hx : x.isFinite = true) : ∃ p m, Valid p m ∧
    (x.upperQuarters : ℚ) * 2 ^ (x.exponent - 2) = m * 2 ^ p ∧
      (p + 150).toNat * 2 ^ 23 + m / 2 = x.code := by
  have hlow := x.leastExponent_le
  have hhigh := exponent_le hx
  have hsig := x.significand_lt
  refine ⟨x.exponent - 1, 2 * x.significand + 1, ⟨by omega, by omega, ?_, by omega, by omega⟩, ?_, ?_⟩
  · unfold least
    split_ifs with h
    · omega
    · have := Binary.binade_le_significand (x := x) (show -149 < x.exponent by omega)
      have hbinade : single.binade = 2 ^ 23 := by decide
      omega
  · rw [Binary.cast_upperQuarters, show x.exponent - 1 = x.exponent - 2 + 1 by ring,
      zpow_add₀ two_ne_zero (x.exponent - 2)]
    push_cast
    ring
  · rw [code_eq, show x.exponent - 1 + 150 = x.exponent + 149 by ring]
    omega

/-- The midpoint below, and the code below it. -/
theorem lower_midpoint (hx : x.isFinite = true) (hz : x.isZero = false) : ∃ p m, Valid p m ∧
    (x.lowerQuarters : ℚ) * 2 ^ (x.exponent - 2) = m * 2 ^ p ∧
      (p + 150).toNat * 2 ^ 23 + m / 2 + 1 = x.code := by
  have hlow := x.leastExponent_le
  have hhigh := exponent_le hx
  have hsig := x.significand_lt
  have hpos := Binary.significand_pos hz
  have hbinade : single.binade = 2 ^ 23 := by decide
  have hnormal (h : -149 < x.exponent) : 2 ^ 23 ≤ x.significand :=
    hbinade ▸ Binary.binade_le_significand (x := x) h
  have hcode := code_eq x
  by_cases hstep : x.significand = 2 ^ 23 ∧ -149 < x.exponent
  · obtain ⟨hs, he⟩ := hstep
    refine ⟨x.exponent - 2, 2 ^ 25 - 1, ⟨by omega, by omega, ?_, by omega, by omega⟩, ?_, ?_⟩
    · unfold least
      split_ifs <;> decide
    · rw [Binary.lowerQuarters_of_step (hs.trans hbinade.symm) he, hbinade]
      norm_num
    · omega
  · have hquarters : x.lowerQuarters = 4 * x.significand - 2 := by
      unfold Binary.lowerQuarters Binary.quarters
      rw [if_neg]
      rintro ⟨hs, hbelow⟩
      rw [hbinade] at hs hbelow
      exact hstep ⟨hs, by omega⟩
    refine ⟨x.exponent - 1, 2 * x.significand - 1, ⟨by omega, by omega, ?_, by omega, by omega⟩,
      ?_, ?_⟩
    · unfold least
      split_ifs with h
      · omega
      · have := hnormal (by omega)
        have : x.significand ≠ 2 ^ 23 := fun hs => hstep ⟨hs, by omega⟩
        omega
    · rw [hquarters, show x.exponent - 1 = x.exponent - 2 + 1 by ring,
        zpow_add₀ two_ne_zero (x.exponent - 2), Nat.cast_sub (by omega), Nat.cast_sub (by omega)]
      push_cast
      ring
    · omega

/-- Both midpoints are at least one part in `2 ^ 25` away. -/
theorem gap (x : Single) (hz : x.isZero = false) :
    x.lowerQuarters * 2 ^ (x.exponent - 2) ≤ x.magnitude - x.magnitude / 2 ^ 25 ∧
      x.magnitude + x.magnitude / 2 ^ 25 ≤ x.upperQuarters * 2 ^ (x.exponent - 2) := by
  have hunit : (0 : ℚ) < 2 ^ (x.exponent - 2) := by positivity
  have hmagnitude : x.magnitude = 4 * x.significand * 2 ^ (x.exponent - 2) := by
    rw [Binary.quarter_mul, Binary.magnitude]
    ring
  have hsig : (x.significand : ℚ) < 2 ^ 24 := by exact_mod_cast x.significand_lt
  have hlower : (x.lowerQuarters : ℚ) ≤ 4 * x.significand - x.significand / 2 ^ 23 := by
    have hpos := Binary.significand_pos hz
    unfold Binary.lowerQuarters Binary.quarters
    split_ifs with hstep
    · have hs : x.significand = 2 ^ 23 := hstep.1
      rw [hs]
      norm_num
    · rw [Nat.cast_sub (by omega)]
      push_cast
      linarith
  rw [hmagnitude, Binary.cast_upperQuarters]
  constructor <;> nlinarith

end Single

/-- Powers of ten, and of five, beyond these do not go into a decimal of eight digits that is a
midpoint. -/
theorem exponent_of_eq {d : Decimal} {p : ℤ} {m : ℕ} (hpos : 0 < d.digits)
    (hd : d.digits < 10 ^ 8) (hm : Valid p m) (h : d.value = m * 2 ^ p) :
    -22 ≤ d.exponent ∧ d.exponent ≤ 22 := by
  have hm0 : 0 < m := lt_of_lt_of_le (least_pos p) hm.low
  -- The equation without fractions.
  have hnat : d.digits * (10 ^ d.exponent.toNat * 2 ^ (-p).toNat) =
      m * (2 ^ p.toNat * 10 ^ (-d.exponent).toNat) := by
    unfold Decimal.value at h
    rw [zpow_eq_div (by norm_num), zpow_eq_div two_ne_zero, mul_div_assoc', mul_div_assoc',
      div_eq_div_iff (by positivity) (by positivity)] at h
    have : (d.digits : ℚ) * (10 ^ d.exponent.toNat * 2 ^ (-p).toNat) =
        m * (2 ^ p.toNat * 10 ^ (-d.exponent).toNat) := by linarith
    exact_mod_cast this
  have hcoprime (n t : ℕ) : Nat.Coprime (5 ^ n) (2 ^ t) := Nat.Coprime.pow _ _ (by decide)
  have hlarge {n : ℕ} (hn : 22 < n) : 5 ^ 13 ≤ 5 ^ n := Nat.pow_le_pow_right (by decide) (by omega)
  constructor
  · by_contra hlow
    have hk : d.exponent.toNat = 0 := by omega
    have hdvd : 5 ^ (-d.exponent).toNat ∣ d.digits := by
      refine (hcoprime _ (-p).toNat).dvd_of_dvd_mul_right ?_
      refine ⟨m * 2 ^ p.toNat * 2 ^ (-d.exponent).toNat, ?_⟩
      rw [hk, pow_zero, one_mul] at hnat
      rw [hnat, show (10 : ℕ) = 5 * 2 by rfl, Nat.mul_pow]
      ring
    have := Nat.le_of_dvd hpos hdvd
    have := hlarge (n := (-d.exponent).toNat) (by omega)
    omega
  · by_contra hhigh
    have hk : (-d.exponent).toNat = 0 := by omega
    have hdvd : 5 ^ d.exponent.toNat ∣ m := by
      refine (hcoprime _ p.toNat).dvd_of_dvd_mul_right ?_
      refine ⟨d.digits * 2 ^ d.exponent.toNat * 2 ^ (-p).toNat, ?_⟩
      rw [hk, pow_zero, mul_one] at hnat
      rw [← hnat, show (10 : ℕ) = 5 * 2 by rfl, Nat.mul_pow]
      ring
    have := Nat.le_of_dvd hm0 hdvd
    have := hlarge (n := d.exponent.toNat) (by omega)
    have := hm.high
    omega

/-- Eight digits in all, with zeros at the end. -/
theorem exists_eight_digits {d : ℕ} (hpos : 0 < d) (hd : d < 10 ^ 8) :
    ∃ j ≤ 7, 10 ^ 7 ≤ d * 10 ^ j ∧ d * 10 ^ j < 10 ^ 8 := by
  obtain ⟨hlow, hhigh⟩ := digitCount_bounds hpos
  have hcount : 0 < digitCount d := Nat.length_toDigits_pos
  have hcount' : digitCount d ≤ 8 :=
    (Nat.length_toDigits_le_iff (by decide) (by decide)).mpr hd
  refine ⟨8 - digitCount d, by omega, ?_, ?_⟩
  · calc 10 ^ 7 = 10 ^ (digitCount d - 1) * 10 ^ (8 - digitCount d) := by
          rw [← Nat.pow_add]
          congr 1
          omega
      _ ≤ d * 10 ^ (8 - digitCount d) := Nat.mul_le_mul_right _ hlow
  · calc d * 10 ^ (8 - digitCount d) < 10 ^ digitCount d * 10 ^ (8 - digitCount d) :=
          Nat.mul_lt_mul_of_pos_right hhigh (Nat.pow_pos (by decide))
      _ = 10 ^ 8 := by
          rw [← Nat.pow_add]
          congr 1
          omega

/-- What is read lies on the same side of the midpoint as the decimal, or does no harm. -/
theorem side_of_midpoint {d : Decimal} (h : d.Moderate) (hd : d.digits < 10 ^ 8) {p : ℤ} {m : ℕ}
    (hm : Valid p m) : harmless p m = true ∨
      (d.value = m * 2 ^ p ∧ d.toDouble.magnitude = d.value) ∨
      (d.value < m * 2 ^ p ∧ d.toDouble.magnitude < m * 2 ^ p) ∨
      (m * 2 ^ p < d.value ∧ m * 2 ^ p < d.toDouble.magnitude) := by
  have hnear := h.toDouble_near
  by_cases hclose : slack * |d.value - m * 2 ^ p| ≤ d.value
  · obtain ⟨j, hj, hlow, hhigh⟩ := exists_eight_digits h.digits_pos hd
    have hsame : ((d.digits * 10 ^ j : ℕ) : ℚ) * 10 ^ (d.exponent - j) = d.value := by
      rw [Decimal.value, zpow_sub₀ (by norm_num), zpow_natCast]
      push_cast
      field_simp
    have hexponent := h.exponent_low
    have hexponent' := h.exponent_high
    rcases eq_or_harmless_of_near (k := d.exponent - j) (by omega) (by omega) hlow hhigh hm
      (by rwa [hsame]) with heq | hharmless
    · rw [hsame] at heq
      obtain ⟨hk, hk'⟩ := exponent_of_eq h.digits_pos hd hm heq
      have hfew : m < 2 ^ 53 := hm.high.trans (by norm_num)
      exact Or.inr (Or.inl ⟨heq, h.toDouble_exact hk hk' hfew heq⟩)
    · exact Or.inl hharmless
  · have hslack : (0 : ℚ) < slack := by norm_num [slack]
    have hcloser : |d.toDouble.magnitude - d.value| < |d.value - m * 2 ^ p| :=
      lt_of_mul_lt_mul_left (hnear.trans (not_le.mp hclose)) hslack.le
    obtain ⟨hbelow, habove⟩ := abs_lt.mp hcloser
    refine Or.inr (Or.inr ?_)
    rcases le_total (d.value - m * 2 ^ p) 0 with hside | hside
    · rw [abs_of_nonpos hside] at hbelow habove
      exact Or.inl ⟨by linarith, by linarith⟩
    · rw [abs_of_nonneg hside] at hbelow habove
      exact Or.inr ⟨by linarith, by linarith⟩

section Shortest

variable {x : Single} {d : Decimal}

/-- A decimal of more than eight digits is far from the midpoints. -/
theorem within_of_long (hz : x.isZero = false) (h : Neighbour x d) (hd : 10 ^ 8 ≤ d.digits) :
    x.Within d.toDouble.magnitude := by
  obtain ⟨hlow, hhigh⟩ := x.gap hz
  have hnear := h.moderate.toDouble_near
  have hslack : (slack : ℚ) = 4 * 10 ^ 15 := by norm_num [slack]
  rw [hslack, ← lt_div_iff₀' (by norm_num)] at hnear
  obtain ⟨hrlow, hrhigh⟩ := abs_lt.mp hnear
  have hstep : 10 ^ 8 * (10 : ℚ) ^ d.exponent ≤ d.value := by
    have : (10 ^ 8 : ℚ) ≤ d.digits := by exact_mod_cast hd
    unfold Decimal.value
    gcongr
  obtain ⟨hdlow, hdhigh⟩ := abs_le.mp h.near
  have hpos := h.moderate.value_pos
  have hstrict : x.lowerQuarters * 2 ^ (x.exponent - 2) < d.toDouble.magnitude ∧
      d.toDouble.magnitude < x.upperQuarters * 2 ^ (x.exponent - 2) := by
    constructor <;> linarith
  exact ⟨hstrict.1.le, hstrict.2.le, Or.inr hstrict⟩

/-- A shorter one is a midpoint, and read exactly, or lies farther from the midpoints than its reading
can move it, apart from the few that were looked at. -/
theorem within_of_short (hx : x.isFinite = true) (hz : x.isZero = false) (h : Neighbour x d)
    (hd : d.digits < 10 ^ 8) : x.Within d.toDouble.magnitude ∨ rereads x.code = true := by
  obtain ⟨p, m, hm, hlower, hcode⟩ := x.lower_midpoint hx hz
  obtain ⟨p', m', hm', hupper, hcode'⟩ := x.upper_midpoint hx
  obtain ⟨hlow, hhigh, htie⟩ := h.within
  rw [hlower] at hlow htie
  rw [hupper] at hhigh htie
  rcases side_of_midpoint h.moderate hd hm with hharmless | hside
  · right
    have := (Bool.and_eq_true_iff.mp hharmless).2
    rwa [hcode] at this
  rcases side_of_midpoint h.moderate hd hm' with hharmless | hside'
  · right
    have := (Bool.and_eq_true_iff.mp hharmless).1
    rwa [hcode'] at this
  left
  constructor
  · rw [hlower]
    rcases hside with ⟨heq, hy⟩ | ⟨hlt, -⟩ | ⟨-, hgt⟩ <;> linarith
  · rw [hupper]
    rcases hside' with ⟨heq, hy⟩ | ⟨-, hlt⟩ | ⟨hgt, -⟩ <;> linarith
  · rw [hlower, hupper]
    refine htie.imp_right fun ⟨hdlow, hdhigh⟩ => ⟨?_, ?_⟩
    · rcases hside with ⟨heq, -⟩ | ⟨hlt, -⟩ | ⟨-, hgt⟩ <;> linarith
    · rcases hside' with ⟨heq, -⟩ | ⟨-, hlt⟩ | ⟨hgt, -⟩ <;> linarith

end Shortest

namespace Binary

variable {f : Format}

/-- The decimal does not depend on the sign. -/
theorem search_congr {x y : Binary f} (h : x.code = y.code) (tie : Tie) (tries : ℕ) (j : ℤ) :
    x.search tie tries j = y.search tie tries j := by
  obtain ⟨_, code⟩ := x
  obtain ⟨_, code'⟩ := y
  obtain rfl : code = code' := h
  induction tries generalizing j with
  | zero => rfl
  | succ tries ih =>
    unfold search
    rw [ih]
    rfl

theorem shortest_congr {x y : Binary f} (h : x.code = y.code) (tie : Tie) :
    x.shortest tie = y.shortest tie := by
  unfold shortest
  rw [search_congr h]
  obtain ⟨_, code⟩ := x
  obtain ⟨_, code'⟩ := y
  obtain rfl : code = code' := h
  rfl

theorem roundCode_le_infinity (num den : ℕ) : roundCode f num den ≤ f.infinity := by
  unfold roundCode
  split_ifs
  · exact Nat.zero_le _
  · exact Nat.min_le_left _ _

theorem convert_eq_round {g : Format} {x : Binary f} (hx : x.isFinite = true) :
    (x.convert : Binary g) = round x.negative x.numerator x.denominator := by
  simp only [convert, isNaN_of_isFinite hx, isInfinite_of_isFinite hx, Bool.false_eq_true, if_false]

end Binary

open Binary

/-- Twice rounded, the shortest decimal comes back to the code it was made from. -/
theorem roundCode_toDouble_shortest {x : Single} (hx : x.isFinite = true) (hz : x.isZero = false) :
    (x.shortest .toEven).toDouble.isFinite = true ∧
      (x.shortest .toEven).toDouble.negative = false ∧
      roundCode single (x.shortest .toEven).toDouble.numerator
        (x.shortest .toEven).toDouble.denominator = x.code := by
  have h := neighbour_shortest hx hz .toEven
  obtain ⟨hfinite, hsign⟩ := h.moderate.toDouble_finite
  refine ⟨hfinite, hsign, ?_⟩
  have hwithin : x.Within (x.shortest .toEven).toDouble.magnitude ∨ rereads x.code = true := by
    rcases Nat.lt_or_ge (x.shortest .toEven).digits (10 ^ 8) with hshort | hlong
    · exact within_of_short hx hz h hshort
    · exact Or.inl (within_of_long hz h hlong)
  rcases hwithin with hwithin | hevaluated
  · have hpos : 0 < (x.shortest .toEven).toDouble.magnitude := by
      have := h.moderate.toDouble_near
      have hslack : (slack : ℚ) = 4 * 10 ^ 15 := by norm_num [slack]
      rw [hslack, ← lt_div_iff₀' (by norm_num)] at this
      have := (abs_lt.mp this).1
      have := h.moderate.value_pos
      linarith
    exact roundCode_of_within (by decide) hx (numerator_pos hpos) (denominator_pos _)
      (magnitude_eq_div _).symm hwithin
  · have hcode : ((ofCode false x.code : Single).code : ℕ) = x.code := code_ofCode x.code.isLt false
    have hsame := shortest_congr (x := (ofCode false x.code : Single)) (y := x) (Fin.ext hcode) .toEven
    simp only [rereads, beq_iff_eq, hsame, convert_eq_round hfinite] at hevaluated
    have hround : ((Binary.round _ _ _ : Single).code : ℕ) = (ofCode false x.code : Single).code :=
      congrArg (fun y : Single => (y.code : ℕ)) hevaluated
    rwa [hcode, Binary.round, code_ofCode] at hround
    exact (roundCode_le_infinity _ _).trans_lt (Format.infinity_lt (by decide))

/-- A single number is what its shortest decimal, read with its sign, is converted to. -/
theorem convert_toDouble_shortest {x : Single} (hx : x.isFinite = true) :
    (if x.negative then (x.shortest .toEven).toDouble.neg
      else (x.shortest .toEven).toDouble).convert = x := by
  have hcode {y : Single} (hs : y.negative = x.negative) (hc : (y.code : ℕ) = x.code) : y = x := by
    obtain ⟨s, c⟩ := y
    obtain ⟨s', c'⟩ := x
    obtain rfl : s = s' := hs
    exact congrArg (Binary.mk s) (Fin.ext hc)
  cases hz : x.isZero with
  | true =>
    have hzero : (x.code : ℕ) = 0 := by simpa [isZero] using hz
    have hshortest : x.shortest .toEven = ⟨0, 0⟩ := by rw [shortest, hz, if_pos rfl]
    have hread : (⟨0, 0⟩ : Decimal).toDouble = zero false := by decide +kernel
    rw [hshortest, hread]
    cases hn : x.negative with
    | false => exact hcode (by rw [hn]; rfl) (by rw [hzero]; decide +kernel)
    | true => exact hcode (by rw [hn]; rfl) (by rw [hzero]; decide +kernel)
  | false =>
    obtain ⟨hfinite, hsign, hround⟩ := roundCode_toDouble_shortest hx hz
    generalize (x.shortest .toEven).toDouble = y at hfinite hsign hround ⊢
    have hsame : (ofCode x.negative (roundCode single y.numerator y.denominator) : Single) = x := by
      rw [hround]
      exact hcode rfl (code_ofCode x.code.isLt _)
    cases hn : x.negative with
    | false => rw [if_neg (by simp), convert_eq_round hfinite, hsign, ← hn]; exact hsame
    | true =>
      have hneg : y.neg.isFinite = true := hfinite
      rw [if_pos rfl, convert_eq_round hneg, show y.neg.negative = x.negative by rw [hn, neg, hsign]; rfl]
      exact hsame

end TeachPendant.Number
