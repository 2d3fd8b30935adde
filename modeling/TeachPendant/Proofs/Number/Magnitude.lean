import TeachPendant.Number.Shortest
import TeachPendant.Proofs.Number.Rounding

namespace TeachPendant.Number

namespace Format

variable (f : Format)

theorem binade_pos : 0 < f.binade := Nat.two_pow_pos _

theorem cast_binade : (f.binade : ℚ) = 2 ^ (f.precision - 1) := by
  unfold binade
  push_cast
  rfl

variable {f}

theorem infinity_lt (hf : 0 < f.precision) : f.infinity < 2 ^ f.width := by
  have hwidth : f.width = f.exponentBits + (f.precision - 1) := by
    unfold width
    omega
  rw [hwidth, Nat.pow_add, infinity, binade]
  have hbits : 0 < 2 ^ f.exponentBits := Nat.two_pow_pos _
  exact Nat.mul_lt_mul_of_pos_right (by omega) (Nat.two_pow_pos _)

end Format

namespace Binary

variable {f : Format}

def magnitude (x : Binary f) : ℚ := x.significand * 2 ^ x.exponent

theorem magnitude_eq_div (x : Binary f) : x.magnitude = x.numerator / x.denominator := by
  rw [magnitude, zpow_eq_div two_ne_zero, numerator, denominator]
  push_cast
  ring

theorem denominator_pos (x : Binary f) : 0 < x.denominator := Nat.two_pow_pos _

theorem code_ofCode {code : ℕ} (h : code < 2 ^ f.width) (negative : Bool) :
    ((ofCode negative code : Binary f).code : ℕ) = code := Nat.mod_eq_of_lt h

@[simp] theorem negative_ofCode (negative : Bool) (code : ℕ) :
    (ofCode negative code : Binary f).negative = negative := rfl

/-- The code as a number of whole binades and a significand. -/
theorem code_eq (x : Binary f) : (x.code : ℕ) =
    (x.exponent - f.leastExponent).toNat * f.binade + x.significand := by
  have hdiv := Nat.div_add_mod' (x.code : ℕ) f.binade
  unfold exponent significand
  split_ifs with h
  · simp
  · have hone : 1 ≤ (x.code : ℕ) / f.binade :=
      (Nat.one_le_div_iff f.binade_pos).mpr (not_lt.mp h)
    rw [show (f.leastExponent + ((x.code : ℕ) / f.binade : ℕ) - 1 - f.leastExponent).toNat =
      (x.code : ℕ) / f.binade - 1 by omega, Nat.sub_mul, Nat.one_mul]
    have : f.binade ≤ (x.code : ℕ) / f.binade * f.binade := Nat.le_mul_of_pos_left _ hone
    omega

theorem significand_lt (x : Binary f) : x.significand < 2 * f.binade := by
  have := f.binade_pos
  unfold significand
  split_ifs with h
  · omega
  · have := Nat.mod_lt (x.code : ℕ) f.binade_pos
    omega

theorem leastExponent_le (x : Binary f) : f.leastExponent ≤ x.exponent := by
  unfold exponent
  split_ifs with h
  · exact le_rfl
  · have hone : 1 ≤ (x.code : ℕ) / f.binade :=
      (Nat.one_le_div_iff f.binade_pos).mpr (not_lt.mp h)
    omega

theorem binade_le_significand {x : Binary f} (h : f.leastExponent < x.exponent) :
    f.binade ≤ x.significand := by
  unfold exponent at h
  unfold significand
  split_ifs at h ⊢
  · omega
  · omega

theorem significand_pos {x : Binary f} (h : x.isZero = false) : 0 < x.significand := by
  have hcode : (x.code : ℕ) ≠ 0 := by simpa [isZero] using h
  have := f.binade_pos
  unfold significand
  split_ifs <;> omega

/-- A significand of at most two binades, with the carry into the next one, as a magnitude. -/
theorem magnitude_ofCode {e m : ℕ} (hm : m ≤ 2 * f.binade) (he : e = 0 ∨ f.binade ≤ m)
    (h : e * f.binade + m < 2 ^ f.width) (negative : Bool) :
    (ofCode negative (e * f.binade + m) : Binary f).magnitude = m * 2 ^ (f.leastExponent + e) := by
  have hpos := f.binade_pos
  unfold magnitude significand exponent
  rw [code_ofCode h]
  rcases lt_or_ge m f.binade with hlow | hlow
  · obtain rfl : e = 0 := he.resolve_right (by omega)
    simp [hlow]
  · have hcode : ¬ e * f.binade + m < f.binade := by omega
    rw [if_neg hcode, if_neg hcode]
    rcases hm.lt_or_eq with hhigh | rfl
    · have hsplit : e * f.binade + m = (m - f.binade) + f.binade * (e + 1) := by
        rw [Nat.mul_add, Nat.mul_comm e]
        omega
      rw [hsplit, Nat.add_mul_mod_self_left, Nat.add_mul_div_left _ _ hpos,
        Nat.mod_eq_of_lt (by omega), Nat.div_eq_of_lt (by omega), Nat.sub_add_cancel hlow]
      congr 2
      push_cast
      ring
    · have hsplit : e * f.binade + 2 * f.binade = f.binade * (e + 2) := by ring
      rw [hsplit, Nat.mul_mod_right, Nat.mul_div_cancel_left _ hpos, Nat.zero_add,
        show f.leastExponent + ((e + 2 : ℕ) : ℤ) - 1 = f.leastExponent + e + 1 by push_cast; ring,
        zpow_add₀ two_ne_zero]
      push_cast
      ring

theorem two_zpow_precision (hf : 0 < f.precision) (q : ℤ) :
    (2 : ℚ) ^ (q + f.precision) = 2 * f.binade * 2 ^ q := by
  rw [f.cast_binade, zpow_add₀ two_ne_zero, zpow_natCast, ← pow_succ', Nat.sub_add_cancel hf,
    mul_comm]

theorem two_zpow_precision_sub_one (hf : 0 < f.precision) (q : ℤ) :
    (2 : ℚ) ^ (q + f.precision - 1) = f.binade * 2 ^ q := by
  rw [zpow_sub₀ two_ne_zero, two_zpow_precision hf, zpow_one]
  ring

/-- The code of a fraction whose unit is known. -/
theorem roundCode_eq {num den : ℕ} (hn : 0 < num) (hd : 0 < den) {q : ℤ}
    (hq : f.leastExponent ≤ q)
    (hlow : q = f.leastExponent ∨ (2 : ℚ) ^ (q + f.precision - 1) ≤ num / den)
    (hhigh : (num : ℚ) / den < 2 ^ (q + f.precision)) :
    roundCode f num den = min f.infinity ((q - f.leastExponent).toNat * f.binade +
      roundDiv (num * 2 ^ (-q).toNat) (den * 2 ^ q.toNat)) := by
  obtain ⟨hbelow, -⟩ := binaryExponent_bounds hn hd
  have hle := (zpow_lt_zpow_iff_right₀ (one_lt_two (α := ℚ))).mp (hbelow.trans_lt hhigh)
  have hunit : max f.leastExponent (binaryExponent num den - f.precision + 1) = q := by
    rcases hlow with rfl | hlow
    · omega
    · rw [binaryExponent_eq hn hd hlow (by convert hhigh using 2; ring)]
      omega
  simp only [roundCode, if_neg hn.ne', hunit]

/-- The magnitudes from the midpoint below to the midpoint above; the midpoints themselves count for
even significands. -/
structure Within (x : Binary f) (v : ℚ) : Prop where
  low : x.lowerQuarters * 2 ^ (x.exponent - 2) ≤ v
  high : v ≤ x.upperQuarters * 2 ^ (x.exponent - 2)
  tie : x.significand % 2 = 0 ∨
    x.lowerQuarters * 2 ^ (x.exponent - 2) < v ∧ v < x.upperQuarters * 2 ^ (x.exponent - 2)

theorem quarter_mul (x : Binary f) (n : ℚ) : n * 2 ^ (x.exponent - 2) = n / 4 * 2 ^ x.exponent := by
  rw [zpow_sub₀ two_ne_zero]
  norm_num
  ring

theorem cast_upperQuarters (x : Binary f) : (x.upperQuarters : ℚ) = 4 * x.significand + 2 := by
  unfold upperQuarters quarters
  push_cast
  ring

theorem sub_two_le_lowerQuarters (x : Binary f) :
    4 * (x.significand : ℚ) - 2 ≤ x.lowerQuarters := by
  have hquarters : 4 * x.significand ≤ x.lowerQuarters + 2 := by
    unfold lowerQuarters quarters
    split_ifs <;> omega
  have : 4 * (x.significand : ℚ) ≤ x.lowerQuarters + 2 := by exact_mod_cast hquarters
  linarith

/-- Where the exponent steps, the midpoint below is nearer. -/
theorem lowerQuarters_of_step {x : Binary f} (h : x.significand = f.binade)
    (hstep : f.leastExponent < x.exponent) : (x.lowerQuarters : ℚ) = 4 * f.binade - 1 := by
  have hpos := f.binade_pos
  have hbelow : f.binade < (x.code : ℕ) := by
    have hbinades : 1 * f.binade ≤ (x.exponent - f.leastExponent).toNat * f.binade :=
      Nat.mul_le_mul_right _ (by omega)
    have := x.code_eq
    omega
  rw [lowerQuarters, if_pos ⟨h, hbelow⟩, quarters, h, Nat.cast_sub (by omega)]
  push_cast
  ring

section Within

variable {x : Binary f} {num den : ℕ} {v : ℚ}

/-- A fraction in the binade of `x` is rounded to its significand. -/
theorem roundCode_of_binade (hf : 0 < f.precision) (hx : x.isFinite = true) (hn : 0 < num)
    (hd : 0 < den) (hv : (num : ℚ) / den = v) (h : x.Within v)
    (hbinade : x.exponent = f.leastExponent ∨ f.binade * 2 ^ x.exponent ≤ v) :
    roundCode f num den = x.code := by
  have hfinite : (x.code : ℕ) < f.infinity := by simpa [isFinite] using hx
  obtain ⟨hlow, hhigh, htie⟩ := h
  rw [quarter_mul] at hlow hhigh
  rw [quarter_mul, quarter_mul] at htie
  have hlq := x.sub_two_le_lowerQuarters
  rw [cast_upperQuarters] at hhigh htie
  have hs : (x.significand : ℚ) + 1 ≤ 2 * f.binade := by exact_mod_cast x.significand_lt
  have hunit : (0 : ℚ) < 2 ^ x.exponent := by positivity
  have hround : roundDiv (num * 2 ^ (-x.exponent).toNat) (den * 2 ^ x.exponent.toNat) =
      x.significand := by
    refine roundDiv_eq_of_near (Nat.mul_pos hd (Nat.two_pow_pos _))
      ((div_zpow_eq num den x.exponent).trans (by rw [hv])) ?_ ?_
      (htie.imp_right fun ht => ⟨?_, ?_⟩)
    · rw [le_div_iff₀ hunit]
      nlinarith
    · rw [div_le_iff₀ hunit]
      nlinarith
    · rw [lt_div_iff₀ hunit]
      nlinarith [ht.1]
    · rw [div_lt_iff₀ hunit]
      nlinarith [ht.2]
  rw [roundCode_eq hn hd x.leastExponent_le, hround, ← code_eq]
  · omega
  · rwa [two_zpow_precision_sub_one hf, hv]
  · rw [two_zpow_precision hf, hv]
    nlinarith

/-- A fraction in the binade below lies in its last half unit, and is carried over. -/
theorem roundCode_of_binade_below (hf : 0 < f.precision) (hx : x.isFinite = true) (hn : 0 < num)
    (hd : 0 < den) (hv : (num : ℚ) / den = v) (h : x.Within v)
    (hstep : f.leastExponent < x.exponent) (hbelow : v < f.binade * 2 ^ x.exponent) :
    roundCode f num den = x.code := by
  have hfinite : (x.code : ℕ) < f.infinity := by simpa [isFinite] using hx
  have hlow := h.low
  rw [quarter_mul] at hlow
  have hunit : (0 : ℚ) < 2 ^ x.exponent := by positivity
  have hbpos : (1 : ℚ) ≤ f.binade := by exact_mod_cast f.binade_pos
  have hsig : x.significand = f.binade := by
    by_contra hne
    have hlq := x.sub_two_le_lowerQuarters
    have hnormal := binade_le_significand hstep
    have : (f.binade : ℚ) + 1 ≤ x.significand := by exact_mod_cast (by omega)
    nlinarith
  rw [lowerQuarters_of_step hsig hstep] at hlow
  have hhalf : (2 : ℚ) ^ (x.exponent - 1) = 2 ^ x.exponent / 2 := by
    rw [zpow_sub₀ two_ne_zero, zpow_one]
  have hhalfpos : (0 : ℚ) < 2 ^ (x.exponent - 1) := by positivity
  have hround : roundDiv (num * 2 ^ (-(x.exponent - 1)).toNat)
      (den * 2 ^ (x.exponent - 1).toNat) = 2 * f.binade := by
    refine roundDiv_eq_of_near (Nat.mul_pos hd (Nat.two_pow_pos _))
      ((div_zpow_eq num den _).trans (by rw [hv])) ?_ ?_ (Or.inl (by omega))
    · rw [le_div_iff₀ hhalfpos, hhalf]
      push_cast
      nlinarith
    · rw [div_le_iff₀ hhalfpos, hhalf]
      push_cast
      nlinarith
  have hsame : (x.exponent - 1 - f.leastExponent).toNat * f.binade + 2 * f.binade = x.code := by
    rw [x.code_eq, hsig, show (x.exponent - f.leastExponent).toNat =
      (x.exponent - 1 - f.leastExponent).toNat + 1 by omega]
    ring
  rw [roundCode_eq (q := x.exponent - 1) hn hd (by omega), hround, hsame]
  · omega
  · refine Or.inr ?_
    rw [two_zpow_precision_sub_one hf, hhalf, hv]
    nlinarith
  · rw [two_zpow_precision hf, hhalf, hv]
    linarith

theorem roundCode_of_within (hf : 0 < f.precision) (hx : x.isFinite = true) (hn : 0 < num)
    (hd : 0 < den) (hv : (num : ℚ) / den = v) (h : x.Within v) :
    roundCode f num den = x.code := by
  by_cases hbinade : x.exponent = f.leastExponent ∨ f.binade * 2 ^ x.exponent ≤ v
  · exact roundCode_of_binade hf hx hn hd hv h hbinade
  · push Not at hbinade
    have hstep := lt_of_le_of_ne x.leastExponent_le hbinade.1.symm
    exact roundCode_of_binade_below hf hx hn hd hv h hstep hbinade.2

end Within

/-- The fractions whose rounding is a normal number. -/
def InRange (f : Format) (v : ℚ) : Prop :=
  2 ^ (f.leastExponent + f.precision - 1) ≤ v ∧
    v < 2 ^ (f.leastExponent + 2 ^ f.exponentBits + f.precision - 4)

section Round

variable {num den : ℕ} {v : ℚ}

/-- What comes out is the nearest multiple of the unit of the fraction. -/
theorem magnitude_round (hf : 0 < f.precision) (hn : 0 < num) (hd : 0 < den)
    (hv : (num : ℚ) / den = v) (hrange : InRange f v) (negative : Bool) :
    (round negative num den : Binary f).isFinite = true ∧ ∃ q : ℤ,
      f.binade * 2 ^ q ≤ v ∧ v < 2 * f.binade * 2 ^ q ∧
        (round negative num den : Binary f).magnitude =
          roundDiv (num * 2 ^ (-q).toNat) (den * 2 ^ q.toNat) * 2 ^ q := by
  obtain ⟨hlow, hhigh⟩ := hrange
  obtain ⟨q, hqlow, hqhigh⟩ : ∃ q : ℤ, (2 : ℚ) ^ (q + f.precision - 1) ≤ v ∧
      v < 2 ^ (q + f.precision) := by
    obtain ⟨hb, ha⟩ := binaryExponent_bounds hn hd
    rw [hv] at hb ha
    refine ⟨binaryExponent num den - f.precision + 1, ?_, ?_⟩
    · convert hb using 2
      ring
    · convert ha using 2
      ring
  have hone := one_lt_two (α := ℚ)
  have hleast := (zpow_lt_zpow_iff_right₀ hone).mp (hlow.trans_lt hqhigh)
  have hmost := (zpow_lt_zpow_iff_right₀ hone).mp (hqlow.trans_lt hhigh)
  have hcode := roundCode_eq hn hd (f := f) (q := q) (by omega)
    (Or.inr (hqlow.trans_eq hv.symm)) (hv.trans_lt hqhigh)
  have hnear := abs_roundDiv_sub_le (Nat.mul_pos hd (Nat.two_pow_pos _))
    ((div_zpow_eq num den q).trans (by rw [hv]))
  generalize hm : roundDiv (num * 2 ^ (-q).toNat) (den * 2 ^ q.toNat) = m at hcode hnear
  rw [two_zpow_precision_sub_one hf] at hqlow
  rw [two_zpow_precision hf] at hqhigh
  have hunit : (0 : ℚ) < 2 ^ q := by positivity
  obtain ⟨hnear, hnear'⟩ := abs_le.mp hnear
  have hmlow : f.binade ≤ m := by
    have hr : (f.binade : ℚ) ≤ v / 2 ^ q := (le_div_iff₀ hunit).mpr hqlow
    have : (f.binade : ℚ) < (m + 1 : ℕ) := by
      push_cast
      linarith
    exact Nat.lt_succ_iff.mp (by exact_mod_cast this)
  have hmhigh : m ≤ 2 * f.binade := by
    have hr : v / 2 ^ q < 2 * f.binade := (div_lt_iff₀ hunit).mpr hqhigh
    have : (m : ℚ) < (2 * f.binade + 1 : ℕ) := by
      push_cast
      linarith
    exact Nat.lt_succ_iff.mp (by exact_mod_cast this)
  have hfinite : (q - f.leastExponent).toNat * f.binade + m < f.infinity := by
    have hfew : (q - f.leastExponent).toNat + 3 ≤ 2 ^ f.exponentBits - 1 := by
      have hcast : ((2 ^ f.exponentBits : ℕ) : ℤ) = 2 ^ f.exponentBits := by
        push_cast
        rfl
      omega
    have hbinades := Nat.mul_le_mul_right f.binade hfew
    rw [Nat.add_mul] at hbinades
    have hpos := f.binade_pos
    unfold Format.infinity
    omega
  rw [Nat.min_eq_right hfinite.le] at hcode
  have hwidth := hfinite.trans (Format.infinity_lt hf)
  refine ⟨?_, q, hqlow, hqhigh, ?_⟩
  · rw [round, hcode, isFinite, code_ofCode hwidth]
    simpa using hfinite
  · rw [round, hcode, magnitude_ofCode hmhigh (Or.inr hmlow) hwidth, hm]
    congr 2
    omega

theorem abs_magnitude_round_sub_le (hf : 0 < f.precision) (hn : 0 < num) (hd : 0 < den)
    (hv : (num : ℚ) / den = v) (hrange : InRange f v) (negative : Bool) :
    |(round negative num den : Binary f).magnitude - v| ≤ v / 2 ^ f.precision := by
  obtain ⟨-, q, hlow, -, hm⟩ := magnitude_round hf hn hd hv hrange negative
  have hunit : (0 : ℚ) < 2 ^ q := by positivity
  have hnear := abs_roundDiv_sub_le (Nat.mul_pos hd (Nat.two_pow_pos _))
    ((div_zpow_eq num den q).trans (by rw [hv]))
  have hbinade : (2 : ℚ) ^ f.precision = 2 * f.binade := by
    rw [f.cast_binade, ← pow_succ', Nat.sub_add_cancel hf]
  have hbpos : (0 : ℚ) < f.binade := by exact_mod_cast f.binade_pos
  calc |(round negative num den : Binary f).magnitude - v|
      = |(roundDiv (num * 2 ^ (-q).toNat) (den * 2 ^ q.toNat) : ℚ) - v / 2 ^ q| * 2 ^ q := by
        rw [hm, ← abs_of_pos hunit, ← abs_mul, abs_of_pos hunit, sub_mul,
          div_mul_cancel₀ v hunit.ne']
    _ ≤ 1 / 2 * 2 ^ q := by gcongr
    _ ≤ v / 2 ^ f.precision := by
        rw [hbinade, le_div_iff₀ (by positivity)]
        linarith

/-- What the format can hold is not moved. -/
theorem magnitude_round_eq (hf : 0 < f.precision) (hn : 0 < num) (hd : 0 < den)
    (hv : (num : ℚ) / den = v) (hrange : InRange f v) {n : ℕ} {t : ℤ} (hfew : n < 2 ^ f.precision)
    (hheld : v = n * 2 ^ t) (negative : Bool) :
    (round negative num den : Binary f).magnitude = v := by
  obtain ⟨-, q, hlow, -, hm⟩ := magnitude_round hf hn hd hv hrange negative
  have hunit : (0 : ℚ) < 2 ^ q := by positivity
  have ht : q ≤ t := by
    have hhigh : v < 2 ^ (t + f.precision) := by
      rw [hheld, zpow_add₀ two_ne_zero, zpow_natCast, mul_comm]
      have : (n : ℚ) < 2 ^ f.precision := by exact_mod_cast hfew
      gcongr
    rw [← two_zpow_precision_sub_one hf] at hlow
    have := (zpow_lt_zpow_iff_right₀ (one_lt_two (α := ℚ))).mp (hlow.trans_lt hhigh)
    omega
  have hwhole : v / 2 ^ q = (n * 2 ^ (t - q).toNat : ℕ) := by
    rw [hheld, mul_div_assoc, ← zpow_sub₀ two_ne_zero, ← Int.toNat_of_nonneg (sub_nonneg.mpr ht),
      zpow_natCast]
    push_cast
    rfl
  have hround := roundDiv_eq_of_eq (Nat.mul_pos hd (Nat.two_pow_pos _))
    ((div_zpow_eq num den q).trans (by rw [hv, hwhole]))
  rw [hm, hround, ← hwhole, div_mul_cancel₀ v hunit.ne']

end Round

end Binary

end TeachPendant.Number
