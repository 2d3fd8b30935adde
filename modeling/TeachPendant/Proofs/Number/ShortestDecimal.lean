import TeachPendant.Proofs.Number.Magnitude

namespace TeachPendant.Number

namespace Decimal

def value (d : Decimal) : ℚ := d.digits * 10 ^ d.exponent

/-- The sizes of the decimals that single numbers have. -/
structure Moderate (d : Decimal) : Prop where
  exponent_low : -54 ≤ d.exponent
  exponent_high : d.exponent ≤ 40
  digits_pos : 0 < d.digits
  digits_le : d.digits ≤ 10 ^ 10 + 1

theorem Moderate.value_pos {d : Decimal} (h : d.Moderate) : 0 < d.value := by
  have : (0 : ℚ) < d.digits := by exact_mod_cast h.digits_pos
  unfold value
  positivity

end Decimal

theorem digitCount_bounds {n : ℕ} (h : 0 < n) :
    10 ^ (digitCount n - 1) ≤ n ∧ n < 10 ^ digitCount n := by
  have hpos : 0 < digitCount n := Nat.length_toDigits_pos
  refine ⟨?_, (Nat.length_toDigits_le_iff (by decide) hpos).mp le_rfl⟩
  rcases Nat.lt_or_ge 1 (digitCount n) with hlong | hshort
  · by_contra hlow
    have := (Nat.length_toDigits_le_iff (b := 10) (k := digitCount n - 1) (by decide)
      (by omega)).mpr (not_le.mp hlow)
    unfold digitCount at this hlong
    omega
  · rw [Nat.sub_eq_zero_of_le hshort]
    exact h

namespace Binary

variable {f : Format} {x : Binary f}

theorem readsBack_iff (x : Binary f) (d : Decimal) : x.readsBack d = true ↔ x.Within d.value := by
  have hcross (n : ℕ) : (n : ℚ) * 2 ^ (x.exponent - 2) = n *
      (2 ^ (x.exponent - 2).toNat * 10 ^ (-d.exponent).toNat) /
        (10 ^ (-d.exponent).toNat * 2 ^ (-(x.exponent - 2)).toNat) := by
    rw [zpow_eq_div two_ne_zero]
    field_simp
  have hvalue : d.value = d.digits * 10 ^ d.exponent.toNat * 2 ^ (-(x.exponent - 2)).toNat /
      (10 ^ (-d.exponent).toNat * 2 ^ (-(x.exponent - 2)).toNat) := by
    rw [Decimal.value, zpow_eq_div (by norm_num)]
    field_simp
  have hpos : (0 : ℚ) < 10 ^ (-d.exponent).toNat * 2 ^ (-(x.exponent - 2)).toNat := by positivity
  have hle (n : ℕ) : (n : ℚ) * 2 ^ (x.exponent - 2) ≤ d.value ↔
      n * (2 ^ (x.exponent - 2).toNat * 10 ^ (-d.exponent).toNat) ≤
        d.digits * 10 ^ d.exponent.toNat * 2 ^ (-(x.exponent - 2)).toNat := by
    rw [hcross, hvalue, div_le_div_iff_of_pos_right hpos]
    exact_mod_cast Iff.rfl
  have hge (n : ℕ) : d.value ≤ (n : ℚ) * 2 ^ (x.exponent - 2) ↔
      d.digits * 10 ^ d.exponent.toNat * 2 ^ (-(x.exponent - 2)).toNat ≤
        n * (2 ^ (x.exponent - 2).toNat * 10 ^ (-d.exponent).toNat) := by
    rw [hcross, hvalue, div_le_div_iff_of_pos_right hpos]
    exact_mod_cast Iff.rfl
  have hwithin : x.Within d.value ↔ x.lowerQuarters * 2 ^ (x.exponent - 2) ≤ d.value ∧
      d.value ≤ x.upperQuarters * 2 ^ (x.exponent - 2) ∧ (x.significand % 2 = 0 ∨
        x.lowerQuarters * 2 ^ (x.exponent - 2) < d.value ∧
          d.value < x.upperQuarters * 2 ^ (x.exponent - 2)) :=
    ⟨fun h => ⟨h.low, h.high, h.tie⟩, fun h => ⟨h.1, h.2.1, h.2.2⟩⟩
  rw [hwithin, ← not_le, ← not_le, hle, hle, hge, hge]
  unfold readsBack
  dsimp only
  split_ifs with heven
  · simp only [Bool.and_eq_true, decide_eq_true_eq, heven]
    tauto
  · simp only [Bool.and_eq_true, decide_eq_true_eq, heven, false_or]
    omega

section Grid

variable {tie : Tie} {j : ℤ}

/-- The neighbour below, and with it the neighbour above, is less than a step away. -/
theorem below_bounds (x : Binary f) (j : ℤ) :
    (⟨x.numerator * 10 ^ (-j).toNat / (x.denominator * 10 ^ j.toNat), j⟩ : Decimal).value ≤
        x.magnitude ∧
      x.magnitude < (⟨x.numerator * 10 ^ (-j).toNat / (x.denominator * 10 ^ j.toNat) + 1, j⟩ :
        Decimal).value := by
  have hd : 0 < x.denominator * 10 ^ j.toNat :=
    Nat.mul_pos x.denominator_pos (Nat.pow_pos (by decide))
  have hden : (0 : ℚ) < x.denominator := by exact_mod_cast x.denominator_pos
  have hstep : (0 : ℚ) < 10 ^ j := by positivity
  have hscaled : ((x.numerator * 10 ^ (-j).toNat : ℕ) : ℚ) / (x.denominator * 10 ^ j.toNat : ℕ) =
      x.magnitude / 10 ^ j := by
    rw [magnitude_eq_div, zpow_eq_div (by norm_num)]
    push_cast
    field_simp
  have hd' : (0 : ℚ) < (x.denominator * 10 ^ j.toNat : ℕ) := by exact_mod_cast hd
  unfold Decimal.value
  dsimp only
  constructor
  · rw [← le_div_iff₀ hstep, ← hscaled, le_div_iff₀ hd']
    exact_mod_cast Nat.div_mul_le_self _ _
  · rw [← div_lt_iff₀ hstep, ← hscaled, div_lt_iff₀ hd']
    have hnext := Nat.lt_div_mul_add (a := x.numerator * 10 ^ (-j).toNat) hd
    rw [← Nat.succ_mul] at hnext
    exact_mod_cast hnext

theorem onGrid_spec {d : Decimal} (h : x.onGrid tie j = some d) :
    d.exponent = j ∧ x.Within d.value ∧ |d.value - x.magnitude| ≤ 10 ^ j := by
  obtain ⟨hbelow, habove⟩ := x.below_bounds j
  unfold onGrid at h
  dsimp only at h
  generalize x.numerator * 10 ^ (-j).toNat / (x.denominator * 10 ^ j.toNat) = n at h hbelow habove
  have hnear : |(⟨n, j⟩ : Decimal).value - x.magnitude| ≤ 10 ^ j ∧
      |(⟨n + 1, j⟩ : Decimal).value - x.magnitude| ≤ 10 ^ j := by
    unfold Decimal.value at hbelow habove ⊢
    push_cast at hbelow habove ⊢
    constructor <;> rw [abs_le] <;> constructor <;> nlinarith
  have hb (hr : x.readsBack ⟨n, j⟩ = true) (hd : d = ⟨n, j⟩) :
      d.exponent = j ∧ x.Within d.value ∧ |d.value - x.magnitude| ≤ 10 ^ j := by
    rw [hd]
    exact ⟨rfl, (x.readsBack_iff _).mp hr, hnear.1⟩
  have ha (hr : x.readsBack ⟨n + 1, j⟩ = true) (hd : d = ⟨n + 1, j⟩) :
      d.exponent = j ∧ x.Within d.value ∧ |d.value - x.magnitude| ≤ 10 ^ j := by
    rw [hd]
    exact ⟨rfl, (x.readsBack_iff _).mp hr, hnear.2⟩
  cases hrb : x.readsBack ⟨n, j⟩ <;> cases hra : x.readsBack ⟨n + 1, j⟩ <;>
    simp only [hrb, hra] at h
  · cases h
  · exact ha hra (Option.some.inj h).symm
  · exact hb hrb (Option.some.inj h).symm
  · split_ifs at h
    · exact hb hrb (Option.some.inj h).symm
    · exact ha hra (Option.some.inj h).symm
    · cases tie with
      | awayFromZero => exact ha hra (Option.some.inj h).symm
      | toEven => exact hb hrb (Option.some.inj h).symm
    · cases tie <;> exact ha hra (Option.some.inj h).symm

/-- On a grid as fine as a quarter of the unit, the neighbour below is within the midpoints. -/
theorem onGrid_isSome (hx : x.isZero = false) (hj : (10 : ℚ) ^ j ≤ 2 ^ (x.exponent - 2)) :
    (x.onGrid tie j).isSome = true := by
  obtain ⟨hbelow, habove⟩ := x.below_bounds j
  have hquarter : x.magnitude = 4 * x.significand * 2 ^ (x.exponent - 2) := by
    rw [quarter_mul, magnitude]
    ring
  have hlow : (x.lowerQuarters : ℚ) + 1 ≤ 4 * x.significand := by
    have hpos := significand_pos hx
    have : x.lowerQuarters + 1 ≤ 4 * x.significand := by
      unfold lowerQuarters quarters
      split_ifs <;> omega
    exact_mod_cast this
  have hhigh := x.cast_upperQuarters
  have hunit : (0 : ℚ) < 2 ^ (x.exponent - 2) := by positivity
  have hstrict : x.lowerQuarters * 2 ^ (x.exponent - 2) <
      (⟨x.numerator * 10 ^ (-j).toNat / (x.denominator * 10 ^ j.toNat), j⟩ : Decimal).value ∧
      (⟨x.numerator * 10 ^ (-j).toNat / (x.denominator * 10 ^ j.toNat), j⟩ : Decimal).value <
        x.upperQuarters * 2 ^ (x.exponent - 2) := by
    rw [hquarter] at hbelow habove
    unfold Decimal.value at hbelow habove ⊢
    push_cast at hbelow habove ⊢
    rw [hhigh]
    constructor <;> nlinarith
  have hreads := (x.readsBack_iff _).mpr ⟨hstrict.1.le, hstrict.2.le, Or.inr hstrict⟩
  unfold onGrid
  simp only [hreads]
  split
  · next h _ => cases h
  · rfl
  · rfl
  · split_ifs
    · rfl
    · rfl
    · cases tie <;> rfl
    · cases tie <;> rfl

theorem search_eq_onGrid {tries n : ℕ} (hn : n < tries) (h : (x.onGrid tie (j - n)).isSome = true) :
    ∃ m ≤ n, x.onGrid tie (j - m) = some (x.search tie tries j) := by
  induction tries generalizing j n with
  | zero => omega
  | succ tries ih =>
    unfold search
    cases hj : x.onGrid tie j with
    | some d => exact ⟨0, Nat.zero_le n, by simpa using hj⟩
    | none =>
      obtain ⟨n, rfl⟩ : ∃ k, n = k + 1 := by
        refine Nat.exists_eq_succ_of_ne_zero ?_
        rintro rfl
        simp [hj] at h
      have hshift (k : ℕ) : j - 1 - k = j - (k + 1 : ℕ) := by
        push_cast
        ring
      obtain ⟨m, hm, hfound⟩ := ih (j := j - 1) (n := n) (by omega) (by rwa [hshift])
      exact ⟨m + 1, by omega, by rwa [← hshift]⟩

end Grid

/-- The search begins at most two powers of ten above the number. -/
theorem top_bounds (hx : x.isZero = false) {top : ℤ}
    (htop : top = (digitCount x.numerator : ℤ) - digitCount x.denominator + 1) :
    x.magnitude < 10 ^ top ∧ (10 : ℚ) ^ (top - 2) ≤ x.magnitude := by
  have hnum : 0 < x.numerator := Nat.mul_pos (significand_pos hx) (Nat.two_pow_pos _)
  obtain ⟨hnlow, hnhigh⟩ := digitCount_bounds hnum
  obtain ⟨hdlow, hdhigh⟩ := digitCount_bounds x.denominator_pos
  have hnpos : 0 < digitCount x.numerator := Nat.length_toDigits_pos
  have hdpos : 0 < digitCount x.denominator := Nat.length_toDigits_pos
  have hden : (0 : ℚ) < x.denominator := by exact_mod_cast x.denominator_pos
  have hten : (10 : ℚ) ≠ 0 := by norm_num
  have hnlow : (10 : ℚ) ^ ((digitCount x.numerator : ℤ) - 1) ≤ x.numerator := by
    rw [← Int.natCast_pred_of_pos hnpos, zpow_natCast]
    exact_mod_cast hnlow
  have hdlow : (10 : ℚ) ^ ((digitCount x.denominator : ℤ) - 1) ≤ x.denominator := by
    rw [← Int.natCast_pred_of_pos hdpos, zpow_natCast]
    exact_mod_cast hdlow
  have hnhigh : (x.numerator : ℚ) < 10 ^ (digitCount x.numerator : ℤ) := by
    rw [zpow_natCast]
    exact_mod_cast hnhigh
  have hdhigh : (x.denominator : ℚ) < 10 ^ (digitCount x.denominator : ℤ) := by
    rw [zpow_natCast]
    exact_mod_cast hdhigh
  rw [magnitude_eq_div, div_lt_iff₀ hden, le_div_iff₀ hden]
  constructor
  · calc (x.numerator : ℚ) < 10 ^ (digitCount x.numerator : ℤ) := hnhigh
      _ = 10 ^ top * 10 ^ ((digitCount x.denominator : ℤ) - 1) := by
        rw [← zpow_add₀ hten, htop]
        congr 1
        ring
      _ ≤ 10 ^ top * x.denominator := by gcongr
  · calc (10 : ℚ) ^ (top - 2) * x.denominator
        ≤ 10 ^ (top - 2) * 10 ^ (digitCount x.denominator : ℤ) := by gcongr
      _ = 10 ^ ((digitCount x.numerator : ℤ) - 1) := by
        rw [← zpow_add₀ hten, htop]
        congr 1
        ring
      _ ≤ x.numerator := hnlow

end Binary

/-- What the shortest decimal of a number that is not zero is like. -/
structure Neighbour (x : Single) (d : Decimal) : Prop where
  within : x.Within d.value
  near : |d.value - x.magnitude| ≤ 10 ^ d.exponent
  moderate : d.Moderate

theorem Single.exponent_le {x : Single} (hx : x.isFinite = true) : x.exponent ≤ 104 := by
  have hcode : (x.code : ℕ) < single.infinity := by simpa [Binary.isFinite] using hx
  have hdiv : (x.code : ℕ) / single.binade < 255 := (Nat.div_lt_iff_lt_mul (by decide)).mpr hcode
  have hleast : single.leastExponent = -149 := by decide
  unfold Binary.exponent
  rw [hleast]
  split_ifs <;> omega

theorem Single.magnitude_bounds {x : Single} (hx : x.isFinite = true) (hz : x.isZero = false) :
    (2 : ℚ) ^ (-149 : ℤ) ≤ x.magnitude ∧ x.magnitude < 2 ^ (128 : ℤ) := by
  have hpos : (1 : ℚ) ≤ x.significand := by exact_mod_cast Binary.significand_pos hz
  have hlt : (x.significand : ℚ) < 2 ^ (24 : ℤ) := by exact_mod_cast x.significand_lt
  have hlow : (-149 : ℤ) ≤ x.exponent := x.leastExponent_le
  have hhigh := Single.exponent_le hx
  unfold Binary.magnitude
  have hone : (1 : ℚ) ≤ 2 := by norm_num
  constructor
  · calc (2 : ℚ) ^ (-149 : ℤ) ≤ 2 ^ x.exponent := zpow_le_zpow_right₀ hone hlow
      _ ≤ x.significand * 2 ^ x.exponent := le_mul_of_one_le_left (by positivity) hpos
  · calc (x.significand : ℚ) * 2 ^ x.exponent < 2 ^ (24 : ℤ) * 2 ^ x.exponent := by gcongr
      _ ≤ 2 ^ (24 : ℤ) * 2 ^ (104 : ℤ) := by gcongr
      _ = 2 ^ (128 : ℤ) := by norm_num

theorem neighbour_shortest {x : Single} (hx : x.isFinite = true) (hz : x.isZero = false) (tie : Tie) :
    Neighbour x (x.shortest tie) := by
  unfold Binary.shortest
  rw [hz, if_neg Bool.false_ne_true]
  dsimp only
  generalize htop : (digitCount x.numerator : ℤ) - digitCount x.denominator + 1 = top
  obtain ⟨hhigh, hlow⟩ := Binary.top_bounds hz htop.symm
  obtain ⟨hleast, hmost⟩ := Single.magnitude_bounds hx hz
  have hten : (1 : ℚ) < 10 := by norm_num
  -- Ten grids below the first one, the step is less than a quarter of the unit.
  have hfine : (10 : ℚ) ^ (top - (10 : ℕ)) ≤ 2 ^ (x.exponent - 2) := by
    have hsig : (x.significand : ℚ) < 2 ^ 24 := by exact_mod_cast x.significand_lt
    have hunit : (0 : ℚ) < 2 ^ x.exponent := by positivity
    have hsplit : (10 : ℚ) ^ (top - (10 : ℕ)) = 10 ^ (top - 2) / 10 ^ 8 := by
      rw [show top - (10 : ℕ) = top - 2 - (8 : ℕ) by push_cast; ring, zpow_sub₀ (by norm_num),
        zpow_natCast]
    rw [hsplit, ← one_mul ((2 : ℚ) ^ (x.exponent - 2)), Binary.quarter_mul]
    unfold Binary.magnitude at hlow
    rw [div_le_iff₀ (by norm_num)]
    nlinarith
  have htries : 10 < 24 := by decide
  have hfine : (x.onGrid tie (top - (10 : ℕ))).isSome = true := Binary.onGrid_isSome hz hfine
  obtain ⟨n, hn, hfound⟩ := Binary.search_eq_onGrid htries hfine
  generalize x.search tie 24 top = d at hfound
  obtain ⟨hexponent, hwithin, hnear⟩ := Binary.onGrid_spec hfound
  rw [← hexponent] at hnear
  have htoplow : -45 < top := by
    have : (10 : ℚ) ^ (-45 : ℤ) < 10 ^ top := lt_of_lt_of_le (by norm_num) (hleast.trans hhigh.le)
    exact (zpow_lt_zpow_iff_right₀ hten).mp this
  have htophigh : top - 2 < 39 := by
    have : (10 : ℚ) ^ (top - 2) < 10 ^ (39 : ℤ) := hlow.trans_lt (hmost.trans (by norm_num))
    exact (zpow_lt_zpow_iff_right₀ hten).mp this
  have hstep : (0 : ℚ) < 10 ^ d.exponent := by positivity
  refine ⟨hwithin, hnear, by omega, by omega, ?_, ?_⟩
  · have hpos : 0 < d.value := by
      refine lt_of_lt_of_le ?_ hwithin.low
      have hsig : (1 : ℚ) ≤ x.significand := by exact_mod_cast Binary.significand_pos hz
      have := x.sub_two_le_lowerQuarters
      exact mul_pos (by linarith) (by positivity)
    have : (0 : ℚ) < d.digits := pos_of_mul_pos_left hpos hstep.le
    exact_mod_cast this
  · have habove : d.value ≤ 10 ^ top + 10 ^ d.exponent := by
      have := (abs_le.mp hnear).2
      linarith
    have hspan : (10 : ℚ) ^ top ≤ 10 ^ 10 * 10 ^ d.exponent := by
      rw [← zpow_natCast, ← zpow_add₀ (by norm_num)]
      exact zpow_le_zpow_right₀ hten.le (by push_cast; omega)
    have : (d.digits : ℚ) ≤ (10 ^ 10 + 1 : ℕ) := by
      rw [← mul_le_mul_iff_left₀ hstep]
      push_cast
      unfold Decimal.value at habove
      linarith
    exact_mod_cast this

end TeachPendant.Number
