import TeachPendant.Proofs.Number.Digits
import TeachPendant.Proofs.Number.Reread

namespace TeachPendant.Number

/-- No digit is left over while the number fits the significand. -/
theorem absorb_eq {s : ℕ} {ds : List ℕ} (h : appendDigits s ds ≤ significandLimit) :
    absorb s ds = (appendDigits s ds, []) := by
  induction ds generalizing s with
  | nil => rfl
  | cons d ds ih =>
    have hstep : appendDigits (s * 10 + d) ds ≤ significandLimit := h
    have hfits := (le_appendDigits (s * 10 + d) ds).trans hstep
    rw [absorb, if_neg (not_lt.mpr hfits), ih hstep]
    rfl

namespace Numeral

/-- All digits of a numeral, without regard to the point. -/
def digits (n : Numeral) : List ℕ := n.whole ++ n.fraction.getD []

/-- The power of ten that the last digit counts for. -/
def lastPlace (n : Numeral) : ℤ := n.exponent.getD 0 - (n.fraction.getD []).length

theorem parts_eq {n : Numeral} (h : appendDigits 0 n.digits ≤ significandLimit) :
    n.parts = (appendDigits 0 n.digits, -((n.fraction.getD []).length : ℤ)) := by
  rw [digits, appendDigits_append] at h ⊢
  have hw := absorb_eq ((le_appendDigits _ _).trans h)
  have hf := absorb_eq h
  simp [parts, hw, hf]

theorem clampExponent_eq {e : ℤ} (h : e.natAbs < 2 ^ 31) : clampExponent e = e := by
  unfold clampExponent
  omega

theorem toDouble?_eq {n : Numeral} (hs : appendDigits 0 n.digits ≤ significandLimit)
    (hw : (n.exponent.getD 0).natAbs < 2 ^ 10) (hl : n.lastPlace.natAbs < 2 ^ 10) :
    n.toDouble? = (scale 20 (.ofNat (appendDigits 0 n.digits)) n.lastPlace).map
      fun x => if n.negative then x.neg else x := by
  unfold lastPlace at hl
  have hc : clampExponent (-((n.fraction.getD []).length : ℤ)) =
      -((n.fraction.getD []).length : ℤ) := clampExponent_eq (by omega)
  have hsum : -((n.fraction.getD []).length : ℤ) + n.exponent.getD 0 = n.lastPlace := by
    unfold lastPlace
    omega
  rw [toDouble?, parts_eq hs]
  simp only []
  rw [if_pos (by omega), hc, hsum, clampExponent_eq (by unfold lastPlace; omega)]

end Numeral

theorem scale_of_nonneg {x : Double} {e : ℤ} (steps : ℕ) (hlow : 0 ≤ e) (hhigh : e ≤ 308)
    (h : (x.mul (powerOfTen e.toNat)).isInfinite = false) :
    scale (steps + 1) x e = some (x.mul (powerOfTen e.toNat)) := by
  simp [scale, hlow, hhigh, h]

theorem scale_of_neg {x : Double} {e : ℤ} (steps : ℕ) (hlow : -308 ≤ e) (hhigh : e < 0) :
    scale (steps + 1) x e = some (x.div (powerOfTen (-e).toNat)) := by
  rw [scale, if_neg (not_le.mpr hhigh), if_pos hlow]

namespace Decimal

/-- The numeral of a decimal in JSON: written out while the exponent of its first digit is small,
with one digit before the point otherwise. -/
def numeral (d : Decimal) (negative : Bool) : Numeral :=
  let ds := digitsOf d.digits
  let places := (-d.exponent).toNat
  if plainExponents (d.exponent + digitCount d.digits - 1) then
    if 0 ≤ d.exponent then ⟨negative, ds ++ List.replicate d.exponent.toNat 0, some [0], none⟩
    else if places < ds.length then
      ⟨negative, ds.take (ds.length - places), some (ds.drop (ds.length - places)), none⟩
    else ⟨negative, [0], some (List.replicate (places - ds.length) 0 ++ ds), none⟩
  else
    ⟨negative, ds.take 1, if ds.length = 1 then none else some (ds.drop 1),
      some (d.exponent + digitCount d.digits - 1)⟩

variable {d : Decimal}

@[simp] theorem negative_numeral (d : Decimal) (negative : Bool) :
    (d.numeral negative).negative = negative := by
  simp only [numeral]
  split_ifs <;> rfl

theorem isWhole_numeral (d : Decimal) (negative : Bool) : (d.numeral negative).isWhole = false := by
  simp only [numeral]
  split_ifs <;> simp [Numeral.isWhole]

/-- A decimal that is written out without a fraction gets one more digit, a zero. -/
theorem numeral_of_plain (negative : Bool) (hexponent : 0 ≤ d.exponent)
    (hplain : plainExponents (d.exponent + digitCount d.digits - 1) = true) :
    appendDigits 0 (d.numeral negative).digits = d.digits * 10 ^ (d.exponent.toNat + 1) ∧
      (d.numeral negative).lastPlace = -1 ∧ (d.numeral negative).exponent = none := by
  have hdigit (s : ℕ) : appendDigits s [0] = s * 10 := rfl
  rw [numeral, if_pos hplain, if_pos hexponent]
  refine ⟨?_, rfl, rfl⟩
  simp only [Numeral.digits, Option.getD_some]
  rw [appendDigits_append, appendDigits_append, appendDigits_digitsOf, appendDigits_zeros, hdigit]
  ring

theorem numeral_of_fraction (negative : Bool) (hexponent : d.exponent < 0)
    (hplain : plainExponents (d.exponent + digitCount d.digits - 1) = true) :
    appendDigits 0 (d.numeral negative).digits = d.digits ∧
      (d.numeral negative).lastPlace = d.exponent ∧ (d.numeral negative).exponent = none := by
  rw [numeral, if_pos hplain, if_neg (not_le.mpr hexponent)]
  split_ifs with hplaces
  · refine ⟨?_, ?_, rfl⟩
    · rw [Numeral.digits, Option.getD_some, List.take_append_drop, appendDigits_digitsOf]
    · simp only [Numeral.lastPlace, Option.getD_some, Option.getD_none, List.length_drop]
      omega
  · refine ⟨?_, ?_, rfl⟩
    · have hzeros : appendDigits 0 (List.replicate ((-d.exponent).toNat -
          (digitsOf d.digits).length) 0) = 0 := by rw [appendDigits_zeros, zero_mul]
      have hfirst : appendDigits 0 [0] = 0 := rfl
      rw [Numeral.digits, Option.getD_some, appendDigits_append, appendDigits_append, hfirst, hzeros,
        appendDigits_digitsOf]
    · simp only [Numeral.lastPlace, Option.getD_some, Option.getD_none, List.length_append,
        List.length_replicate]
      omega

theorem numeral_of_scientific (negative : Bool)
    (hplain : plainExponents (d.exponent + digitCount d.digits - 1) = false) :
    appendDigits 0 (d.numeral negative).digits = d.digits ∧
      (d.numeral negative).lastPlace = d.exponent ∧
      (d.numeral negative).exponent = some (d.exponent + digitCount d.digits - 1) := by
  have hpos := length_digitsOf_pos d.digits
  have hcount := length_digitsOf d.digits
  rw [numeral, if_neg (by rw [hplain]; exact Bool.false_ne_true)]
  split_ifs with hone
  · refine ⟨?_, ?_, rfl⟩
    · rw [Numeral.digits, Option.getD_none, List.append_nil, List.take_of_length_le (by omega),
        appendDigits_digitsOf]
    · simp only [Numeral.lastPlace, Option.getD_some, Option.getD_none, List.length_nil]
      omega
  · refine ⟨?_, ?_, rfl⟩
    · rw [Numeral.digits, Option.getD_some, List.take_append_drop, appendDigits_digitsOf]
    · simp only [Numeral.lastPlace, Option.getD_some, List.length_drop]
      omega

/-- Numerals of moderate decimals are read exactly as `toDouble` says. -/
theorem Moderate.toDouble?_numeral (h : d.Moderate) (negative : Bool) :
    (d.numeral negative).toDouble? =
      some (if negative then d.toDouble.neg else d.toDouble) := by
  obtain ⟨-, hdigits⟩ := digitCount_bounds h.digits_pos
  have hshort : digitCount d.digits ≤ 11 := by
    refine (Nat.length_toDigits_le_iff (by decide) (by decide)).mpr ?_
    exact h.digits_le.trans_lt (by norm_num)
  have hlow := h.exponent_low
  have hhigh := h.exponent_high
  have hfits : d.digits ≤ significandLimit := h.digits_le.trans (by norm_num [significandLimit])
  cases hplain : plainExponents (d.exponent + digitCount d.digits - 1) with
  | false =>
    obtain ⟨hvalue, hplace, hexponent⟩ := numeral_of_scientific negative hplain
    rw [Numeral.toDouble?_eq (by rwa [hvalue]) (by rw [hexponent, Option.getD_some]; omega)
      (by rw [hplace]; omega), hvalue, hplace, negative_numeral]
    have hfinite := Binary.isInfinite_of_isFinite h.toDouble_finite.1
    unfold toDouble at hfinite ⊢
    rw [hplain] at hfinite ⊢
    simp only [Bool.false_eq_true, if_false] at hfinite ⊢
    rcases le_or_gt 0 d.exponent with hsign | hsign
    · rw [if_pos hsign] at hfinite ⊢
      rw [scale_of_nonneg 19 hsign (by omega) hfinite, Option.map_some]
    · rw [if_neg (not_le.mpr hsign), scale_of_neg 19 (by omega) hsign, Option.map_some]
  | true =>
    rcases le_or_gt 0 d.exponent with hsign | hsign
    · obtain ⟨hvalue, hplace, hexponent⟩ := numeral_of_plain negative hsign hplain
      have hwritten : d.digits * 10 ^ (d.exponent.toNat + 1) ≤ significandLimit := by
        simp only [plainExponents, Bool.and_eq_true, decide_eq_true_eq] at hplain
        calc d.digits * 10 ^ (d.exponent.toNat + 1)
            ≤ 10 ^ digitCount d.digits * 10 ^ (d.exponent.toNat + 1) :=
              Nat.mul_le_mul_right _ hdigits.le
          _ = 10 ^ (digitCount d.digits + (d.exponent.toNat + 1)) := (Nat.pow_add _ _ _).symm
          _ ≤ 10 ^ 14 := Nat.pow_le_pow_right (by decide) (by omega)
          _ ≤ significandLimit := by decide
      rw [Numeral.toDouble?_eq (by rwa [hvalue]) (by rw [hexponent]; decide)
        (by rw [hplace]; decide), hvalue, hplace, negative_numeral,
        scale_of_neg 19 (by decide) (by decide), Option.map_some, toDouble, if_pos hsign,
        if_pos hplain]
      rfl
    · obtain ⟨hvalue, hplace, hexponent⟩ := numeral_of_fraction negative hsign hplain
      rw [Numeral.toDouble?_eq (by rwa [hvalue]) (by rw [hexponent]; decide)
        (by rw [hplace]; omega), hvalue, hplace, negative_numeral,
        scale_of_neg 19 (by omega) hsign, Option.map_some, toDouble, if_neg (not_le.mpr hsign)]

end Decimal

/-- The numeral of a single number's shortest decimal is read as a number that is converted back to
it. -/
theorem exists_toDouble?_shortest {x : Single} (hx : x.isFinite = true) :
    ∃ y : Double, ((x.shortest .toEven).numeral x.negative).toDouble? = some y ∧ y.convert = x := by
  refine ⟨_, ?_, convert_toDouble_shortest hx⟩
  cases hz : x.isZero with
  | true =>
    have hshortest : x.shortest .toEven = ⟨0, 0⟩ := by rw [Binary.shortest, hz, if_pos rfl]
    rw [hshortest]
    cases x.negative <;> decide +kernel
  | false => exact (neighbour_shortest hx hz .toEven).moderate.toDouble?_numeral _

end TeachPendant.Number
