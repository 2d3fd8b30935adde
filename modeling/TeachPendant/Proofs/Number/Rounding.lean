import Mathlib.Algebra.Order.Field.Power
import Mathlib.Algebra.Order.Field.Rat
import Mathlib.Tactic.FieldSimp
import Mathlib.Tactic.Linarith
import Mathlib.Tactic.Positivity
import Mathlib.Tactic.Ring
import TeachPendant.Number.Format

namespace TeachPendant.Number

/-- A power as the quotient of the two natural powers that stand for it in a fraction. -/
theorem zpow_eq_div {b : ℚ} (hb : b ≠ 0) (e : ℤ) : b ^ e = b ^ e.toNat / b ^ (-e).toNat := by
  rw [eq_div_iff (pow_ne_zero _ hb), ← zpow_natCast, ← zpow_natCast, ← zpow_add₀ hb]
  congr 1
  omega

/-- A fraction in units of `2 ^ q`. -/
theorem div_zpow_eq (num den : ℕ) (q : ℤ) :
    ((num * 2 ^ (-q).toNat : ℕ) : ℚ) / (den * 2 ^ q.toNat : ℕ) = num / den / 2 ^ q := by
  rw [zpow_eq_div two_ne_zero]
  push_cast
  field_simp

theorem roundDiv_bounds (num : ℕ) {den : ℕ} (hd : 0 < den) :
    2 * num ≤ (2 * roundDiv num den + 1) * den ∧ 2 * roundDiv num den * den ≤ 2 * num + den := by
  have hdiv : den * (num / den) + num % den = num := Nat.div_add_mod num den
  have hmod : num % den < den := Nat.mod_lt num hd
  unfold roundDiv
  dsimp only
  generalize num / den = q at hdiv ⊢
  generalize num % den = r at hdiv hmod ⊢
  split_ifs with hlow hhigh
  · constructor <;> nlinarith
  · constructor <;> nlinarith
  · rcases Nat.mod_two_eq_zero_or_one q with h | h <;> rw [h] <;> constructor <;> nlinarith

theorem roundDiv_eq {num den s : ℕ} (hd : 0 < den) (hlow : 2 * s * den ≤ 2 * num + den)
    (hhigh : 2 * num ≤ (2 * s + 1) * den)
    (htie : s % 2 = 0 ∨ 2 * s * den < 2 * num + den ∧ 2 * num < (2 * s + 1) * den) :
    roundDiv num den = s := by
  have hdiv : den * (num / den) + num % den = num := Nat.div_add_mod num den
  have hmod : num % den < den := Nat.mod_lt num hd
  unfold roundDiv
  dsimp only
  generalize num / den = q at hdiv ⊢
  generalize num % den = r at hdiv hmod ⊢
  -- The quotient is the number sought or the one below it.
  have hq : q ≤ s := by
    by_contra h
    have : den * (s + 1) ≤ den * q := Nat.mul_le_mul_left den (by omega)
    nlinarith
  have hs : s ≤ q + 1 := by
    by_contra h
    have : den * (q + 2) ≤ den * s := Nat.mul_le_mul_left den (by omega)
    nlinarith
  obtain rfl | rfl : s = q ∨ s = q + 1 := by omega
  · have hr : 2 * r ≤ den := by nlinarith
    split_ifs with h h'
    · rfl
    · omega
    · have heven : s % 2 = 0 := htie.resolve_right fun ht => by nlinarith [ht.2]
      omega
  · have hr : den ≤ 2 * r := by nlinarith
    split_ifs with h h'
    · omega
    · rfl
    · have heven : (q + 1) % 2 = 0 := htie.resolve_right fun ht => by nlinarith [ht.1]
      omega

section Rational

variable {num den : ℕ} {r : ℚ}

theorem abs_roundDiv_sub_le (hd : 0 < den) (hr : (num : ℚ) / den = r) :
    |(roundDiv num den : ℚ) - r| ≤ 1 / 2 := by
  obtain ⟨hhigh, hlow⟩ := roundDiv_bounds num hd
  have hd : (0 : ℚ) < den := by exact_mod_cast hd
  have hhigh : 2 * (num : ℚ) ≤ (2 * roundDiv num den + 1) * den := by exact_mod_cast hhigh
  have hlow : 2 * (roundDiv num den : ℚ) * den ≤ 2 * num + den := by exact_mod_cast hlow
  rw [div_eq_iff hd.ne'] at hr
  rw [hr] at hhigh hlow
  rw [abs_le]
  constructor <;> nlinarith

theorem roundDiv_eq_of_near (hd : 0 < den) (hr : (num : ℚ) / den = r) {s : ℕ}
    (hlow : s - 1 / 2 ≤ r) (hhigh : r ≤ s + 1 / 2)
    (htie : s % 2 = 0 ∨ s - 1 / 2 < r ∧ r < s + 1 / 2) : roundDiv num den = s := by
  have hd' : (0 : ℚ) < den := by exact_mod_cast hd
  rw [div_eq_iff hd'.ne'] at hr
  refine roundDiv_eq hd ?_ ?_ (htie.imp_right fun ht => ⟨?_, ?_⟩)
  · have : 2 * (s : ℚ) * den ≤ 2 * num + den := by nlinarith
    exact_mod_cast this
  · have : 2 * (num : ℚ) ≤ (2 * s + 1) * den := by nlinarith
    exact_mod_cast this
  · have : 2 * (s : ℚ) * den < 2 * num + den := by nlinarith [ht.1]
    exact_mod_cast this
  · have : 2 * (num : ℚ) < (2 * s + 1) * den := by nlinarith [ht.2]
    exact_mod_cast this

/-- A whole number is not rounded. -/
theorem roundDiv_eq_of_eq (hd : 0 < den) {s : ℕ} (hr : (num : ℚ) / den = s) :
    roundDiv num den = s :=
  roundDiv_eq_of_near hd hr (by linarith) (by linarith) (Or.inr ⟨by linarith, by linarith⟩)

end Rational

theorem binaryExponent_bounds {num den : ℕ} (hn : 0 < num) (hd : 0 < den) :
    (2 : ℚ) ^ binaryExponent num den ≤ num / den ∧
      (num : ℚ) / den < 2 ^ (binaryExponent num den + 1) := by
  have hn' : (0 : ℚ) < num := by exact_mod_cast hn
  have hd' : (0 : ℚ) < den := by exact_mod_cast hd
  have hnlow : (2 : ℚ) ^ (num.log2 : ℤ) ≤ num := by
    rw [zpow_natCast]
    exact_mod_cast Nat.log2_self_le hn.ne'
  have hnhigh : (num : ℚ) < 2 ^ ((num.log2 : ℤ) + 1) := by
    rw [← Nat.cast_succ, zpow_natCast]
    exact_mod_cast Nat.lt_log2_self
  have hdlow : (2 : ℚ) ^ (den.log2 : ℤ) ≤ den := by
    rw [zpow_natCast]
    exact_mod_cast Nat.log2_self_le hd.ne'
  have hdhigh : (den : ℚ) < 2 ^ ((den.log2 : ℤ) + 1) := by
    rw [← Nat.cast_succ, zpow_natCast]
    exact_mod_cast Nat.lt_log2_self
  unfold binaryExponent
  generalize he : (num.log2 : ℤ) - den.log2 = e
  have hpow : (2 : ℚ) ^ (num.log2 : ℤ) = 2 ^ e * 2 ^ (den.log2 : ℤ) := by
    rw [← zpow_add₀ two_ne_zero, ← he]
    congr 1
    omega
  rw [zpow_add₀ two_ne_zero, zpow_one] at hnhigh hdhigh
  -- The test compares the fraction with `2 ^ e`.
  have htest : num * 2 ^ (-e).toNat < den * 2 ^ e.toNat ↔ (num : ℚ) / den < 2 ^ e := by
    rw [div_lt_iff₀ hd', zpow_eq_div two_ne_zero, div_mul_eq_mul_div, lt_div_iff₀ (by positivity),
      mul_comm ((2 : ℚ) ^ e.toNat)]
    exact_mod_cast Iff.rfl
  have hpos : (0 : ℚ) < 2 ^ e := by positivity
  dsimp only
  split_ifs with h
  · rw [htest] at h
    refine ⟨?_, by simpa using h⟩
    rw [zpow_sub₀ two_ne_zero, zpow_one, le_div_iff₀ hd']
    nlinarith
  · rw [htest, not_lt] at h
    refine ⟨h, ?_⟩
    rw [zpow_add₀ two_ne_zero, zpow_one, div_lt_iff₀ hd']
    nlinarith

theorem binaryExponent_eq {num den : ℕ} (hn : 0 < num) (hd : 0 < den) {e : ℤ}
    (hlow : (2 : ℚ) ^ e ≤ num / den) (hhigh : (num : ℚ) / den < 2 ^ (e + 1)) :
    binaryExponent num den = e := by
  obtain ⟨hlow', hhigh'⟩ := binaryExponent_bounds hn hd
  have hle := (zpow_lt_zpow_iff_right₀ (one_lt_two (α := ℚ))).mp (hlow.trans_lt hhigh')
  have hge := (zpow_lt_zpow_iff_right₀ (one_lt_two (α := ℚ))).mp (hlow'.trans_lt hhigh)
  omega

end TeachPendant.Number
