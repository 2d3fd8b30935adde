import Mathlib.Tactic.LinearCombination
import TeachPendant.Proofs.Number.DecimalReading

namespace TeachPendant.Number

namespace Midpoint

/-- Two fractions `m / d` around a third one, the first one not above it. -/
structure Bracket where
  d₀ : ℕ
  m₀ : ℕ
  d₁ : ℕ
  m₁ : ℕ

def encloses (a b : ℕ) (v : Bracket) : Bool :=
  Nat.ble (v.m₀ * b) (v.d₀ * a) && Nat.ble (v.d₁ * a) (v.m₁ * b) &&
    Nat.beq (v.m₁ * v.d₀) (v.m₀ * v.d₁ + 1)

/-- A fraction nearer to `a / b` than the two around it taken together is a multiple of one of them,
unless its denominator reaches that of their mediant. -/
theorem eq_multiple_of_encloses {a b d m : ℕ} {v : Bracket} (hv : encloses a b v = true)
    (hpos : 0 < d) (hd : d < v.d₀ + v.d₁)
    (hnear : |(d * a : ℤ) - m * b| < (v.d₀ * a - v.m₀ * b) + (v.m₁ * b - v.d₁ * a)) :
    (∃ i, d = i * v.d₀ ∧ m = i * v.m₀) ∨ ∃ i, d = i * v.d₁ ∧ m = i * v.m₁ := by
  simp only [encloses, Bool.and_eq_true, Nat.ble_eq, Nat.beq_eq] at hv
  obtain ⟨⟨hlow, hhigh⟩, hdet⟩ := hv
  obtain ⟨d₀, m₀, d₁, m₁⟩ := v
  dsimp only at *
  have hlow : (0 : ℤ) ≤ d₀ * a - m₀ * b := sub_nonneg.mpr (by exact_mod_cast hlow)
  have hhigh : (0 : ℤ) ≤ m₁ * b - d₁ * a := sub_nonneg.mpr (by exact_mod_cast hhigh)
  have hdet : (m₁ * d₀ : ℤ) - m₀ * d₁ = 1 := by
    have : (m₁ * d₀ : ℤ) = m₀ * d₁ + 1 := by exact_mod_cast hdet
    linarith
  -- The fraction in the basis of the two.
  obtain ⟨i, hi⟩ : ∃ i : ℤ, i = d * m₁ - m * d₁ := ⟨_, rfl⟩
  obtain ⟨j, hj⟩ : ∃ j : ℤ, j = m * d₀ - d * m₀ := ⟨_, rfl⟩
  have hdi : (d : ℤ) = i * d₀ + j * d₁ := by
    rw [hi, hj]
    linear_combination (-d : ℤ) * hdet
  have hmi : (m : ℤ) = i * m₀ + j * m₁ := by
    rw [hi, hj]
    linear_combination (-m : ℤ) * hdet
  have hdiff : (d * a : ℤ) - m * b = i * (d₀ * a - m₀ * b) - j * (m₁ * b - d₁ * a) := by
    rw [hdi, hmi]
    ring
  rw [hdiff] at hnear
  generalize (d₀ * a - m₀ * b : ℤ) = r₀ at hnear hlow
  generalize (m₁ * b - d₁ * a : ℤ) = r₁ at hnear hhigh
  obtain ⟨hbelow, habove⟩ := abs_lt.mp hnear
  have hpos : (0 : ℤ) < d := by exact_mod_cast hpos
  have hd : (d : ℤ) < d₀ + d₁ := by exact_mod_cast hd
  have hd₀ : (0 : ℤ) ≤ d₀ := Int.natCast_nonneg d₀
  have hd₁ : (0 : ℤ) ≤ d₁ := Int.natCast_nonneg d₁
  have hmultiple {n : ℤ} {u w : ℕ} (hn : 0 ≤ n) (hu : (d : ℤ) = n * u) (hw : (m : ℤ) = n * w) :
      ∃ i, d = i * u ∧ m = i * w := by
    lift n to ℕ using hn
    exact ⟨n, by exact_mod_cast hu, by exact_mod_cast hw⟩
  rcases lt_trichotomy i 0 with hineg | rfl | hipos
  · have hi₀ : i * d₀ ≤ 0 := mul_nonpos_of_nonpos_of_nonneg hineg.le hd₀
    have hir : i * r₀ ≤ -1 * r₀ := mul_le_mul_of_nonneg_right (by omega) hlow
    rcases le_or_gt j 0 with hjneg | hjpos
    · have hj₁ : j * d₁ ≤ 0 := mul_nonpos_of_nonpos_of_nonneg hjneg hd₁
      omega
    · have hjr : 1 * r₁ ≤ j * r₁ := mul_le_mul_of_nonneg_right (by omega) hhigh
      omega
  · have hj0 : 0 ≤ j := by
      by_contra hjneg
      have hj₁ : j * d₁ ≤ 0 := mul_nonpos_of_nonpos_of_nonneg (by omega) hd₁
      omega
    exact Or.inr (hmultiple hj0 (by rw [hdi]; ring) (by rw [hmi]; ring))
  · have hi₀ : 1 * (d₀ : ℤ) ≤ i * d₀ := mul_le_mul_of_nonneg_right (by omega) hd₀
    have hir : 1 * r₀ ≤ i * r₀ := mul_le_mul_of_nonneg_right (by omega) hlow
    rcases lt_trichotomy j 0 with hjneg | rfl | hjpos
    · have hjr : j * r₁ ≤ -1 * r₁ := mul_le_mul_of_nonneg_right (by omega) hhigh
      omega
    · exact Or.inl (hmultiple hipos.le (by rw [hdi]; ring) (by rw [hmi]; ring))
    · have hj₁ : 1 * (d₁ : ℤ) ≤ j * d₁ := mul_le_mul_of_nonneg_right (by omega) hd₁
      omega

/-- Whether `d * a` and `m * b` differ by at most one part in `slack`. -/
def near (a b d m : ℕ) : Bool :=
  Nat.ble (slack * (d * a - m * b)) (d * a) && Nat.ble (slack * (m * b - d * a)) (d * a)

section Near

variable {a b d m : ℕ}

theorem near_iff : near a b d m = true ↔ slack * |(d * a : ℤ) - m * b| ≤ d * a := by
  simp only [near, Bool.and_eq_true, Nat.ble_eq]
  have hslack : 0 < slack := by decide
  rcases le_total (m * b) (d * a) with h | h
  · have habs : |(d * a : ℤ) - m * b| = (d * a - m * b : ℕ) := by
      rw [Nat.cast_sub h, abs_of_nonneg (sub_nonneg.mpr (by exact_mod_cast h))]
      push_cast
      rfl
    rw [habs, Nat.sub_eq_zero_of_le h]
    simp only [mul_zero, Nat.zero_le, and_true]
    exact_mod_cast Iff.rfl
  · have habs : |(d * a : ℤ) - m * b| = (m * b - d * a : ℕ) := by
      rw [Nat.cast_sub h, abs_sub_comm, abs_of_nonneg (sub_nonneg.mpr (by exact_mod_cast h))]
      push_cast
      rfl
    rw [habs, Nat.sub_eq_zero_of_le h]
    simp only [mul_zero, Nat.zero_le, true_and]
    exact_mod_cast Iff.rfl

theorem near_of_multiple {i : ℕ} (hi : 0 < i) (h : near a b (i * d) (i * m) = true) :
    near a b d m = true := by
  simp only [near, Bool.and_eq_true, Nat.ble_eq, Nat.mul_assoc, ← Nat.mul_sub,
    Nat.mul_left_comm slack i] at h ⊢
  exact ⟨Nat.le_of_mul_le_mul_left h.1 hi, Nat.le_of_mul_le_mul_left h.2 hi⟩

end Near

/-- Whether a single number, given by its code, is read back from its shortest decimal. -/
def rereads (code : ℕ) : Bool :=
  let x : Single := .ofCode false code
  (x.shortest .toEven).toDouble.convert == x

/-- Whether the numbers on both sides of the midpoint `m * 2 ^ p` are read back. -/
def harmless (p : ℤ) (m : ℕ) : Bool :=
  let code := (p + 150).toNat * 2 ^ 23 + m / 2
  rereads code && rereads (code + 1)

def limit : ℕ := 10 ^ 8

/-- The least `m` of the midpoints `m * 2 ^ p`. -/
def least (p : ℤ) : ℕ := if p = -150 then 1 else 2 ^ 24

/-- No decimal of eight digits, or no midpoint. -/
def skipped (p : ℤ) (d m : ℕ) : Bool :=
  Nat.blt d (10 ^ 7) || Nat.blt m (least p) || Nat.ble (2 ^ 25) m || Nat.beq (m % 2) 0

/-- Whether no multiple of `m / d` is near, and other, and does harm. -/
def multiples (a b : ℕ) (p : ℤ) (d m : ℕ) : Bool :=
  !near a b d m || Nat.beq (d * a) (m * b) || (List.range (limit / d + 1)).all fun i =>
    skipped p (i * d) (i * m) || harmless p (i * m)

/-- How often the fraction of denominator `d'` can be added to that of denominator `d`, where each
time takes `r'` off the distance `r`. -/
def times (d d' r r' : ℕ) : ℕ :=
  let most := (limit - d) / Nat.max d' 1
  bif Nat.beq r' 0 then most else Nat.min (r / r') most

/-- Moves the fractions around `a / b` nearer in turn, until their denominators reach the limit. -/
def narrow (a b : ℕ) : ℕ → Bracket → Bracket
  | 0, v => v
  | fuel + 1, ⟨d₀, m₀, d₁, m₁⟩ =>
    bif Nat.ble limit (d₀ + d₁) then ⟨d₀, m₀, d₁, m₁⟩
    else
      let r₁ := m₁ * b - d₁ * a
      let n := times d₀ d₁ (d₀ * a - m₀ * b) r₁
      let d₀ := d₀ + n * d₁
      let m₀ := m₀ + n * m₁
      let n := times d₁ d₀ r₁ (d₀ * a - m₀ * b)
      narrow a b fuel ⟨d₀, m₀, d₁ + n * d₀, m₁ + n * m₀⟩

def checkBracket (a b : ℕ) (p : ℤ) (v : Bracket) : Bool :=
  encloses a b v && Nat.ble limit (v.d₀ + v.d₁) &&
    Nat.ble (2 ^ 25 * b) ((slack - 1) * (v.d₀ * a - v.m₀ * b + (v.m₁ * b - v.d₁ * a))) &&
    multiples a b p v.d₀ v.m₀ && multiples a b p v.d₁ v.m₁

/-- Nothing is to be looked at where decimals and midpoints are far apart. -/
def checkFraction (a b : ℕ) (p : ℤ) : Bool :=
  Nat.ble (2 * limit * a) (least p * b) || Nat.ble (2 ^ 26 * b) (10 ^ 7 * a) ||
    checkBracket a b p (narrow a b 40 ⟨1, 0, 0, 1⟩)

/-- The fraction `10 ^ k / 2 ^ p`. -/
def numer (k p : ℤ) : ℕ := 10 ^ k.toNat * 2 ^ (-p).toNat

def denom (k p : ℤ) : ℕ := 2 ^ p.toNat * 10 ^ (-k).toNat

def check (k p : ℤ) : Bool :=
  p < -150 || 103 < p || checkFraction (numer k p) (denom k p) p

/-- The power of two below the least decimal of eight digits. -/
def powerBelow (k : ℤ) : ℤ := binaryExponent (10 ^ (k + 7).toNat) (10 ^ (-(k + 7)).toNat)

/-- The midpoints next to decimals of eight digits have one of seven exponents, or the least. -/
def checkPower (k : ℤ) : Bool :=
  check k (-150) && (List.range 7).all fun j => check k (powerBelow k - 25 + j)

theorem checkPower_all : (List.range 102).all (fun i => checkPower (i - 61)) = true := by
  decide +kernel

section Sound

variable {a b d m : ℕ} {p : ℤ}

theorem least_pos (p : ℤ) : 0 < least p := by
  unfold least
  split_ifs <;> decide

theorem skipped_eq_false_iff :
    skipped p d m = false ↔ 10 ^ 7 ≤ d ∧ least p ≤ m ∧ m < 2 ^ 25 ∧ m % 2 = 1 := by
  rw [← Bool.not_eq_true]
  simp only [skipped, Bool.or_eq_true, Nat.blt_eq, Nat.ble_eq, Nat.beq_eq]
  omega

theorem multiples_sound (h : multiples a b p d m = true) {i : ℕ} (hi : 0 < i) (hd : i * d < limit)
    (hpos : 0 < i * d) (hnear : near a b (i * d) (i * m) = true)
    (hskip : skipped p (i * d) (i * m) = false) :
    i * d * a = i * m * b ∨ harmless p (i * m) = true := by
  simp only [multiples, near_of_multiple hi hnear, Bool.not_true, Bool.false_or, Bool.or_eq_true,
    Nat.beq_eq] at h
  rcases h with heq | hall
  · exact Or.inl (by rw [Nat.mul_assoc, heq, Nat.mul_assoc])
  · have hmem : i ∈ List.range (limit / d + 1) := by
      have hdpos : 0 < d := Nat.pos_of_mul_pos_left hpos
      exact List.mem_range.mpr (Nat.lt_succ_of_le ((Nat.le_div_iff_mul_le hdpos).mpr hd.le))
    have := List.all_eq_true.mp hall i hmem
    rw [hskip, Bool.false_or] at this
    exact Or.inr this

theorem checkBracket_sound {v : Bracket} (h : checkBracket a b p v = true) (hpos : 0 < d)
    (hd : d < limit) (hm : m < 2 ^ 25) (hb : 0 < b) (hnear : near a b d m = true)
    (hskip : skipped p d m = false) : d * a = m * b ∨ harmless p m = true := by
  simp only [checkBracket, Bool.and_eq_true, Nat.ble_eq] at h
  obtain ⟨⟨⟨⟨hv, hlimit⟩, hgap⟩, h₀⟩, h₁⟩ := h
  have hclose : |(d * a : ℤ) - m * b| < (v.d₀ * a - v.m₀ * b) + (v.m₁ * b - v.d₁ * a) := by
    have hv' := hv
    simp only [encloses, Bool.and_eq_true, Nat.ble_eq, Nat.beq_eq] at hv'
    obtain ⟨⟨hlow, hhigh⟩, -⟩ := hv'
    have hgap : (2 ^ 25 * b : ℤ) ≤
        (slack - 1 : ℕ) * ((v.d₀ * a - v.m₀ * b) + (v.m₁ * b - v.d₁ * a)) := by
      have := (Nat.cast_le (α := ℤ)).mpr hgap
      push_cast [Nat.cast_sub hlow, Nat.cast_sub hhigh] at this
      exact this
    have hn := near_iff.mp hnear
    have hmb : (m * b : ℤ) < 2 ^ 25 * b := by
      have hb' : (0 : ℤ) < b := by exact_mod_cast hb
      have hm' : (m : ℤ) < 2 ^ 25 := by exact_mod_cast hm
      exact mul_lt_mul_of_pos_right hm' hb'
    have hle := le_abs_self ((d * a : ℤ) - m * b)
    have hslack : (slack : ℤ) = (slack - 1 : ℕ) + 1 := by decide
    rw [hslack] at hn
    have hlt : ((slack - 1 : ℕ) : ℤ) * |(d * a : ℤ) - m * b| <
        (slack - 1 : ℕ) * ((v.d₀ * a - v.m₀ * b) + (v.m₁ * b - v.d₁ * a)) := by linarith
    exact lt_of_mul_lt_mul_left hlt (Int.natCast_nonneg _)
  rcases eq_multiple_of_encloses hv hpos (hd.trans_le hlimit) hclose with
    ⟨i, rfl, rfl⟩ | ⟨i, rfl, rfl⟩
  · exact multiples_sound h₀ (Nat.pos_of_mul_pos_right hpos) hd hpos hnear hskip
  · exact multiples_sound h₁ (Nat.pos_of_mul_pos_right hpos) hd hpos hnear hskip

theorem checkFraction_sound (h : checkFraction a b p = true) (hb : 0 < b)
    (hd : d < limit) (hnear : near a b d m = true) (hskip : skipped p d m = false) :
    d * a = m * b ∨ harmless p m = true := by
  have hn := hnear
  simp only [near, Bool.and_eq_true, Nat.ble_eq] at hn
  obtain ⟨hdlow, hmlow, hmhigh, -⟩ := skipped_eq_false_iff.mp hskip
  have hslack : 2 ≤ slack := by decide
  have hda : d * a ≤ 2 * (m * b) := by
    have := Nat.mul_le_mul_right (d * a - m * b) hslack
    omega
  have hmb : m * b ≤ 2 * (d * a) := by
    have := Nat.mul_le_mul_right (m * b - d * a) hslack
    omega
  simp only [checkFraction, Bool.or_eq_true, Nat.ble_eq] at h
  rcases h with (hfar | hfar) | h
  · have hl : least p * b ≤ m * b := Nat.mul_le_mul_right b hmlow
    have ha : d * a < limit * a := by
      refine Nat.mul_lt_mul_of_pos_right hd (Nat.pos_of_ne_zero ?_)
      rintro rfl
      have hm : 0 < m := lt_of_lt_of_le (least_pos p) hmlow
      have := Nat.mul_pos hm hb
      omega
    rw [Nat.mul_assoc] at hfar
    omega
  · have hm : m * b < 2 ^ 25 * b := Nat.mul_lt_mul_of_pos_right hmhigh hb
    have hd : 10 ^ 7 * a ≤ d * a := Nat.mul_le_mul_right a hdlow
    omega
  · exact checkBracket_sound h (by omega) hd (by omega) hb hnear hskip

end Sound

theorem denom_pos (k p : ℤ) : 0 < denom k p :=
  Nat.mul_pos (Nat.two_pow_pos _) (Nat.pow_pos (by decide))

theorem numer_div_denom (k p : ℤ) : (numer k p : ℚ) / denom k p = 10 ^ k / 2 ^ p := by
  rw [zpow_eq_div (by norm_num) k, zpow_eq_div two_ne_zero p, numer, denom]
  push_cast
  field_simp

/-- `m * 2 ^ p` lies half way between two single numbers. -/
structure Valid (p : ℤ) (m : ℕ) : Prop where
  exponent_low : -150 ≤ p
  exponent_high : p ≤ 103
  low : least p ≤ m
  high : m < 2 ^ 25
  odd : m % 2 = 1

section Decimal

variable {k p : ℤ} {d m : ℕ}

/-- The exponents of the midpoints next to a decimal of eight digits. -/
theorem exponent_of_near (hd : 10 ^ 7 ≤ d) (hd' : d < limit) (hm : Valid p m)
    (hlow : (m : ℚ) * 2 ^ p ≤ 2 * (d * 10 ^ k)) (hhigh : (d : ℚ) * 10 ^ k ≤ 2 * (m * 2 ^ p)) :
    p = -150 ∨ powerBelow k - 25 ≤ p ∧ p < powerBelow k - 18 := by
  have hten : (10 : ℚ) ^ (k + 7) = 10 ^ 7 * 10 ^ k := by
    rw [zpow_add₀ (by norm_num), mul_comm]
    norm_num
  have hnum : 0 < 10 ^ (k + 7).toNat := Nat.pow_pos (by decide)
  have hden : 0 < 10 ^ (-(k + 7)).toNat := Nat.pow_pos (by decide)
  obtain ⟨hbelow, habove⟩ := binaryExponent_bounds hnum hden
  rw [show ((10 ^ (k + 7).toNat : ℕ) : ℚ) / (10 ^ (-(k + 7)).toNat : ℕ) = 10 ^ (k + 7) by
    rw [zpow_eq_div (by norm_num)]; push_cast; rfl, hten] at hbelow habove
  have hkpos : (0 : ℚ) < 10 ^ k := by positivity
  have hppos : (0 : ℚ) < 2 ^ p := by positivity
  have hd : (10 ^ 7 : ℚ) ≤ d := by exact_mod_cast hd
  have hd' : (d : ℚ) < 10 ^ 8 := by exact_mod_cast hd'
  have hm' : (m : ℚ) < 2 ^ 25 := by exact_mod_cast hm.high
  have hone := one_lt_two (α := ℚ)
  refine or_iff_not_imp_left.mpr fun hp => ⟨?_, ?_⟩
  · have hlt : (2 : ℚ) ^ powerBelow k < 2 ^ (p + 26) := by
      rw [zpow_add₀ two_ne_zero]
      calc (2 : ℚ) ^ powerBelow k ≤ 10 ^ 7 * 10 ^ k := hbelow
        _ ≤ d * 10 ^ k := by gcongr
        _ ≤ 2 * (m * 2 ^ p) := hhigh
        _ < 2 * (2 ^ 25 * 2 ^ p) := by gcongr
        _ = 2 ^ p * 2 ^ (26 : ℤ) := by norm_num; ring
    have := (zpow_lt_zpow_iff_right₀ hone).mp hlt
    omega
  · have hleast : (2 ^ 24 : ℚ) ≤ m := by
      have := hm.low
      unfold least at this
      rw [if_neg hp] at this
      exact_mod_cast this
    have hlt : (2 : ℚ) ^ (p + 24) < 2 ^ (powerBelow k + 6) := by
      rw [zpow_add₀ two_ne_zero, show powerBelow k + 6 = powerBelow k + 1 + 5 by ring,
        zpow_add₀ two_ne_zero (powerBelow k + 1)]
      calc (2 : ℚ) ^ p * 2 ^ (24 : ℤ) = 2 ^ 24 * 2 ^ p := by norm_num; ring
        _ ≤ m * 2 ^ p := by gcongr
        _ ≤ 2 * (d * 10 ^ k) := hlow
        _ < 2 * (10 ^ 8 * 10 ^ k) := by gcongr
        _ = 20 * (10 ^ 7 * 10 ^ k) := by ring
        _ < 20 * 2 ^ (powerBelow k + 1) := by gcongr; exact habove
        _ ≤ 2 ^ (powerBelow k + 1) * 2 ^ (5 : ℤ) := by
          rw [mul_comm]
          gcongr
          norm_num
    have := (zpow_lt_zpow_iff_right₀ hone).mp hlt
    omega

theorem check_of_exponent (hk : -61 ≤ k) (hk' : k ≤ 40)
    (hp : p = -150 ∨ powerBelow k - 25 ≤ p ∧ p < powerBelow k - 18) : check k p = true := by
  have hmem : (k + 61).toNat ∈ List.range 102 := List.mem_range.mpr (by omega)
  have hpower := List.all_eq_true.mp checkPower_all _ hmem
  rw [show ((k + 61).toNat : ℤ) - 61 = k by omega, checkPower, Bool.and_eq_true] at hpower
  obtain ⟨hleast, hall⟩ := hpower
  rcases hp with rfl | ⟨hlow, hhigh⟩
  · exact hleast
  · have hmem : (p - (powerBelow k - 25)).toNat ∈ List.range 7 := List.mem_range.mpr (by omega)
    have hj := List.all_eq_true.mp hall _ hmem
    rwa [show powerBelow k - 25 + ((p - (powerBelow k - 25)).toNat : ℤ) = p by omega] at hj

/-- A decimal of eight digits next to a midpoint is the midpoint, or does no harm. Decimals near
midpoints approximate a fraction of powers, so they are multiples of the two fractions of least
denominators around it, and these have been looked at. -/
theorem eq_or_harmless_of_near (hk : -61 ≤ k) (hk' : k ≤ 40) (hd : 10 ^ 7 ≤ d) (hd' : d < 10 ^ 8)
    (hm : Valid p m)
    (hnear : slack * |(d : ℚ) * 10 ^ k - m * 2 ^ p| ≤ d * 10 ^ k) :
    (d : ℚ) * 10 ^ k = m * 2 ^ p ∨ harmless p m = true := by
  have hslack : (2 : ℚ) ≤ slack := by norm_num [slack]
  have habs := abs_nonneg ((d : ℚ) * 10 ^ k - m * 2 ^ p)
  have hleast : 2 * |(d : ℚ) * 10 ^ k - m * 2 ^ p| ≤ d * 10 ^ k := by nlinarith
  obtain ⟨hlow, hhigh⟩ := abs_le.mp ((le_div_iff₀' two_pos).mpr hleast)
  have hcheck := check_of_exponent hk hk'
    (exponent_of_near hd hd' hm (by linarith) (by linarith))
  have hb := denom_pos k p
  have hb' : (0 : ℚ) < denom k p := by exact_mod_cast hb
  have hscale : (0 : ℚ) < 2 ^ p / denom k p := by positivity
  have hda : (d : ℚ) * 10 ^ k = (d * numer k p) * (2 ^ p / denom k p) := by
    have hten : (10 : ℚ) ^ k = numer k p / denom k p * 2 ^ p := by
      rw [numer_div_denom, div_mul_cancel₀ _ (by positivity)]
    rw [hten]
    ring
  have hmb : (m : ℚ) * 2 ^ p = (m * denom k p) * (2 ^ p / denom k p) := by
    field_simp
  rw [hda, hmb, ← sub_mul, abs_mul, abs_of_pos hscale, ← mul_assoc,
    mul_le_mul_iff_left₀ hscale] at hnear
  have hnear : near (numer k p) (denom k p) d m = true := near_iff.mpr (by exact_mod_cast hnear)
  have hskip := skipped_eq_false_iff.mpr ⟨hd, hm.low, hm.high, hm.odd⟩
  simp only [check, Bool.or_eq_true, decide_eq_true_eq] at hcheck
  have hfraction := hcheck.resolve_left (by have := hm.exponent_low; have := hm.exponent_high; omega)
  rcases checkFraction_sound hfraction hb hd' hnear hskip with heq | h
  · left
    rw [hda, hmb]
    congr 1
    exact_mod_cast heq
  · exact Or.inr h

end Decimal

end Midpoint

end TeachPendant.Number
