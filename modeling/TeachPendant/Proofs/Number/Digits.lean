import TeachPendant.Number.Shortest
import TeachPendant.Number.Text

namespace TeachPendant.Number

/-- The decimal digits of a number, the first one first. -/
def digitsOf (n : Nat) : List Nat := (digitChars n).map fun c => c.toNat - 48

/-- A number with further digits written behind it. -/
def appendDigits (s : Nat) (ds : List Nat) : Nat := ds.foldl (fun s d => s * 10 + d) s

theorem toNat_digitChar {d : Nat} (h : d < 10) : d.digitChar.toNat - 48 = d := by
  rw [Nat.toNat_digitChar_of_lt_ten h]
  omega

theorem digitsOf_of_lt {n : Nat} (h : n < 10) : digitsOf n = [n] := by
  rw [digitsOf, digitChars, Nat.toDigits_of_lt_base h, List.map_singleton, toNat_digitChar h]

theorem digitsOf_of_le {n : Nat} (h : 10 ≤ n) : digitsOf n = digitsOf (n / 10) ++ [n % 10] := by
  rw [digitsOf, digitChars, Nat.toDigits_of_base_le (by decide) h, List.map_append,
    List.map_singleton, toNat_digitChar (Nat.mod_lt n (by decide))]
  rfl

theorem length_digitsOf (n : Nat) : (digitsOf n).length = digitCount n := List.length_map _

theorem length_digitsOf_pos (n : Nat) : 0 < (digitsOf n).length := by
  rw [length_digitsOf]
  exact Nat.length_toDigits_pos

theorem lt_ten_of_mem_digitsOf {n d : Nat} (h : d ∈ digitsOf n) : d < 10 := by
  induction n using Nat.strongRecOn with
  | ind n ih =>
    rcases Nat.lt_or_ge n 10 with hn | hn
    · rw [digitsOf_of_lt hn, List.mem_singleton] at h
      omega
    · rw [digitsOf_of_le hn, List.mem_append, List.mem_singleton] at h
      rcases h with h | h
      · exact ih (n / 10) (by omega) h
      · omega

/-- Only zero is written with a leading zero. -/
theorem exists_digitsOf_eq_cons {n : Nat} (hn : 0 < n) : ∃ d ds, digitsOf n = d :: ds ∧ d ≠ 0 := by
  induction n using Nat.strongRecOn with
  | ind n ih =>
    rcases Nat.lt_or_ge n 10 with hlt | hge
    · exact ⟨n, [], digitsOf_of_lt hlt, by omega⟩
    · obtain ⟨d, ds, h, hd⟩ := ih (n / 10) (by omega) (by omega)
      exact ⟨d, ds ++ [n % 10], by rw [digitsOf_of_le hge, h, List.cons_append], hd⟩

theorem map_digitChar_digitsOf (n : Nat) : (digitsOf n).map Nat.digitChar = digitChars n := by
  induction n using Nat.strongRecOn with
  | ind n ih =>
    rcases Nat.lt_or_ge n 10 with hn | hn
    · rw [digitsOf_of_lt hn, digitChars, Nat.toDigits_of_lt_base hn, List.map_singleton]
    · rw [digitsOf_of_le hn, List.map_append, ih (n / 10) (by omega), digitChars, digitChars,
        Nat.toDigits_of_base_le (by decide) hn, List.map_singleton]

theorem appendDigits_append (s : Nat) (ds es : List Nat) :
    appendDigits s (ds ++ es) = appendDigits (appendDigits s ds) es := List.foldl_append

theorem appendDigits_digitsOf (n : Nat) : appendDigits 0 (digitsOf n) = n := by
  induction n using Nat.strongRecOn with
  | ind n ih =>
    rcases Nat.lt_or_ge n 10 with hn | hn
    · simp [digitsOf_of_lt hn, appendDigits]
    · rw [digitsOf_of_le hn, appendDigits_append, ih (n / 10) (by omega)]
      simp only [appendDigits, List.foldl_cons, List.foldl_nil]
      omega

theorem appendDigits_zeros (s k : Nat) : appendDigits s (List.replicate k 0) = s * 10 ^ k := by
  induction k generalizing s with
  | zero => simp [appendDigits]
  | succ k ih =>
    have hstep : appendDigits s (0 :: List.replicate k 0) =
        appendDigits (s * 10) (List.replicate k 0) := rfl
    rw [List.replicate_succ, hstep, ih, Nat.pow_succ', Nat.mul_assoc]

theorem le_appendDigits (s : Nat) (ds : List Nat) : s ≤ appendDigits s ds := by
  induction ds generalizing s with
  | nil => exact Nat.le_refl s
  | cons d ds ih =>
    have hstep : s * 10 + d ≤ appendDigits s (d :: ds) := ih (s * 10 + d)
    omega

end TeachPendant.Number
