import TeachPendant.Proofs.Document.JsonNumber
import TeachPendant.Proofs.Document.TomlQuoted

namespace TeachPendant

open Number

namespace TomlReader

open JsonReader (isDigit digitValue isDigit_digitChar digitValue_digitChar)

variable {c : Char} {cs ds rest : List Char} {d : Document} {n : ℕ}

theorem isDigit_of_mem_digitChars (h : c ∈ digitChars n) : isDigit c = true := by
  rw [← map_digitChar_digitsOf] at h
  obtain ⟨d, hd, rfl⟩ := List.mem_map.mp h
  exact isDigit_digitChar (lt_ten_of_mem_digitsOf hd)

theorem ne_of_isDigit {b : Char} (h : isDigit c = true) (hb : isDigit b = false) : c ≠ b := by
  rintro rfl
  rw [h] at hb
  cases hb

/-- A line of digits has nothing but digits before its end. -/
theorem getElem?_line (hd : ∀ c ∈ ds, isDigit c = true) {k : ℕ}
    (h : ((ds ++ '\n' :: rest).take k).all isDigit = true) {b : Char} (hb : isDigit b = false)
    (hbreak : b ≠ '\n') : (ds ++ '\n' :: rest)[k]? ≠ some b := by
  intro hk
  rcases Nat.lt_trichotomy k ds.length with hlt | rfl | hgt
  · rw [List.getElem?_append_left hlt] at hk
    exact ne_of_isDigit (hd b (List.mem_of_getElem? hk)) hb rfl
  · rw [List.getElem?_append_right (Nat.le_refl _), Nat.sub_self] at hk
    exact hbreak (Option.some.inj hk).symm
  · have hmem : '\n' ∈ (ds ++ '\n' :: rest).take k := by
      rw [List.take_append, List.take_of_length_le (by omega)]
      obtain ⟨j, hj⟩ : ∃ j, k - ds.length = j + 1 := ⟨k - ds.length - 1, by omega⟩
      rw [hj, List.take_succ_cons]
      exact List.mem_append_right _ List.mem_cons_self
    cases List.all_eq_true.mp h _ hmem

theorem not_beginsDate (hd : ∀ c ∈ ds, isDigit c = true) : beginsDate (ds ++ '\n' :: rest) = false := by
  rw [beginsDate, Bool.and_eq_false_imp]
  intro h
  exact beq_false_of_ne (getElem?_line hd h rfl (by decide))

theorem not_beginsTime (hd : ∀ c ∈ ds, isDigit c = true) : beginsTime (ds ++ '\n' :: rest) = false := by
  rw [beginsTime, Bool.and_eq_false_imp]
  intro h
  exact beq_false_of_ne (getElem?_line hd h rfl (by decide))

theorem separated_digits (hd : ∀ c ∈ ds, isDigit c = true) (hne : ds ≠ []) (after : Bool) :
    separated after ds = true := by
  induction ds generalizing after with
  | nil => exact absurd rfl hne
  | cons c ds ih =>
    obtain ⟨hc, hds⟩ := List.forall_mem_cons.mp hd
    rw [separated, if_neg (ne_of_isDigit hc rfl)]
    cases ds with
    | nil => rfl
    | cons d ds => exact ih hds (List.cons_ne_nil _ _) true

theorem digits_line (rest : List Char) (hd : ∀ c ∈ ds, isDigit c = true) (hne : ds ≠ []) :
    digits isDigit (ds ++ '\n' :: rest) = some (ds, '\n' :: rest) := by
  have hrun : ∀ c ∈ ds, (isDigit c || c == '_') = true := fun c hc => by rw [hd c hc, Bool.true_or]
  have hfilter : ds.filter (· != '_') = ds := List.filter_eq_self.mpr fun c hc =>
    bne_iff_ne.mpr (ne_of_isDigit (hd c hc) rfl)
  have hstop : (isDigit '\n' || '\n' == '_') = false := rfl
  simp only [digits, List.takeWhile_append_of_pos hrun, List.dropWhile_append_of_pos hrun,
    List.takeWhile_cons, List.dropWhile_cons, hstop, Bool.false_eq_true, if_false, List.append_nil,
    separated_digits hd hne, if_true, hfilter]

theorem numberOf_digitChars (hn : n < 2 ^ 63) :
    numberOf ⟨false, (digitChars n).map digitValue, none, none⟩ = some (.natural n) := by
  have hwhole : Numeral.isWhole ⟨false, (digitChars n).map digitValue, none, none⟩ = true := rfl
  have hvalue : Numeral.natural ⟨false, (digitChars n).map digitValue, none, none⟩ = n :=
    appendDigits_digitsOf n
  rw [numberOf, if_pos hwhole, hvalue, integerOf, if_neg Bool.false_ne_true, if_pos hn]
  rfl

/-- Digits that do not begin with a zero, or only a zero. -/
theorem decimal_line (hwhole : ds = ['0'] ∨ ∃ c cs, ds = c :: cs ∧ c ≠ '0')
    (hd : ∀ c ∈ ds, isDigit c = true) : decimal (ds ++ '\n' :: rest) =
      (numberOf ⟨false, ds.map digitValue, none, none⟩).map fun d => (d, '\n' :: rest) := by
  obtain rfl | ⟨c, cs, rfl, hzero⟩ := hwhole
  · rfl
  · have hc := hd c List.mem_cons_self
    have hdigits := digits_line rest hd (List.cons_ne_nil _ _)
    rw [List.cons_append] at hdigits ⊢
    have hsign : signPart (c :: (cs ++ '\n' :: rest)) = (false, c :: (cs ++ '\n' :: rest)) := by
      unfold signPart
      split
      · next heq => cases heq; cases hc
      · next heq => cases heq; cases hc
      · rfl
    simp only [decimal, hsign]
    split
    · next heq => exact absurd (List.cons_eq_cons.mp heq).1 (ne_of_isDigit hc rfl)
    · next heq => exact absurd (List.cons_eq_cons.mp heq).1 (ne_of_isDigit hc rfl)
    · split
      · next heq => exact absurd (List.cons_eq_cons.mp heq).1 hzero
      · have hfraction : fractionPart ('\n' :: rest) = some (none, '\n' :: rest) := rfl
        have hexponent : exponentPart ('\n' :: rest) = some (none, '\n' :: rest) := rfl
        simp only [hdigits, Option.bind_eq_bind, Option.bind_some, hfraction, hexponent]
        cases numberOf ⟨false, (c :: cs).map digitValue, none, none⟩ <;> rfl

theorem number_natural (hn : n < 2 ^ 63) (rest : List Char) :
    number (digitChars n ++ '\n' :: rest) = some (.natural n, '\n' :: rest) := by
  have hd : ∀ c ∈ digitChars n, isDigit c = true := fun c => isDigit_of_mem_digitChars
  have hwhole : digitChars n = ['0'] ∨ ∃ c cs, digitChars n = c :: cs ∧ c ≠ '0' := by
    rw [← map_digitChar_digitsOf]
    rcases Nat.eq_zero_or_pos n with rfl | hpos
    · exact .inl rfl
    · obtain ⟨d, es, hds, hne⟩ := exists_digitsOf_eq_cons hpos
      refine .inr ⟨_, _, by rw [hds, List.map_cons], ?_⟩
      have hlt : d < 10 := lt_ten_of_mem_digitsOf (by rw [hds]; exact List.mem_cons_self)
      have hchars : ∀ d < 10, d ≠ 0 → d.digitChar ≠ '0' := by decide
      exact hchars d hlt hne
  have hdecimal : decimal (digitChars n ++ '\n' :: rest) = some (.natural n, '\n' :: rest) := by
    rw [decimal_line hwhole hd, numberOf_digitChars hn]
    rfl
  -- a zero in front would be followed by the letter of another base
  have hbase (b : Char) (more : List Char) (heq : digitChars n ++ '\n' :: rest = '0' :: b :: more) :
      b = '\n' := by
    obtain hzero | ⟨c, cs, hcs, hne⟩ := hwhole
    · rw [hzero] at heq
      exact (List.cons_eq_cons.mp (List.cons_eq_cons.mp heq).2).1.symm
    · rw [hcs] at heq
      exact absurd (List.cons_eq_cons.mp heq).1 hne
  rw [number, not_beginsDate hd, not_beginsTime hd, if_neg Bool.false_ne_true,
    if_neg Bool.false_ne_true, hdecimal]
  all_goals exact fun more heq => absurd (hbase _ more heq) (by decide)

theorem value_of_head (hc : c ∉ ['t', 'f', '[', '{']) (fuel depth : ℕ) (cs : List Char) :
    value (fuel + 1) depth (c :: cs) =
      if c = '"' ∨ c = '\'' then (text? (c :: cs)).map fun (s, rest) => (.value (.text s), rest)
      else (number (c :: cs)).map fun (d, rest) => (.value d, rest) := by
  simp only [List.mem_cons, List.not_mem_nil, or_false, not_or] at hc
  obtain ⟨ht, hf, hbracket, hbrace⟩ := hc
  rw [value]
  · exact fun _ heq _ => ht heq
  · exact fun _ heq _ => hf heq
  · exact hbracket
  · exact hbrace

/-- The values that are written as such. -/
inductive Leaf : Document → Prop
  | bool (b : Bool) : Leaf (.bool b)
  | natural {n : ℕ} (small : n < 2 ^ 63) : Leaf (.natural n)
  | text (s : String) : Leaf (.text s)

theorem exists_text_eq_cons (cs : List Char) :
    ∃ c more, TomlText.text cs = c :: more ∧ (c = '"' ∨ c = '\'') := by
  unfold TomlText.text
  dsimp only
  split_ifs <;> exact ⟨_, _, rfl, by decide⟩

theorem Leaf.exists_eq_cons (h : Leaf d) : ∃ c cs, TomlText.leaf d = c :: cs ∧ isBlank c = false := by
  cases h with
  | bool b => cases b <;> exact ⟨_, _, rfl, rfl⟩
  | @natural n small =>
    obtain ⟨c, cs, hcs⟩ := List.exists_cons_of_ne_nil (l := digitChars n) Nat.toDigits_ne_nil
    have hc : isDigit c = true := isDigit_of_mem_digitChars (by rw [hcs]; exact List.mem_cons_self)
    refine ⟨c, cs, hcs, ?_⟩
    rw [isBlank, beq_false_of_ne (ne_of_isDigit hc rfl), beq_false_of_ne (ne_of_isDigit hc rfl),
      Bool.or_false]
  | text s =>
    obtain ⟨c, cs, hcs, hquote⟩ := exists_text_eq_cons s.toList
    exact ⟨c, cs, hcs, by obtain rfl | rfl := hquote <;> rfl⟩

theorem value_leaf (h : Leaf d) (fuel depth : ℕ) (rest : List Char) :
    value (fuel + 1) depth (TomlText.leaf d ++ '\n' :: rest) = some (.value d, '\n' :: rest) := by
  cases h with
  | bool b => cases b <;> rfl
  | @natural n small =>
    have hnumber := number_natural small rest
    have hleaf : TomlText.leaf (.natural n) = digitChars n := rfl
    obtain ⟨c, cs, hcs⟩ := List.exists_cons_of_ne_nil (l := digitChars n) Nat.toDigits_ne_nil
    have hc : isDigit c = true := isDigit_of_mem_digitChars (by rw [hcs]; exact List.mem_cons_self)
    have hhead : c ∉ ['t', 'f', '[', '{'] := by
      intro hmem
      simp only [List.mem_cons, List.not_mem_nil, or_false] at hmem
      obtain rfl | rfl | rfl | rfl := hmem <;> cases hc
    have hquote : ¬ (c = '"' ∨ c = '\'') := by
      rintro (rfl | rfl) <;> cases hc
    rw [hcs, List.cons_append] at hnumber
    rw [hleaf, hcs, List.cons_append, value_of_head hhead, if_neg hquote, hnumber]
    rfl
  | text s =>
    have htext := TomlText.text?_text s.toList ('\n' :: rest) (by simp) (by simp)
    obtain ⟨c, cs, hcs, hquote⟩ := exists_text_eq_cons s.toList
    have hhead : c ∉ ['t', 'f', '[', '{'] := by
      obtain rfl | rfl := hquote <;> decide
    rw [hcs, List.cons_append] at htext
    rw [TomlText.leaf, hcs, List.cons_append, value_of_head hhead, if_pos hquote, htext,
      String.ofList_toList]
    rfl

end TomlReader

end TeachPendant
