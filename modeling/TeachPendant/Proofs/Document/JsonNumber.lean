import TeachPendant.Document.JsonReader
import TeachPendant.Document.JsonText
import TeachPendant.Proofs.Number.Numeral
import TeachPendant.Saved.Basic

namespace TeachPendant

open Number

namespace Number.Numeral

/-- Numerals that have a text: digits on both sides of a point, and no leading zero. -/
structure Written (n : Numeral) : Prop where
  digits : ∀ d ∈ n.digits, d < 10
  whole : n.whole = [0] ∨ ∃ d ds, n.whole = d :: ds ∧ d ≠ 0
  fraction : n.fraction ≠ some []

def fractionText : Option (List ℕ) → List Char
  | none => []
  | some ds => '.' :: ds.map Nat.digitChar

def exponentText : Option ℤ → List Char
  | none => []
  | some e => 'e' :: (if e < 0 then '-' else '+') :: digitChars e.natAbs

/-- The text of a numeral without its sign. -/
def text (n : Numeral) : List Char :=
  n.whole.map Nat.digitChar ++ fractionText n.fraction ++ exponentText n.exponent

theorem Written.exists_text_eq_cons {n : Numeral} (h : n.Written) :
    ∃ d cs, d < 10 ∧ n.text = d.digitChar :: cs := by
  have hdigits := (List.forall_mem_append.mp h.digits).1
  obtain hw | ⟨d, ds, hw, -⟩ := h.whole
  · exact ⟨0, _, by decide, by rw [text, hw]; rfl⟩
  · exact ⟨d, _, hdigits d (by rw [hw]; exact List.mem_cons_self), by rw [text, hw]; rfl⟩

end Number.Numeral

namespace JsonReader

variable {rest : List Char}

/-- What no digit stands at the head of. -/
def Undigited (rest : List Char) : Prop := ∀ c ∈ rest.head?, isDigit c = false

/-- What can follow a numeral without belonging to it. -/
def Ends (rest : List Char) : Prop :=
  ∀ c ∈ rest.head?, isDigit c = false ∧ c ≠ '.' ∧ c ≠ 'e' ∧ c ≠ 'E'

theorem Ends.undigited (h : Ends rest) : Undigited rest := fun c hc => (h c hc).1

theorem undigited_cons {c : Char} (h : isDigit c = false) : Undigited (c :: rest) := by
  intro b hb
  obtain rfl : c = b := by simpa using hb
  exact h

theorem isDigit_digitChar {d : ℕ} (h : d < 10) : isDigit d.digitChar = true := by
  have hall : ∀ d < 10, isDigit d.digitChar = true := by decide
  exact hall d h

theorem digitValue_digitChar {d : ℕ} (h : d < 10) : digitValue d.digitChar = d :=
  toNat_digitChar h

theorem digitRun_append {ds : List ℕ} (hd : ∀ d ∈ ds, d < 10) (hr : Undigited rest) :
    digitRun (ds.map Nat.digitChar ++ rest) = (ds, rest) := by
  have hdigits : ∀ c ∈ ds.map Nat.digitChar, isDigit c = true := by
    intro c hc
    obtain ⟨d, hm, rfl⟩ := List.mem_map.mp hc
    exact isDigit_digitChar (hd d hm)
  have hvalues : (ds.map Nat.digitChar).map digitValue = ds := by
    rw [List.map_map]
    exact (List.map_congr_left fun d hm => digitValue_digitChar (hd d hm)).trans (List.map_id ds)
  have hstop : rest.takeWhile isDigit = [] ∧ rest.dropWhile isDigit = rest := by
    cases rest with
    | nil => exact ⟨rfl, rfl⟩
    | cons c cs =>
      have hc : isDigit c = false := hr c rfl
      simp [hc]
  rw [digitRun, List.takeWhile_append_of_pos hdigits, List.dropWhile_append_of_pos hdigits,
    hstop.1, hstop.2, List.append_nil, hvalues]

theorem wholePart_append {ds : List ℕ} (hd : ∀ d ∈ ds, d < 10)
    (hw : ds = [0] ∨ ∃ e es, ds = e :: es ∧ e ≠ 0) (hr : Undigited rest) :
    wholePart (ds.map Nat.digitChar ++ rest) = some (ds, rest) := by
  have hrun := digitRun_append hd hr
  obtain rfl | ⟨e, es, rfl, he⟩ := hw
  · rw [wholePart, hrun]
    rfl
  · rw [wholePart, hrun]
    split
    · next h => cases h
    · next h =>
      cases h
      exact absurd rfl he
    · rfl

theorem fractionPart_append {fraction : Option (List ℕ)} (hd : ∀ d ∈ fraction.getD [], d < 10)
    (hf : fraction ≠ some []) (hr : Undigited rest) (hp : rest.head? ≠ some '.') :
    fractionPart (Numeral.fractionText fraction ++ rest) = some (fraction, rest) := by
  cases fraction with
  | none =>
    rw [Numeral.fractionText, List.nil_append, fractionPart]
    rintro cs rfl
    exact hp rfl
  | some ds =>
    have hrun : digitRun (ds.map Nat.digitChar ++ rest) = (ds, rest) := digitRun_append hd hr
    cases ds with
    | nil => exact absurd rfl hf
    | cons d ds =>
      rw [Numeral.fractionText, List.cons_append, fractionPart, hrun]

theorem digitRun_digitChars (n : ℕ) (hr : Undigited rest) :
    digitRun (digitChars n ++ rest) = (digitsOf n, rest) := by
  rw [← map_digitChar_digitsOf]
  exact digitRun_append (fun _ => lt_ten_of_mem_digitsOf) hr

theorem exponentPart_append (exponent : Option ℤ) (hr : Ends rest) :
    exponentPart (Numeral.exponentText exponent ++ rest) = some (exponent, rest) := by
  cases exponent with
  | none =>
    cases rest with
    | nil => rfl
    | cons c cs =>
      obtain ⟨-, -, hlower, hupper⟩ := hr c rfl
      simp [Numeral.exponentText, exponentPart, hlower, hupper]
  | some e =>
    have hrun := digitRun_digitChars e.natAbs hr.undigited
    have hvalue : (digitsOf e.natAbs).foldl (fun s d => s * 10 + d) 0 = e.natAbs :=
      appendDigits_digitsOf e.natAbs
    have hpos := length_digitsOf_pos e.natAbs
    generalize digitsOf e.natAbs = ds at hrun hvalue hpos
    cases ds with
    | nil => cases hpos
    | cons d ds =>
      have hsign : e < 0 ∧ -((e.natAbs : ℕ) : ℤ) = e ∨ ¬ e < 0 ∧ ((e.natAbs : ℕ) : ℤ) = e := by omega
      obtain ⟨he, hs⟩ | ⟨he, hs⟩ := hsign
      all_goals
        simp only [Numeral.exponentText, he, if_true, if_false, List.cons_append, exponentPart,
          true_or, signPart, hrun, hvalue, hs, Bool.false_eq_true]

/-- A numeral is read back from its text. -/
theorem numeral_text {n : Numeral} (h : n.Written) (hr : Ends rest) :
    numeral n.negative (n.text ++ rest) = some (n, rest) := by
  have hexponent : Undigited (Numeral.exponentText n.exponent ++ rest) ∧
      (Numeral.exponentText n.exponent ++ rest).head? ≠ some '.' := by
    cases n.exponent with
    | none => exact ⟨hr.undigited, fun hp => (hr '.' hp).2.1 rfl⟩
    | some e => exact ⟨undigited_cons rfl, by simp [Numeral.exponentText]⟩
  have hfraction : Undigited (Numeral.fractionText n.fraction ++
      (Numeral.exponentText n.exponent ++ rest)) := by
    cases n.fraction with
    | none => exact hexponent.1
    | some ds => exact undigited_cons rfl
  have hdigits := List.forall_mem_append.mp h.digits
  rw [numeral, Numeral.text, List.append_assoc, List.append_assoc,
    wholePart_append hdigits.1 h.whole hfraction]
  simp only [Option.bind_eq_bind, Option.bind_some,
    fractionPart_append hdigits.2 h.fraction hexponent.1 hexponent.2, exponentPart_append _ hr]

theorem skipBlanks_cons {c : Char} (h : isBlank c = false) (cs : List Char) :
    skipBlanks (c :: cs) = c :: cs := by
  rw [skipBlanks, List.dropWhile_cons_of_neg]
  rw [h]
  exact Bool.false_ne_true

theorem value_of_digit {c : Char} (h : isDigit c = true) (fuel : ℕ) (cs : List Char) :
    value (fuel + 1) (c :: cs) = (numeral false (c :: cs)).map fun (n, rest) => (numberOf n, rest) := by
  have hblank : isBlank c = false := by
    simp only [isDigit, isBlank, Bool.and_eq_true, decide_eq_true_eq] at h ⊢
    rcases h with ⟨hlow, -⟩
    by_contra hb
    simp only [Bool.not_eq_false, Bool.or_eq_true, beq_iff_eq] at hb
    rcases hb with ((rfl | rfl) | rfl) | rfl <;> revert hlow <;> decide
  rw [value, skipBlanks_cons hblank]
  split
  case h_8 => cases numeral false (c :: cs) <;> rfl
  all_goals
    next heq =>
      cases heq
      exact absurd h (by decide)

theorem value_of_minus (fuel : ℕ) (cs : List Char) :
    value (fuel + 1) ('-' :: cs) = (numeral true cs).map fun (n, rest) => (numberOf n, rest) := by
  simp only [value, skipBlanks_cons (c := '-') rfl]
  cases numeral true cs <;> rfl

/-- A numeral with its sign is read as the value it stands for. -/
theorem value_numeral {n : Numeral} (h : n.Written) (hr : Ends rest) (fuel : ℕ) :
    value (fuel + 1) ((if n.negative then '-' :: n.text else n.text) ++ rest) =
      some (numberOf n, rest) := by
  have hread := numeral_text h hr
  cases hn : n.negative with
  | true =>
    rw [hn] at hread
    rw [if_pos rfl, List.cons_append, value_of_minus, hread, Option.map_some]
  | false =>
    rw [hn] at hread
    obtain ⟨d, cs, hd, htext⟩ := h.exists_text_eq_cons
    rw [if_neg Bool.false_ne_true]
    rw [htext] at hread ⊢
    rw [List.cons_append] at hread ⊢
    rw [value_of_digit (isDigit_digitChar hd), hread, Option.map_some]

end JsonReader

namespace Number

namespace Decimal

variable {d : Decimal}

theorem written_numeral (h : 0 < d.digits ∨ d = ⟨0, 0⟩) (negative : Bool) :
    (d.numeral negative).Written := by
  obtain h | rfl := h
  · obtain ⟨e, es, hds, he⟩ := exists_digitsOf_eq_cons h
    have hdigits : ∀ c ∈ digitsOf d.digits, c < 10 := fun _ => lt_ten_of_mem_digitsOf
    have hzeros (k : ℕ) : ∀ c ∈ List.replicate k 0, c < 10 := by
      intro c hc
      rw [List.eq_of_mem_replicate hc]
      decide
    simp only [numeral]
    split_ifs with hplain hexponent hplaces hone
    · refine ⟨?_, .inr ⟨e, _, by rw [hds, List.cons_append], he⟩, by rintro ⟨⟩⟩
      simp only [Numeral.digits, Option.getD_some, List.forall_mem_append]
      exact ⟨⟨hdigits, hzeros _⟩, by decide⟩
    · refine ⟨?_, .inr ⟨e, es.take (es.length - (-d.exponent).toNat), ?_, he⟩, ?_⟩
      · rwa [Numeral.digits, Option.getD_some, List.take_append_drop]
      · rw [hds, List.length_cons] at hplaces ⊢
        rw [Nat.sub_add_comm (by omega), List.take_succ_cons]
      · have hpos := length_digitsOf_pos d.digits
        rw [Ne, Option.some.injEq, List.drop_eq_nil_iff]
        omega
    · refine ⟨?_, .inl rfl, ?_⟩
      · simp only [Numeral.digits, Option.getD_some, List.forall_mem_append]
        exact ⟨by decide, hzeros _, hdigits⟩
      · simp [hds]
    · refine ⟨?_, .inr ⟨e, [], by rw [hds]; rfl, he⟩, by rintro ⟨⟩⟩
      rw [Numeral.digits, Option.getD_none, List.append_nil]
      exact fun c hc => hdigits c (List.mem_of_mem_take hc)
    · refine ⟨?_, .inr ⟨e, [], by rw [hds]; rfl, he⟩, ?_⟩
      · rwa [Numeral.digits, Option.getD_some, List.take_append_drop]
      · rw [hds, List.length_cons] at hone
        have hrest : es ≠ [] := by
          rintro rfl
          exact hone rfl
        simpa [hds] using hrest
  · exact ⟨by cases negative <;> decide, .inl rfl, by cases negative <;> decide⟩

/-- The text of a decimal is the text of its numeral. -/
theorem text_numeral (d : Decimal) (negative : Bool) : (d.numeral negative).text =
    if plainExponents (d.exponent + digitCount d.digits - 1) then d.positional ['.', '0']
    else d.scientific := by
  have hzero : Nat.digitChar 0 = '0' := rfl
  have hds := (map_digitChar_digitsOf d.digits).symm
  by_cases hplain : plainExponents (d.exponent + digitCount d.digits - 1) = true
  · simp only [numeral, positional, hplain, if_true, hds, List.length_map, zeros]
    split_ifs <;> simp [Numeral.text, Numeral.fractionText, Numeral.exponentText, hzero]
  · obtain ⟨e, es, he⟩ := List.exists_cons_of_length_pos (length_digitsOf_pos d.digits)
    have hcount : digitCount d.digits = es.length + 1 := by
      rw [← length_digitsOf, he, List.length_cons]
    simp only [numeral, scientific, hplain, hds, List.length_map, length_digitsOf]
    generalize d.exponent + digitCount d.digits - 1 = k
    rw [he, hcount]
    cases es <;> simp [Numeral.text, Numeral.fractionText, Numeral.exponentText]

end Decimal

namespace Binary

variable {f : Format} {x : Binary f}

theorem Within.pos {v : ℚ} (hz : x.isZero = false) (h : x.Within v) : 0 < v := by
  have hone : (1 : ℚ) ≤ x.significand := by exact_mod_cast significand_pos hz
  have hlow := x.sub_two_le_lowerQuarters
  exact lt_of_lt_of_le (mul_pos (by linarith) (by positivity)) h.low

theorem search_digits_pos (hz : x.isZero = false) (tie : Tie) (tries : ℕ) (j : ℤ) :
    0 < (x.search tie tries j).digits := by
  induction tries generalizing j with
  | zero =>
    have hpos := significand_pos hz
    rw [search]
    split_ifs
    · exact Nat.mul_pos hpos (Nat.two_pow_pos _)
    · exact Nat.mul_pos hpos (Nat.pow_pos (by decide))
  | succ tries ih =>
    rw [search]
    split
    · next d hd =>
      have hvalue := (onGrid_spec hd).2.1.pos hz
      have hdigits : (0 : ℚ) < d.digits := pos_of_mul_pos_left hvalue (by positivity)
      exact_mod_cast hdigits
    · exact ih _

theorem shortest_digits (x : Binary f) (tie : Tie) :
    0 < (x.shortest tie).digits ∨ x.shortest tie = ⟨0, 0⟩ := by
  unfold shortest
  split_ifs with hz
  · exact .inr rfl
  · exact .inl (search_digits_pos (Bool.eq_false_iff.mpr hz) tie _ _)

/-- The numeral of a finite number in JSON. -/
def numeral (x : Binary f) : Numeral := (x.shortest .toEven).numeral x.negative

/-- What comes back of a number that is written in JSON. -/
def reread (x : Binary f) : Document :=
  if x.isFinite then JsonReader.numberOf x.numeral else .null

theorem inJson_eq (hx : x.isFinite = true) :
    x.inJson = if x.numeral.negative then '-' :: x.numeral.text else x.numeral.text := by
  have htext := (x.shortest .toEven).text_numeral x.negative
  simp only [inJson, hx, numeral, Decimal.negative_numeral, signed, htext, Bool.not_true,
    Bool.false_eq_true, if_false]

theorem value_inJson (x : Binary f) {rest : List Char} (hr : JsonReader.Ends rest) (fuel : ℕ) :
    JsonReader.value (fuel + 1) (x.inJson ++ rest) = some (x.reread, rest) := by
  cases hx : x.isFinite with
  | true =>
    rw [inJson_eq hx, JsonReader.value_numeral (n := x.numeral) ((x.shortest .toEven).written_numeral
      (x.shortest_digits .toEven) x.negative) hr, reread, if_pos hx]
  | false =>
    simp only [inJson, hx, reread]
    rfl

end Binary

/-- A finite single number comes back as a 64-bit number that is converted to it. -/
theorem exists_reread_eq {x : Single} (hx : x.isFinite = true) :
    ∃ y : Double, x.reread = .double y ∧ y.convert = x := by
  obtain ⟨y, hy, hyx⟩ := exists_toDouble?_shortest hx
  have hwhole := (x.shortest .toEven).isWhole_numeral x.negative
  refine ⟨y, ?_, hyx⟩
  simp only [Binary.reread, if_pos hx, JsonReader.numberOf, Binary.numeral, hwhole, hy,
    Bool.false_and, Bool.false_eq_true, if_false]

/-- Of single numbers, those that are finite come back, every one as it was. -/
theorem number?_reread (x : Single) :
    x.reread.number? = if x.isFinite then some x else none := by
  cases hx : x.isFinite with
  | true =>
    obtain ⟨y, hy, hyx⟩ := exists_reread_eq hx
    rw [hy, Document.number?, hyx, if_pos rfl]
  | false =>
    rw [Binary.reread, hx]
    rfl

end Number

namespace JsonText

variable {rest : List Char}

/-- Integers that 64 bits can hold come back as they are. -/
theorem value_integer {z : ℤ} (hl : -2 ^ 63 ≤ z) (hu : z < 2 ^ 64) (hr : JsonReader.Ends rest)
    (fuel : ℕ) : JsonReader.value (fuel + 1) (integer z ++ rest) = some (.integer z, rest) := by
  have hnumeral : (⟨decide (z < 0), digitsOf z.natAbs, none, none⟩ : Numeral).Written := by
    refine ⟨?_, ?_, nofun⟩
    · rw [Numeral.digits, Option.getD_none, List.append_nil]
      exact fun d => lt_ten_of_mem_digitsOf
    · rcases Nat.eq_zero_or_pos z.natAbs with hz | hz
      · exact .inl (by rw [hz, digitsOf_of_lt (by decide)])
      · exact .inr (exists_digitsOf_eq_cons hz)
  have hvalue : (digitsOf z.natAbs).foldl (fun s d => s * 10 + d) 0 = z.natAbs :=
    appendDigits_digitsOf z.natAbs
  have htext : integer z = if decide (z < 0) then '-' :: Numeral.text
      ⟨decide (z < 0), digitsOf z.natAbs, none, none⟩ else Numeral.text
      ⟨decide (z < 0), digitsOf z.natAbs, none, none⟩ := by
    simp [integer, Numeral.text, Numeral.fractionText, Numeral.exponentText,
      map_digitChar_digitsOf]
  rw [htext, JsonReader.value_numeral hnumeral hr]
  rcases lt_or_ge z 0 with hz | hz
  · have hpos : 0 < z.natAbs := by omega
    have hfits : z.natAbs ≤ 2 ^ 63 := by omega
    have hsign : -(z.natAbs : ℤ) = z := by omega
    simp only [JsonReader.numberOf, Numeral.isWhole, Numeral.natural, hvalue, hz, hpos, hfits, hsign,
      Option.isNone_none, Bool.and_self, decide_true, if_true]
  · have hfits : z.natAbs < 2 ^ 64 := by omega
    have hsign : (z.natAbs : ℤ) = z := by omega
    simp only [JsonReader.numberOf, Numeral.isWhole, Numeral.natural, hvalue, not_lt.mpr hz, hfits,
      hsign, Option.isNone_none, Bool.and_self, Bool.false_eq_true, decide_true, decide_false,
      if_true, if_false]

end JsonText

end TeachPendant
