import TeachPendant.Document.TomlReader
import TeachPendant.Document.TomlText
import Mathlib.Tactic.SplitIfs

namespace TeachPendant.TomlText

open TomlReader
open JsonReader (shortEscape?)

variable {quote c : Char} {escapes long : Bool} {cs ws w rest : List Char} {fuel n : Nat}

/-- The ways in which a character other than a quote is written between double quotes. -/
inductive Written (long : Bool) (c : Char) : Prop
  | escape (body : List Char) (text : escapeChar long c = '\\' :: body)
      (reads : ∀ rest, escape? (body ++ rest) = some (c, rest))
      (inline : ∀ rest, lineBreak? (skipBlanks (body ++ rest)) = none)
  | lineBreak (text : escapeChar long c = ['\n']) (char : c = '\n') (several : long = true)
  | bare (text : escapeChar long c = [c]) (plain : isPlain c = true) (slash : c ≠ '\\')

theorem isPlain_of_large (hlow : ¬ c.toNat < 32) (hdelete : c.toNat ≠ 127) : isPlain c = true := by
  simp only [isPlain, Bool.or_eq_true, Bool.and_eq_true, decide_eq_true_eq, bne_iff_ne]
  exact .inr ⟨Nat.le_of_not_lt hlow, hdelete⟩

/-- A control character is read back from its number. -/
theorem escape?_code (hc : c.toNat < 32 ∨ c.toNat = 127) (rest : List Char) :
    escape? ('u' :: '0' :: '0' :: hexDigit (c.toNat / 16) :: hexDigit (c.toNat % 16) :: rest) =
      some (c, rest) := by
  have hcode : ∀ n < 128, n < 32 ∨ n = 127 →
      scalar? ['0', '0', hexDigit (n / 16), hexDigit (n % 16)] = some (Char.ofNat n) := by decide
  have hscalar := hcode c.toNat (by omega) hc
  rw [Char.ofNat_toNat] at hscalar
  simp [escape?, hscalar]

theorem written (long : Bool) (c : Char) : Written long c := by
  by_cases hline : c = '\n' ∧ long = true
  · obtain ⟨rfl, rfl⟩ := hline
    exact .lineBreak rfl rfl rfl
  · by_cases hshort : c ∈ ['\x08', '\t', '\n', '\x0c', '\r', '\\']
    · simp only [List.mem_cons, List.not_mem_nil, or_false] at hshort
      obtain rfl | rfl | rfl | rfl | rfl | rfl := hshort
      case inr.inr.inl =>
        obtain rfl : long = false := by simpa using hline
        exact .escape ['n'] rfl (fun _ => rfl) fun _ => rfl
      all_goals exact .escape [_] rfl (fun _ => rfl) fun _ => rfl
    · simp only [List.mem_cons, List.not_mem_nil, or_false, not_or] at hshort
      obtain ⟨hb, ht, hn, hf, hr, hslash⟩ := hshort
      have htext : escapeChar long c = if c.toNat < 32 || c.toNat == 127 then
          ['\\', 'u', '0', '0', hexDigit (c.toNat / 16), hexDigit (c.toNat % 16)] else [c] := by
        rw [escapeChar, if_neg hb, if_neg ht, if_neg hn, if_neg hf, if_neg hr, if_neg hslash]
      by_cases hcode : c.toNat < 32 ∨ c.toNat = 127
      · exact .escape _ (by rw [htext, if_pos (by simpa using hcode)]) (escape?_code hcode) fun _ => rfl
      · rw [not_or] at hcode
        exact .bare (by rw [htext, if_neg (by simpa using hcode)])
          (isPlain_of_large hcode.1 hcode.2) hslash

theorem basic_escape {more : List Char} (h : escape? cs = some (c, more)) (fuel : Nat) :
    basic (fuel + 1) ('\\' :: cs) = (basic fuel more).map fun (cs, rest) => (c :: cs, rest) := by
  simp only [basic, h, Option.bind_eq_bind, Option.bind_some]
  cases basic fuel more <;> rfl

theorem basic_plain (hplain : isPlain c = true) (hquote : c ≠ '"') (hslash : c ≠ '\\') (fuel : Nat)
    (cs : List Char) :
    basic (fuel + 1) (c :: cs) = (basic fuel cs).map fun (cs, rest) => (c :: cs, rest) := by
  rw [basic, if_pos hplain]
  · exact hquote
  · exact hslash

theorem escaped_quote (cs : List Char) : escaped false 0 ('"' :: cs) = '\\' :: '"' :: escaped false 0 cs := by
  rfl

theorem escaped_char (hquote : c ≠ '"') (cs : List Char) :
    escaped long n (c :: cs) = escapeChar long c ++ escaped long 0 cs := by
  rw [escaped, if_neg hquote]

theorem basic_escaped (cs rest : List Char) (hfuel : (escaped false 0 cs).length < fuel) :
    basic fuel (escaped false 0 cs ++ '"' :: rest) = some (cs, rest) := by
  induction cs generalizing fuel with
  | nil =>
    obtain ⟨k, rfl⟩ := Nat.exists_eq_add_of_lt hfuel
    rfl
  | cons c cs ih =>
    obtain ⟨k, rfl⟩ : ∃ k, fuel = k + 1 := ⟨fuel - 1, by omega⟩
    by_cases hquote : c = '"'
    · subst hquote
      rw [escaped_quote, List.length_cons, List.length_cons] at hfuel
      rw [escaped_quote, List.cons_append, List.cons_append, basic_escape rfl, ih (by omega)]
      rfl
    · rw [escaped_char hquote, List.length_append] at hfuel
      rw [escaped_char hquote, List.append_assoc]
      cases written false c with
      | escape body text reads inline =>
        rw [text, List.length_cons] at hfuel
        rw [text, List.cons_append, basic_escape (reads _), ih (by omega)]
        rfl
      | lineBreak text char several => cases several
      | bare text plain slash =>
        rw [text, List.length_singleton] at hfuel
        rw [text, List.singleton_append, basic_plain plain hquote slash, ih (by omega)]
        rfl

theorem literal_append (h : ∀ c ∈ cs, isPlain c = true ∧ c ≠ '\'') (rest : List Char) :
    literal (cs ++ '\'' :: rest) = some (cs, rest) := by
  induction cs with
  | nil => rfl
  | cons c cs ih =>
    obtain ⟨⟨hplain, hquote⟩, hcs⟩ := List.forall_mem_cons.mp h
    rw [List.cons_append, literal, if_neg hquote, if_pos hplain, ih hcs]
    rfl

/-- Characters that stand for one character of a text of several lines. -/
structure Spells (quote : Char) (escapes : Bool) (w : List Char) (c : Char) : Prop where
  head : ∃ d ds, w = d :: ds ∧ d ≠ quote
  reads : ∀ fuel rest, longText quote escapes (fuel + 1) (w ++ rest) =
    (longText quote escapes fuel rest).map fun (cs, rest) => (c :: cs, rest)

/-- A text of several lines as it is written, after a number of quotes in a row. There are never more
than two. -/
inductive Spelled (quote : Char) (escapes : Bool) : Nat → List Char → List Char → Prop
  | nil {n : Nat} : Spelled quote escapes n [] []
  | quote {n : Nat} {cs ws : List Char} (few : n < 2) (rest : Spelled quote escapes (n + 1) cs ws) :
      Spelled quote escapes n (quote :: cs) (quote :: ws)
  | char {n : Nat} {c : Char} {w cs ws : List Char} (first : Spells quote escapes w c)
      (rest : Spelled quote escapes 0 cs ws) : Spelled quote escapes n (c :: cs) (w ++ ws)

theorem quoteRun_replicate (n : Nat) (h : rest.head? ≠ some quote) :
    quoteRun quote (List.replicate n quote ++ rest) = (n, rest) := by
  have hquotes : ∀ c ∈ List.replicate n quote, (c == quote) = true := fun c hc =>
    beq_iff_eq.mpr (List.eq_of_mem_replicate hc)
  have hstop : rest.takeWhile (· == quote) = [] ∧ rest.dropWhile (· == quote) = rest := by
    cases rest with
    | nil => exact ⟨rfl, rfl⟩
    | cons c cs =>
      have hc : (c == quote) = false := beq_false_of_ne fun heq => h (congrArg some heq)
      simp [hc]
  rw [quoteRun, List.takeWhile_append_of_pos hquotes, List.dropWhile_append_of_pos hquotes, hstop.1,
    hstop.2, List.append_nil, List.length_replicate]

/-- Up to two quotes in a row belong to a text. -/
theorem longText_quotes (hn : n < 2) (h : rest.head? ≠ some quote) (fuel : Nat) :
    longText quote escapes (fuel + 1) (List.replicate (n + 1) quote ++ rest) =
      (longText quote escapes fuel rest).map
        fun (cs, rest) => (List.replicate (n + 1) quote ++ cs, rest) := by
  have hrun := quoteRun_replicate (n + 1) h
  rw [List.replicate_succ, List.cons_append] at hrun ⊢
  rw [longText, if_pos rfl, hrun]
  simp only [if_neg (show ¬ 6 ≤ n + 1 by omega), if_neg (show ¬ 3 ≤ n + 1 by omega)]
  rfl

/-- Three more end it. -/
theorem longText_end (hn : n ≤ 2) (h : rest.head? ≠ some quote) (fuel : Nat) :
    longText quote escapes (fuel + 1) (List.replicate (n + 3) quote ++ rest) =
      some (List.replicate n quote, rest) := by
  have hrun := quoteRun_replicate (n + 3) h
  rw [List.replicate_succ, List.cons_append] at hrun ⊢
  rw [longText, if_pos rfl, hrun]
  simp only [if_neg (show ¬ 6 ≤ n + 3 by omega), if_pos (Nat.le_add_left 3 n), Nat.add_sub_cancel]

theorem longText_spelled (h : Spelled quote escapes n cs ws) (hn : n ≤ 2)
    (hrest : rest.head? ≠ some quote) (hfuel : n + ws.length < fuel) :
    longText quote escapes fuel (List.replicate n quote ++ (ws ++ (List.replicate 3 quote ++ rest))) =
      some (List.replicate n quote ++ cs, rest) := by
  induction h generalizing fuel with
  | nil =>
    obtain ⟨k, rfl⟩ : ∃ k, fuel = k + 1 := ⟨fuel - 1, by omega⟩
    rw [List.nil_append, ← List.append_assoc, List.replicate_append_replicate, longText_end hn hrest,
      List.append_nil]
  | @quote n cs ws few _ ih =>
    have hshift (xs : List Char) : List.replicate n quote ++ quote :: xs =
        List.replicate (n + 1) quote ++ xs := by
      rw [List.replicate_succ', List.append_assoc, List.singleton_append]
    rw [List.cons_append, hshift, hshift]
    exact ih few (by rw [List.length_cons] at hfuel; omega)
  | @char n c w cs ws first _ ih =>
    obtain ⟨d, ds, hw, hd⟩ := first.head
    have hlength : 0 < w.length := by rw [hw]; exact Nat.succ_pos _
    rw [List.length_append] at hfuel
    have hchar {k : Nat} (hk : ws.length < k) :
        longText quote escapes (k + 1) (w ++ (ws ++ (List.replicate 3 quote ++ rest))) =
          some (c :: cs, rest) := by
      have hrest' := ih (Nat.zero_le 2) (show 0 + ws.length < k by omega)
      rw [List.replicate_zero, List.nil_append, List.nil_append] at hrest'
      rw [first.reads, hrest']
      rfl
    rw [List.append_assoc]
    cases n with
    | zero =>
      obtain ⟨k, rfl⟩ : ∃ k, fuel = k + 1 := ⟨fuel - 1, by omega⟩
      exact hchar (by omega)
    | succ n =>
      obtain ⟨k, rfl⟩ : ∃ k, fuel = k + 2 := ⟨fuel - 2, by omega⟩
      have hhead : (w ++ (ws ++ (List.replicate 3 quote ++ rest))).head? ≠ some quote := by
        rw [hw]
        exact fun heq => hd (Option.some.inj heq)
      rw [longText_quotes (by omega) hhead, hchar (by omega)]
      rfl

theorem spells_lineBreak (hquote : quote ≠ '\n') : Spells quote escapes ['\n'] '\n' where
  head := ⟨_, _, rfl, hquote.symm⟩
  reads fuel rest := by
    rw [List.singleton_append, longText, if_neg hquote.symm, if_neg (by simp)]
    rfl

theorem spells_plain (hplain : isPlain c = true) (hquote : c ≠ quote)
    (hslash : (escapes && c == '\\') = false) : Spells quote escapes [c] c where
  head := ⟨_, _, rfl, hquote⟩
  reads fuel rest := by
    have hbreak : lineBreak? (c :: rest) = none := by
      unfold lineBreak?
      split
      · next heq => rw [(List.cons_eq_cons.mp heq).1] at hplain; cases hplain
      · next heq => rw [(List.cons_eq_cons.mp heq).1] at hplain; cases hplain
      · rfl
    rw [List.singleton_append, longText, if_neg hquote, hslash, if_neg Bool.false_ne_true, hbreak]
    exact if_pos hplain

theorem spells_escape {body : List Char} (hquote : quote ≠ '\\')
    (reads : ∀ rest, escape? (body ++ rest) = some (c, rest))
    (inline : ∀ rest, lineBreak? (skipBlanks (body ++ rest)) = none) :
    Spells quote true ('\\' :: body) c where
  head := ⟨_, _, rfl, hquote.symm⟩
  reads fuel rest := by
    have hslash : (true && '\\' == '\\') = true := rfl
    rw [List.cons_append, longText, if_neg hquote.symm, if_pos hslash, inline]
    simp only [reads, Option.bind_eq_bind, Option.bind_some]
    cases longText quote true fuel rest <;> rfl

theorem spells_escapeChar (hquote : c ≠ '"') : Spells '"' true (escapeChar true c) c := by
  cases written true c with
  | escape body text reads inline =>
    rw [text]
    exact spells_escape (by decide) reads inline
  | lineBreak text char several =>
    rw [text, char]
    exact spells_lineBreak (by decide)
  | bare text plain slash =>
    rw [text]
    exact spells_plain plain hquote (by simpa using slash)

theorem spelled_escaped (cs : List Char) (n : Nat) : Spelled '"' true n cs (escaped true n cs) := by
  induction cs generalizing n with
  | nil => exact .nil
  | cons c cs ih =>
    by_cases hquote : c = '"'
    · subst hquote
      by_cases hn : n < 2
      · rw [escaped, if_pos rfl, if_pos rfl, if_pos hn]
        exact .quote hn (ih (n + 1))
      · rw [escaped, if_pos rfl, if_pos rfl, if_neg hn]
        exact .char (w := ['\\', '"']) (spells_escape (by decide) (fun _ => rfl) fun _ => rfl) (ih 0)
    · rw [escaped_char hquote]
      exact .char (spells_escapeChar hquote) (ih 0)

theorem le_longestRun (c : Char) (cs : List Char) (n : Nat) : n ≤ longestRun c cs n := by
  induction cs generalizing n with
  | nil => exact Nat.le_refl n
  | cons d cs ih =>
    rw [longestRun]
    split
    · exact Nat.le_of_succ_le (ih (n + 1))
    · exact Nat.le_max_left _ _

theorem isPlain_of_not_isControl (h : isControl c = false) (hline : c ≠ '\n') : isPlain c = true := by
  by_cases htab : c = '\t'
  · rw [htab]
    rfl
  · simp only [isControl, Bool.and_eq_false_iff, Bool.or_eq_false_iff, bne_eq_false_iff_eq,
      decide_eq_false_iff_not, beq_eq_false_iff_ne] at h
    obtain (h | h) | ⟨hlow, hdelete⟩ := h
    · exact absurd h htab
    · exact absurd h hline
    · exact isPlain_of_large hlow hdelete

theorem spelled_literal (hcontrol : ∀ c ∈ cs, isControl c = false) (hrun : longestRun '\'' cs n ≤ 2) :
    Spelled '\'' false n cs cs := by
  induction cs generalizing n with
  | nil => exact .nil
  | cons c cs ih =>
    obtain ⟨hc, hcs⟩ := List.forall_mem_cons.mp hcontrol
    rw [longestRun] at hrun
    by_cases hquote : c = '\''
    · subst hquote
      rw [if_pos rfl] at hrun
      have hn : n + 1 ≤ 2 := Nat.le_trans (le_longestRun _ _ _) hrun
      exact .quote (by omega) (ih hcs hrun)
    · rw [if_neg hquote] at hrun
      have hrest := ih hcs (Nat.le_trans (Nat.le_max_right _ _) hrun)
      by_cases hline : c = '\n'
      · subst hline
        exact .char (spells_lineBreak (by decide)) hrest
      · exact .char (spells_plain (isPlain_of_not_isControl hc hline) hquote rfl) hrest

theorem text?_basic (h : ∀ more, cs ≠ '"' :: '"' :: more) : text? ('"' :: cs) =
    (basic (cs.length + 2) cs).map fun (cs, rest) => (String.ofList cs, rest) := by
  rw [text?]
  · rfl
  · exact h

theorem text?_literal (h : ∀ more, cs ≠ '\'' :: '\'' :: more) : text? ('\'' :: cs) =
    (literal cs).map fun (cs, rest) => (String.ofList cs, rest) := by
  rw [text?]
  exact h

theorem lineBreak?_eq_none (h : ∀ c ∈ cs.head?, c ≠ '\n' ∧ c ≠ '\r') : lineBreak? cs = none := by
  unfold lineBreak?
  split
  · exact absurd rfl (h '\n' rfl).1
  · exact absurd rfl (h '\r' rfl).2
  · rfl

/-- The line break after the opening quotes is no part of the text. -/
theorem afterOpening_opening {line : Bool} (h : line = false → ∀ c ∈ cs.head?, c ≠ '\n' ∧ c ≠ '\r') :
    afterOpening ((if line then ['\n'] else []) ++ cs) = cs := by
  cases line with
  | true => rfl
  | false => rw [if_neg Bool.false_ne_true, List.nil_append, afterOpening, lineBreak?_eq_none (h rfl)]; rfl

theorem head?_escaped_append (hline : cs.contains '\n' = false) (n : Nat)
    (h : ∀ c ∈ rest.head?, c ≠ '\n' ∧ c ≠ '\r') :
    ∀ c ∈ (escaped true n cs ++ rest).head?, c ≠ '\n' ∧ c ≠ '\r' := by
  cases cs with
  | nil => exact h
  | cons c cs =>
    by_cases hquote : c = '"'
    · rw [escaped, if_pos hquote]
      split_ifs <;> simp
    · rw [escaped_char hquote]
      cases written true c with
      | escape body text reads inline => simp [text]
      | lineBreak text char several => simp [char] at hline
      | bare text plain slash =>
        rw [text]
        rintro d hd
        obtain rfl : c = d := by simpa using hd
        constructor <;> rintro rfl <;> cases plain

theorem escaped_append_ne (hrest : rest.head? ≠ some '"') (more : List Char) :
    escaped false 0 cs ++ '"' :: rest ≠ '"' :: '"' :: more := by
  cases cs with
  | nil =>
    intro heq
    rw [(List.cons_eq_cons.mp heq).2] at hrest
    exact hrest rfl
  | cons c cs =>
    by_cases hquote : c = '"'
    · rw [hquote, escaped_quote]
      rintro ⟨⟩
    · rw [escaped_char hquote]
      cases written false c with
      | escape body text reads inline =>
        rw [text]
        rintro ⟨⟩
      | lineBreak text char several => cases several
      | bare text plain slash =>
        rw [text]
        exact fun heq => hquote (List.cons_eq_cons.mp heq).1

theorem text?_escaped (hrest : rest.head? ≠ some '"') (cs : List Char) :
    text? ('"' :: (escaped false 0 cs ++ '"' :: rest)) = some (String.ofList cs, rest) := by
  rw [text?_basic (escaped_append_ne hrest), basic_escaped]
  · rfl
  · rw [List.length_append]
    omega

theorem text?_plain (h : ∀ c ∈ cs, isPlain c = true ∧ c ≠ '\'') (hne : cs ≠ []) (rest : List Char) :
    text? ('\'' :: (cs ++ '\'' :: rest)) = some (String.ofList cs, rest) := by
  rw [text?_literal, literal_append h]
  · rfl
  · obtain ⟨c, cs, rfl⟩ := List.exists_cons_of_ne_nil hne
    exact fun more heq => (h c List.mem_cons_self).2 (List.cons_eq_cons.mp heq).1

theorem text?_long (h : quote = '"' ∨ quote = '\'') (cs : List Char) :
    text? (quote :: quote :: quote :: cs) =
      (longText quote (quote == '"') (cs.length + 4) (afterOpening cs)).map
        fun (cs, rest) => (String.ofList cs, rest) := by
  obtain rfl | rfl := h <;> rfl

theorem text?_spelled (line : Bool) (hquote : quote = '"' ∨ quote = '\'')
    (h : Spelled quote (quote == '"') 0 cs ws)
    (hhead : line = false → ∀ c ∈ (ws ++ (List.replicate 3 quote ++ rest)).head?, c ≠ '\n' ∧ c ≠ '\r')
    (hrest : rest.head? ≠ some quote) :
    text? (quote :: quote :: quote ::
      ((if line then ['\n'] else []) ++ (ws ++ (List.replicate 3 quote ++ rest)))) =
        some (String.ofList cs, rest) := by
  have hfuel : 0 + ws.length <
      ((if line then ['\n'] else []) ++ (ws ++ (List.replicate 3 quote ++ rest))).length + 4 := by
    simp only [List.length_append]
    omega
  have hread := longText_spelled h (Nat.zero_le 2) hrest hfuel
  rw [List.replicate_zero, List.nil_append, List.nil_append] at hread
  rw [text?_long hquote, afterOpening_opening hhead, hread]
  rfl

theorem longestRun_pos (h : c ∈ cs) (n : Nat) : 0 < longestRun c cs n := by
  induction cs generalizing n with
  | nil => cases h
  | cons d cs ih =>
    rw [longestRun]
    split
    · exact Nat.lt_of_lt_of_le (Nat.succ_pos n) (le_longestRun _ _ _)
    · next hd =>
      obtain rfl | hmem := List.mem_cons.mp h
      · exact absurd rfl hd
      · exact Nat.lt_of_lt_of_le (ih hmem 0) (Nat.le_max_right _ _)

theorem not_mem_of_longestRun (h : longestRun c cs n = 0) : c ∉ cs := fun hmem =>
  absurd h (Nat.pos_iff_ne_zero.mp (longestRun_pos hmem n))

/-- Whatever is in a text, it is read back. -/
theorem text?_text (cs rest : List Char) (hdouble : rest.head? ≠ some '"')
    (hsingle : rest.head? ≠ some '\'') : text? (text cs ++ rest) = some (String.ofList cs, rest) := by
  have hdoubles {line : Bool} (hline : cs.contains '\n' = line) :=
    text?_spelled line (.inl rfl) (spelled_escaped cs 0)
      (fun h => head?_escaped_append (hline.trans h) 0 (by simp)) hdouble
  unfold text
  dsimp only
  split
  · simpa using text?_escaped hdouble cs
  next hfirst =>
  split
  · next h =>
    simp only [Bool.and_eq_true, Bool.not_eq_true', List.any_eq_false, beq_iff_eq,
      Bool.not_eq_true] at h
    obtain ⟨⟨hcontrol, hrun⟩, hline⟩ := h
    have hne : cs ≠ [] := by
      rintro rfl
      exact hfirst rfl
    have hbreak : '\n' ∉ cs := by simpa using hline
    have hplain : ∀ c ∈ cs, isPlain c = true ∧ c ≠ '\'' := fun c hc =>
      ⟨isPlain_of_not_isControl (hcontrol c hc) fun heq => hbreak (heq ▸ hc),
        fun heq => not_mem_of_longestRun hrun (heq ▸ hc)⟩
    simpa using text?_plain hplain hne rest
  split
  · simpa using hdoubles rfl
  split
  · next h =>
    simp only [Bool.and_eq_true, Bool.not_eq_true', List.any_eq_false, decide_eq_true_eq,
      Bool.not_eq_true] at h
    obtain ⟨hcontrol, hrun⟩ := h
    have hhead (hline : cs.contains '\n' = false) :
        ∀ c ∈ (cs ++ (List.replicate 3 '\'' ++ rest)).head?, c ≠ '\n' ∧ c ≠ '\r' := by
      cases cs with
      | nil => simp
      | cons c cs =>
        rintro d hd
        obtain rfl : c = d := by simpa using hd
        refine ⟨fun heq => by simp [heq] at hline, ?_⟩
        rintro rfl
        cases hcontrol '\r' List.mem_cons_self
    simpa using text?_spelled _ (.inr rfl) (spelled_literal hcontrol hrun) hhead hsingle
  split
  · next hline => simpa [hline] using hdoubles hline
  · simpa using text?_escaped hdouble cs

end TeachPendant.TomlText
