import TeachPendant.Proofs.Document.JsonNumber

namespace TeachPendant

open Number

namespace JsonText

open JsonReader

variable {c : Char} {cs rest : List Char}

/-- The ways in which a character is written. -/
inductive Written (c : Char) : Prop
  | short (e : Char) (text : escapeChar c = ['\\', e])
      (names : shortEscape? e = some c) (code : e ≠ 'u')
  | code (small : c.toNat < 32) (text : escapeChar c =
      ['\\', 'u', '0', '0', hexDigit (c.toNat / 16), hexDigit (c.toNat % 16)])
  | bare (text : escapeChar c = [c]) (quote : c ≠ '"') (slash : c ≠ '\\') (large : ¬ c.toNat < 32)

theorem written (c : Char) : Written c := by
  by_cases h : c ∈ ['"', '\\', '\n', '\r', '\t', '\x08', '\x0c']
  · simp only [List.mem_cons, List.not_mem_nil, or_false] at h
    obtain rfl | rfl | rfl | rfl | rfl | rfl | rfl := h
    all_goals exact .short _ rfl rfl (by decide)
  · simp only [List.mem_cons, List.not_mem_nil, or_false, not_or] at h
    obtain ⟨hquote, hslash, hn, hr, ht, hb, hf⟩ := h
    have htext : escapeChar c = if c.toNat < 32 then
        ['\\', 'u', '0', '0', hexDigit (c.toNat / 16), hexDigit (c.toNat % 16)] else [c] := by
      rw [escapeChar, if_neg hquote, if_neg hslash, if_neg hn, if_neg hr, if_neg ht, if_neg hb,
        if_neg hf]
    by_cases hc : c.toNat < 32
    · exact .code hc (by rw [htext, if_pos hc])
    · exact .bare (by rw [htext, if_neg hc]) hquote hslash hc

/-- A character below the surrogates that is given by its number stands alone. -/
theorem join_unit (hc : c.toNat < 32) (ps : List Piece) :
    join (.unit c.toNat :: ps) = (join ps).map (c :: ·) := by
  have hhigh : isHighHalf c.toNat = false := by
    simp only [isHighHalf, Bool.and_eq_false_iff, decide_eq_false_iff_not]
    omega
  have hlow : isLowHalf c.toNat = false := by
    simp only [isLowHalf, Bool.and_eq_false_iff, decide_eq_false_iff_not]
    omega
  rcases ps with - | ⟨c' | m, ps⟩ <;> simp [join, hhigh, hlow]

/-- A character is read as one piece, from which the character is got. -/
theorem exists_piece (c : Char) : ∃ p,
    (∀ rest, pieces (escapeChar c ++ rest) = (pieces rest).map fun (ps, rest) => (p :: ps, rest)) ∧
    ∀ ps, join (p :: ps) = (join ps).map (c :: ·) := by
  cases written c with
  | short e text names code =>
    refine ⟨.char c, fun rest => ?_, fun _ => rfl⟩
    rw [text, List.cons_append, List.singleton_append, pieces]
    · rw [names]
      cases pieces rest <;> rfl
    · exact fun _ _ _ _ _ heq _ => code heq
  | code small text =>
    have hcode : ∀ n < 32, codeUnit? '0' '0' (hexDigit (n / 16)) (hexDigit (n % 16)) = some n := by
      decide
    refine ⟨.unit c.toNat, fun rest => ?_, join_unit small⟩
    simp only [text, List.cons_append, List.nil_append, pieces, hcode _ small]
    cases pieces rest <;> rfl
  | bare text quote slash large =>
    refine ⟨.char c, fun rest => ?_, fun _ => rfl⟩
    rw [text, List.singleton_append, pieces]
    · rw [if_neg (by simp [large, slash])]
      cases pieces rest <;> rfl
    · exact quote
    · exact fun _ _ _ _ _ heq _ => slash heq
    · exact fun _ _ heq _ => slash heq

/-- The characters of a text are read up to the quote behind them. -/
theorem exists_pieces (cs rest : List Char) : ∃ ps,
    pieces (cs.flatMap escapeChar ++ '"' :: rest) = some (ps, rest) ∧ join ps = some cs := by
  induction cs with
  | nil => exact ⟨[], by simp [pieces], rfl⟩
  | cons c cs ih =>
    obtain ⟨ps, hpieces, hjoin⟩ := ih
    obtain ⟨p, hp, hc⟩ := exists_piece c
    refine ⟨p :: ps, ?_, ?_⟩
    · rw [List.flatMap_cons, List.append_assoc, hp, hpieces, Option.map_some]
    · rw [hc, hjoin, Option.map_some]

/-- Whether every character of a text stands for itself. -/
def unescaped (s : String) : Bool := s.toList.all fun c => escapeChar c = [c]

theorem escapeChar_eq_or (c : Char) : escapeChar c = [c] ∨ 2 ≤ (escapeChar c).length := by
  cases written c with
  | short e text => exact .inr (by rw [text]; exact Nat.le_refl 2)
  | code small text => exact .inr (by rw [text]; exact Nat.le_add_left 2 4)
  | bare text => exact .inl text

/-- An escape makes a text longer, so a text of its own length has none. -/
theorem length_flatMap_escapeChar :
    (cs.flatMap escapeChar).length = cs.length ↔ cs.all (fun c => escapeChar c = [c]) = true := by
  have hlength (cs : List Char) : cs.length ≤ (cs.flatMap escapeChar).length := by
    induction cs with
    | nil => exact le_rfl
    | cons c cs ih =>
      rw [List.flatMap_cons, List.length_append, List.length_cons]
      obtain h | h := escapeChar_eq_or c
      · rw [h, List.length_singleton]
        omega
      · omega
  induction cs with
  | nil => simp
  | cons c cs ih =>
    have hcs := hlength cs
    simp only [List.all_cons, Bool.and_eq_true, decide_eq_true_eq, ← ih, List.flatMap_cons,
      List.length_append, List.length_cons]
    obtain h | h := escapeChar_eq_or c
    · simp only [h, List.length_singleton, true_and]
      omega
    · have hne : escapeChar c ≠ [c] := by
        intro heq
        rw [heq, List.length_singleton] at h
        omega
      simp only [hne, false_and, iff_false]
      omega

theorem escapeChar_digitChar {d : ℕ} (h : d < 10) : escapeChar d.digitChar = [d.digitChar] := by
  have hall : ∀ d < 10, escapeChar d.digitChar = [d.digitChar] := by decide
  exact hall d h

theorem all_escapeChar_digitChars (n : ℕ) :
    (digitChars n).all (fun c => escapeChar c = [c]) = true := by
  rw [← map_digitChar_digitsOf, List.all_eq_true]
  intro c hc
  obtain ⟨d, hd, rfl⟩ := List.mem_map.mp hc
  exact decide_eq_true (escapeChar_digitChar (lt_ten_of_mem_digitsOf hd))

theorem flatMap_escapeChar (h : cs.all (fun c => escapeChar c = [c]) = true) :
    cs.flatMap escapeChar = cs := by
  induction cs with
  | nil => rfl
  | cons c cs ih =>
    rw [List.all_cons, Bool.and_eq_true, decide_eq_true_iff] at h
    rw [List.flatMap_cons, h.1, ih h.2, List.singleton_append]

end JsonText

/-- What comes back of a name that is written in JSON. -/
def Key.reread : Key → Key
  | .text s => if JsonText.unescaped s then .text s else .escaped s
  | .escaped s => if JsonText.unescaped s then .text s else .escaped s
  | .index n => .text (String.ofList (digitChars n))
  | .unreadable => .text ""

namespace JsonText

/-- A name is read back up to its closing quote, from how long it was written. -/
theorem exists_pieces_key (k : Key) (rest : List Char) : ∃ cs ps,
    key k = '"' :: cs ++ ['"'] ∧ JsonReader.pieces (cs ++ '"' :: rest) = some (ps, rest) ∧
      JsonReader.keyOf ps cs.length = k.reread := by
  have hquoted (s : String) : ∃ cs ps, quoted s = '"' :: cs ++ ['"'] ∧
      JsonReader.pieces (cs ++ '"' :: rest) = some (ps, rest) ∧
      JsonReader.keyOf ps cs.length = if unescaped s then .text s else .escaped s := by
    obtain ⟨ps, hpieces, hjoin⟩ := exists_pieces s.toList rest
    refine ⟨s.toList.flatMap escapeChar, ps, rfl, hpieces, ?_⟩
    simp only [JsonReader.keyOf, hjoin, length_flatMap_escapeChar, String.ofList_toList]
    rfl
  cases k with
  | text s => exact hquoted s
  | escaped s => exact hquoted s
  | unreadable => exact hquoted ""
  | index n =>
    obtain ⟨cs, ps, hkey, hpieces, hname⟩ := hquoted (String.ofList (digitChars n))
    have hall := all_escapeChar_digitChars n
    have hbare : unescaped (String.ofList (digitChars n)) = true := by
      rwa [unescaped, String.toList_ofList]
    refine ⟨cs, ps, ?_, hpieces, ?_⟩
    · rw [← hkey, key, quoted, String.toList_ofList, flatMap_escapeChar hall]
    · rw [hname, if_pos hbare, Key.reread]

end JsonText

end TeachPendant
