import Mathlib.Tactic.SplitIfs
import TeachPendant.Proofs.Sequence.Flat
import TeachPendant.Proofs.Sequence.Layout
import TeachPendant.Sequence.Edit

namespace TeachPendant

namespace Symbol

/-- A line with a blank in front, at the end, or behind what belongs to symbol `k`. -/
def insertBlank (flat : List Symbol) (k : Int) : List Symbol :=
  if k = -1 then .token (blankBeside flat.head?) :: flat
  else if k = flat.length then flat ++ [.token (blankBeside flat.getLast?)]
  else
    splice flat (groupEnd flat k.toNat) (groupEnd flat k.toNat)
      [.token (blankBeside flat[k.toNat]?)]

/-- A line with other symbols in place of what belongs to symbol `k`. -/
def replaceGroup (flat : List Symbol) (k : Nat) (symbols : List Symbol) : List Symbol :=
  splice flat (groupStart flat k) (groupEnd flat k) symbols

end Symbol

namespace Sequence

open TeachPendant.Symbol

theorem Surroundings.modifyAt_line (around : Surroundings) (level : Sequence)
    (edit : Sequence → Except Error Sequence) :
    modifyAt edit around.path (around.line level) = (edit level).map around.line := by
  induction around with
  | nil => cases h : edit level <;> simp [path, line, modifyAt, h, Except.map]
  | cons a around ih =>
    obtain ⟨left, right⟩ := a
    have hpath : path ((left, right) :: around) = left.length :: path around := rfl
    rw [hpath, modifyAt]
    simp only [line, List.getElem?_append_right (Nat.le_refl _), Nat.sub_self,
      List.getElem?_cons_zero, ih]
    cases h : edit level <;> simp [Except.map]

/-- The blank that goes to an end of a line is that beside the symbol there. -/
theorem blankBefore_eq (s : Sequence) : s.blankBefore = blankBeside s.flat.head? := by
  cases s with
  | nil => rfl
  | cons t rest =>
    cases ht : t.sequence? with
    | none =>
      rw [flat_cons, symbols_plain ht]
      cases t <;> rfl
    | some inner =>
      rw [Token.eq_group_of_sequence? ht, flat_cons, symbols_group]
      rfl

theorem blankAtEnd_eq (s : Sequence) : s.blankAtEnd = blankBeside s.flat.getLast? := by
  rcases List.eq_nil_or_concat s with rfl | ⟨rest, t, rfl⟩
  · rfl
  · rw [List.concat_eq_append, blankAtEnd, List.getLast?_concat, flat_append, flat_singleton]
    cases ht : t.sequence? with
    | none =>
      rw [symbols_plain ht, List.getLast?_concat]
      cases t <;> rfl
    | some inner =>
      rw [Token.eq_group_of_sequence? ht, symbols_group, ← List.append_assoc, List.getLast?_concat]
      rfl

theorem symbols_blankBeside (symbol : Option Symbol) :
    (blankBeside symbol).symbols = [.token (blankBeside symbol)] := by
  apply symbols_plain
  unfold blankBeside
  split <;> rfl

namespace Site.Owns

variable {x : Site} {s : Sequence} {k : Nat} {place : Location}

theorem modifyAt (h : x.Owns s k place) (edit : Sequence → Except Error Sequence) :
    modifyAt edit place.path s = (edit x.level).map x.around.line := by
  rw [← h.line, h.path]
  exact x.around.modifyAt_line x.level edit

theorem insertAfter (h : x.Owns s k place) :
    Sequence.modifyAt (insertAfter place.slot.index) place.path s =
      .ok (x.put [x.token, x.token.blankAfter]) := by
  have hinsert (before : Sequence) (t : Token) :
      (before ++ x.token :: x.after).insertIdx (before.length + 1) t =
        before ++ x.token :: t :: x.after := by
    induction before with
    | nil => rfl
    | cons u before ih => simpa using ih
  rw [h.modifyAt, Sequence.insertAfter, h.index, x.getElem?_level]
  simp [Except.map, put, Site.level, hinsert]

theorem removeAt (h : x.Owns s k place) (hk : s.locate k = .ok place) :
    s.removeAt k = if x.level.length = 1 then .error .sequenceTooShort else .ok (x.put []) := by
  have hlength : x.level.length = x.before.length + 1 + x.after.length := by
    simp [Site.level]
    omega
  rw [Sequence.removeAt, hk]
  dsimp only
  rw [h.modifyAt, dropToken, h.index]
  by_cases hone : x.level.length = 1
  · rw [if_pos (by omega), if_pos hone]
    rfl
  · rw [if_neg (by omega), if_neg hone]
    simp [Except.map, put, Site.level, List.eraseIdx_append_of_length_le]

theorem replaceAt (h : x.Owns s k place) (hk : s.locate k = .ok place) (t : Token) :
    s.replaceAt k t =
      if x.token.isOperand != t.isOperand then
        .error (.mismatch ("cannot put " ++ t.text ++ " in place of " ++ x.token.text))
      else if 21 < s.totalLength + (t.displayLength - x.token.displayLength) then
        .error (.full "token sequence")
      else .ok (x.put [t]) := by
  rw [Sequence.replaceAt, hk, h.elementAt hk]
  dsimp only
  rw [h.modifyAt, h.index, maxDisplayLength]
  simp [Except.map, put, Site.level, List.set_append_right]

/-- The blank that follows the token is the one beside the symbol under the slot. -/
theorem flat_put_behind (h : x.Owns s k place) :
    (x.put [x.token, x.token.blankAfter]).flat =
      splice s.flat (groupEnd s.flat k) (groupEnd s.flat k)
        [.token (Symbol.blankBeside s.flat[k]?)] := by
  have hlength : (x.left ++ x.token.symbols).length = x.start + x.token.displayLength := by
    rw [List.length_append, length_left, length_symbols]
  rw [Site.flat_put, flat_cons, flat_singleton, ← h.blankBeside, symbols_blankBeside, h.group.2,
    ← hlength, splice, h.flat_eq, List.take_left, List.drop_left]
  simp

theorem flat_put (h : x.Owns s k place) (tokens : Sequence) :
    (x.put tokens).flat = replaceGroup s.flat k tokens.flat := by
  obtain ⟨hstart, hend⟩ := h.group
  rw [replaceGroup, hstart, hend, ← h.line, x.splice_flat, Site.flat_put]

end Site.Owns

theorem flat_insertAt (s : Sequence) (k : Int) :
    (s.insertAt k).map flat =
      if k < -1 ∨ (s.totalLength : Int) - 2 < k then
        .error (.outOfRange "edit index" k (s.totalLength - 1))
      else if 21 ≤ s.totalLength then .error (.full "token sequence")
      else .ok (insertBlank s.flat k) := by
  have htotal : s.totalLength = s.flat.length + 2 := by
    rw [length_flat, totalLength]
    omega
  unfold insertAt
  dsimp only
  by_cases hout : k < -1 ∨ (s.totalLength : Int) - 2 < k
  · rw [if_pos hout, if_pos hout]
    rfl
  rw [if_neg hout, if_neg hout, maxDisplayLength]
  by_cases hfull : 21 ≤ s.totalLength
  · rw [if_pos (by omega), if_pos hfull]
    rfl
  rw [if_neg (by omega), if_neg hfull, insertBlank]
  by_cases hfront : k = -1
  · rw [if_pos hfront, if_pos hfront, Except.map, flat_cons, blankBefore_eq, symbols_blankBeside]
    rfl
  rw [if_neg hfront, if_neg hfront]
  by_cases hend : k = s.flat.length
  · rw [if_pos (by omega), if_pos hend, Except.map, flat_append, flat_singleton, blankAtEnd_eq,
      symbols_blankBeside]
  rw [if_neg (by omega), if_neg hend]
  obtain ⟨place, hplace⟩ := locate_of_lt (s := s) (k := k.toNat) (by rw [← length_flat]; omega)
  obtain ⟨x, hx⟩ := exists_owner hplace
  rw [hplace]
  dsimp only
  rw [hx.insertAfter, Except.map, hx.flat_put_behind]

/-- Edits of a line are edits of its symbols. -/
theorem edits_flat (s : Sequence) :
    (∀ k : Int, (s.insertAt k).map flat =
      if k < -1 ∨ (s.totalLength : Int) - 2 < k then
        .error (.outOfRange "edit index" k (s.totalLength - 1))
      else if 21 ≤ s.totalLength then .error (.full "token sequence")
      else .ok (insertBlank s.flat k)) ∧
    (∀ k place, s.locate k = .ok place →
      ∃ level current, s.level place.path = .ok level ∧ s.elementAt k = .ok current ∧
        (s.removeAt k).map flat =
          (if level.length = 1 then .error .sequenceTooShort
          else .ok (replaceGroup s.flat k [])) ∧
        ∀ t, (s.replaceAt k t).map flat =
          if current.isOperand != t.isOperand then
            .error (.mismatch ("cannot put " ++ t.text ++ " in place of " ++ current.text))
          else if 21 < s.totalLength + (t.displayLength - current.displayLength) then
            .error (.full "token sequence")
          else .ok (replaceGroup s.flat k t.symbols)) ∧
    ∀ k, s.totalLength - 2 ≤ k →
      s.removeAt k = .error (.outside "edit index" k (s.totalLength - 2)) ∧
      ∀ t, s.replaceAt k t = .error (.outside "edit index" k (s.totalLength - 2)) := by
  have htotal : s.totalLength - 2 = s.contentLength := by
    rw [totalLength]
    omega
  refine ⟨s.flat_insertAt, ?_, ?_⟩
  · intro k place hk
    obtain ⟨x, hx⟩ := exists_owner hk
    refine ⟨x.level, x.token, hx.level, hx.elementAt hk, ?_, ?_⟩
    · rw [hx.removeAt hk]
      split_ifs
      · rfl
      · rw [Except.map, hx.flat_put, flat_nil]
    · intro t
      rw [hx.replaceAt hk]
      split_ifs
      · rfl
      · rfl
      · rw [Except.map, hx.flat_put, flat_singleton]
  · intro k hk
    rw [htotal] at hk ⊢
    have hlocate := locate_of_le hk
    refine ⟨by rw [removeAt, hlocate], ?_⟩
    intro t
    rw [replaceAt, hlocate]

end Sequence

end TeachPendant
