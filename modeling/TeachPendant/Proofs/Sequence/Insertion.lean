import TeachPendant.Proofs.Sequence.FlatEdits

namespace TeachPendant

namespace Sequence

open TeachPendant.Symbol

theorem layoutFrom_append (i : Nat) (a b : Sequence) :
    layoutFrom i (a ++ b) = layoutFrom i a ++ layoutFrom (i + a.length) b := by
  induction a generalizing i with
  | nil => rfl
  | cons t a ih =>
    rw [List.cons_append, layoutFrom, layoutFrom, ih, List.length_cons, List.append_assoc,
      show i + 1 + a.length = i + (a.length + 1) by omega]

theorem tokensLength_append (a b : Sequence) :
    tokensLength (a ++ b) = tokensLength a + tokensLength b := by
  rw [← length_layoutFrom 0, layoutFrom_append, List.length_append, length_layoutFrom,
    length_layoutFrom]

/-- The slots of a token follow those of the tokens in front of it. -/
theorem layout_getElem? (before : Sequence) (t : Token) (after : Sequence) {j : Nat}
    (hj : j < t.displayLength) :
    (layout (before ++ t :: after))[tokensLength before + j]? = (layoutIn before.length t)[j]? := by
  rw [layout, layoutFrom_append, Nat.zero_add, layoutFrom, ← length_layoutFrom 0 before,
    List.getElem?_append_right (Nat.le_add_right _ _), Nat.add_sub_cancel_left,
    List.getElem?_append_left (by rwa [length_layoutIn])]

theorem locate_within {inner : Sequence} {k : Nat} {place : Location}
    (h : inner.locate k = .ok place) (left right : Sequence) :
    (left ++ .group inner :: right).locate (tokensLength left + (k + 1)) =
      .ok (place.within left.length) := by
  rw [locate_eq_ok_iff] at h ⊢
  have hk : k < inner.layout.length := (List.getElem?_eq_some_iff.mp h).1
  rw [layout_getElem? left _ right, layoutIn_group, List.cons_append, List.getElem?_cons_succ,
    List.getElem?_append_left (by simpa using hk), List.getElem?_map, h]
  · rfl
  · rw [length_layout, contentLength] at hk
    rw [Token.displayLength_group]
    omega

theorem Surroundings.locate_line {level : Sequence} {k : Nat} {place : Location}
    (h : level.locate k = .ok place) (around : Surroundings) :
    (around.line level).locate (around.start + k) = .ok ⟨around.path ++ place.path, place.slot⟩ := by
  induction around with
  | nil => simpa [line, start, path] using h
  | cons a around ih =>
    obtain ⟨left, right⟩ := a
    have hslot : start ((left, right) :: around) + k =
        tokensLength left + (start around + k + 1) := by
      rw [start]
      omega
    rw [hslot]
    exact locate_within ih left right

/-- A token that is no nested sequence is found at its slot. -/
theorem Site.locate_start {x : Site} (h : x.token.sequence? = none) :
    x.line.locate x.start = .ok ⟨x.path, .element x.before.length⟩ := by
  have hlevel : (x.before ++ [x.token] ++ x.after).locate (tokensLength x.before) =
      .ok ⟨[], .element x.before.length⟩ := by
    have hslot := layout_getElem? x.before x.token x.after x.token.displayLength_pos
    rw [locate_eq_ok_iff, List.append_assoc]
    simpa [layoutIn_plain _ h] using hslot
  have hline := Surroundings.locate_line hlevel x.around
  rwa [List.append_nil] at hline

theorem Site.owns_start {x : Site} (h : x.token.sequence? = none) :
    x.Owns x.line x.start ⟨x.path, .element x.before.length⟩ :=
  ⟨rfl, rfl, rfl, h, rfl⟩

theorem insertAt_front (s : Sequence) : s.insertAt (-1) =
    if 21 ≤ s.totalLength then .error (.full "token sequence") else .ok (s.blankBefore :: s) := by
  unfold insertAt
  dsimp only
  rw [if_neg (by rw [totalLength]; omega), maxDisplayLength, if_pos rfl]
  by_cases hfull : 21 ≤ s.totalLength
  · rw [if_pos (by omega), if_pos hfull]
  · rw [if_neg (by omega), if_neg hfull]

/-- At a slot of a token a blank is put behind the token. -/
theorem Site.Owns.insertAt {x : Site} {s : Sequence} {k : Nat} {place : Location}
    (h : x.Owns s k place) (hk : s.locate k = .ok place) : s.insertAt k =
      if 21 ≤ s.totalLength then .error (.full "token sequence")
      else .ok (x.put [x.token, x.token.blankAfter]) := by
  have hlt : k < s.contentLength := by
    by_contra hle
    rw [locate_of_le (Nat.le_of_not_lt hle)] at hk
    cases hk
  have htotal : s.totalLength = 2 + s.contentLength := rfl
  unfold Sequence.insertAt
  dsimp only
  rw [if_neg (by omega), maxDisplayLength]
  by_cases hfull : 21 ≤ s.totalLength
  · rw [if_pos (by omega), if_pos hfull]
  · rw [if_neg (by omega), if_neg hfull, if_neg (by omega), if_neg (by omega), Int.toNat_natCast,
      hk]
    exact h.insertAfter

/-- The blank that an insertion at slot `k` puts in. -/
def insertedBlank (s : Sequence) (k : Int) : Token :=
  if k = -1 then blankBeside s.flat.head?
  else if k = (s.totalLength : Int) - 2 then blankBeside s.flat.getLast?
  else blankBeside s.flat[k.toNat]?

/-- The slot that the blank gets: the first one, the one at the end, or the one behind what belongs to
symbol `k`, which for an opening bracket is behind the matching one. -/
def blankSlot (s : Sequence) (k : Int) : Nat :=
  if k = -1 then 0
  else if k = (s.totalLength : Int) - 2 then s.totalLength - 2
  else groupEnd s.flat k.toNat

/-- The token picked out is the blank that an insertion at slot `k` has put into the line `s`. -/
structure Site.InsertedAt (x : Site) (s : Sequence) (k : Int) : Prop where
  without : x.put [] = s
  token : x.token = s.insertedBlank k
  start : x.start = s.blankSlot k
  front : k = -1 → x.around = [] ∧ x.before = [] ∧ x.token = x.after.blankBefore
  behind : k ≠ -1 → x.token = x.before.blankAtEnd
  alone : x.before ++ x.after = [] → s = []

theorem exists_insertedAt {s s' : Sequence} {k : Int} (h : s.insertAt k = .ok s') :
    ∃ x : Site, x.line = s' ∧ x.InsertedAt s k := by
  unfold insertAt at h
  dsimp only at h
  split_ifs at h with hout hfull hfront hend
  · cases h
    refine ⟨⟨[], [], s.blankBefore, s⟩, rfl, ?_, ?_, ?_, fun _ => ⟨rfl, rfl, rfl⟩, ?_, id⟩
    · rfl
    · rw [insertedBlank, if_pos hfront, blankBefore_eq]
    · rw [blankSlot, if_pos hfront]
      rfl
    · exact fun hk => absurd hfront hk
  · cases h
    refine ⟨⟨[], s, s.blankAtEnd, []⟩, ?_, ?_, ?_, ?_, fun hk => absurd hk hfront, fun _ => rfl, ?_⟩
    · simp [Site.line, Site.put, Surroundings.line]
    · simp [Site.put, Surroundings.line]
    · rw [insertedBlank, if_neg hfront, if_pos hend, blankAtEnd_eq]
    · rw [blankSlot, if_neg hfront, if_pos hend, totalLength, Nat.add_sub_cancel_left]
      exact Nat.zero_add _
    · simp
  · split at h
    · cases h
    next place hplace =>
    obtain ⟨x, hx⟩ := exists_owner hplace
    rw [hx.insertAfter] at h
    cases h
    refine ⟨⟨x.around, x.before ++ [x.token], x.token.blankAfter, x.after⟩, ?_, ?_, ?_, ?_,
      fun hk => absurd hk hfront, fun _ => ?_, ?_⟩
    · simp [Site.line, Site.put]
    · rw [← hx.line]
      simp [Site.line, Site.put]
    · rw [insertedBlank, if_neg hfront, if_neg hend, hx.blankBeside]
    · rw [blankSlot, if_neg hfront, if_neg hend, hx.group.2]
      simp [Site.start, tokensLength_append, tokensLength, Nat.add_assoc]
    · simp [blankAtEnd]
    · simp

theorem sequence?_blankBeside (symbol : Option Symbol) : (blankBeside symbol).sequence? = none := by
  unfold blankBeside
  split <;> rfl

theorem Site.InsertedAt.plain {x : Site} {s : Sequence} {k : Int} (h : x.InsertedAt s k) :
    x.token.sequence? = none := by
  rw [h.token, insertedBlank]
  split_ifs <;> exact sequence?_blankBeside _

/-- Inserting and removing undo each other: the blank is found at its slot, and when it is removed
there, the line is as it was before. -/
theorem removeAt_insertAt {s s' : Sequence} {k : Int} (hs : s ≠ []) (h : s.insertAt k = .ok s') :
    s'.elementAt (s.blankSlot k) = .ok (s.insertedBlank k) ∧ s'.removeAt (s.blankSlot k) = .ok s := by
  obtain ⟨x, rfl, hx⟩ := exists_insertedAt h
  have hlocate := Site.locate_start hx.plain
  have howns := Site.owns_start hx.plain
  have hlevel : x.level.length ≠ 1 := by
    intro hone
    refine hs (hx.alone (List.length_eq_zero_iff.mp ?_))
    simp only [Site.level, List.length_append, List.length_singleton] at hone ⊢
    omega
  rw [← hx.start, ← hx.token]
  refine ⟨howns.elementAt hlocate, ?_⟩
  rw [howns.removeAt hlocate, if_neg hlevel, hx.without]

/-- A blank, a plus sign, and then two pairs of brackets, one at the start of the other. -/
def bracketed : Sequence :=
  [.operand .blank, .operator .add,
    .group [.group [.operand (.flag true)], .operator .mul, .operand .blank]]

/-- At the inner opening bracket, a blank is put behind the closing one. -/
theorem removeAt_insertAt_bracketed : bracketed ≠ [] ∧ ∃ s, bracketed.insertAt 3 = .ok s ∧
    s.elementAt 6 = .ok (.operator .blank) ∧ s.removeAt 6 = .ok bracketed := by
  have hs : bracketed ≠ [] := List.cons_ne_nil _ _
  obtain ⟨s, h⟩ : ∃ s, bracketed.insertAt 3 = .ok s := ⟨_, rfl⟩
  exact ⟨hs, s, h, removeAt_insertAt hs h⟩

end Sequence

end TeachPendant
