import TeachPendant.Proofs.Sequence.Layout

namespace TeachPendant

namespace Sequence

theorem walk?_cons (s : Sequence) (i : Nat) (path : List Nat) :
    s.walk? (i :: path) = (s[i]?.bind Token.sequence?).bind fun inner => inner.walk? path := rfl

theorem exists_group_of_walk? {s l : Sequence} {i : Nat} {path : List Nat}
    (h : s.walk? (i :: path) = some l) : ∃ inner, .group inner ∈ s ∧ inner.walk? path = some l := by
  rw [walk?_cons, Option.bind_eq_some_iff] at h
  obtain ⟨inner, hinner, h⟩ := h
  obtain ⟨t, ht, hseq⟩ := Option.bind_eq_some_iff.mp hinner
  obtain rfl := Token.eq_group_of_sequence? hseq
  exact ⟨inner, List.mem_of_getElem? ht, h⟩

theorem walk?_append (s : Sequence) (path rest : List Nat) :
    s.walk? (path ++ rest) = (s.walk? path).bind fun level => level.walk? rest :=
  List.foldlM_append

namespace Surroundings

theorem walk?_path (around : Surroundings) (level : Sequence) :
    (around.line level).walk? around.path = some level :=
  (level_eq_ok_iff _ _ _).mp (around.level_line level)

/-- The levels of a line are those from a level on downward, and others that are of the same kinds
whatever that level is. -/
theorem walk?_cases (around : Surroundings) (level other : Sequence) {path : List Nat}
    {l : Sequence} (h : (around.line level).walk? path = some l) :
    (∃ rest, path = around.path ++ rest ∧ level.walk? rest = some l) ∨
      ¬ around.path <+: path ∧ ∃ l', (around.line other).walk? path = some l' ∧
        l.map Token.isOperand = l'.map Token.isOperand := by
  induction around generalizing path with
  | nil => exact Or.inl ⟨path, rfl, h⟩
  | cons a around ih =>
    obtain ⟨left, right⟩ := a
    have hpath : Surroundings.path ((left, right) :: around) =
        left.length :: Surroundings.path around := rfl
    rw [hpath]
    cases path with
    | nil =>
      cases h
      exact Or.inr ⟨by simp, _, rfl, by simp [line, Token.isOperand]⟩
    | cons i rest =>
      rw [walk?_cons] at h
      by_cases hi : i = left.length
      · have hinner (inner : Sequence) :
            ((left ++ .group inner :: right)[i]?.bind Token.sequence?) = some inner := by
          simp [hi, Token.sequence?, Operand.sequence?]
        rw [line, hinner, Option.bind_some] at h
        rcases ih h with ⟨rest', rfl, hrest⟩ | ⟨hout, l', hl', hkinds⟩
        · exact Or.inl ⟨rest', by rw [hi]; rfl, hrest⟩
        · refine Or.inr ⟨fun hprefix => hout ?_, l', ?_, hkinds⟩
          · exact (List.cons_prefix_cons.mp hprefix).2
          · rw [line, walk?_cons, hinner, Option.bind_some, hl']
      · -- Beside the way to the level nothing differs.
        have hbeside (inner : Sequence) : (left ++ .group inner :: right)[i]? =
            (left ++ .operand .blank :: right)[i]? := by
          rcases Nat.lt_or_gt_of_ne hi with hlt | hgt
          · rw [List.getElem?_append_left hlt, List.getElem?_append_left hlt]
          · obtain ⟨j, rfl⟩ := Nat.exists_eq_add_of_lt hgt
            simp [List.getElem?_append_right, Nat.add_assoc]
        refine Or.inr ⟨fun hprefix => hi ?_, l, ?_, rfl⟩
        · exact (List.cons_prefix_cons.mp hprefix).1.symm
        · rw [line, hbeside] at h
          rw [line, walk?_cons, hbeside]
          exact h

end Surroundings

/-- A property of the line and of all the levels nested in it. -/
def EveryLevel (P : Sequence → Prop) (s : Sequence) : Prop :=
  ∀ path level, s.walk? path = some level → P level

section EveryLevel

variable {P : Sequence → Prop}

theorem everyLevel_iff {s : Sequence} :
    s.EveryLevel P ↔ P s ∧ ∀ inner, .group inner ∈ s → inner.EveryLevel P := by
  constructor
  · refine fun h => ⟨h [] s rfl, fun inner hinner path level hlevel => ?_⟩
    obtain ⟨i, hi⟩ := List.mem_iff_getElem?.mp hinner
    exact h (i :: path) level (by rw [walk?_cons, hi]; exact hlevel)
  · rintro ⟨hs, hinner⟩ path level hlevel
    cases path with
    | nil =>
      cases hlevel
      exact hs
    | cons i path =>
      obtain ⟨inner, hmem, hlevel⟩ := exists_group_of_walk? hlevel
      exact hinner inner hmem path level hlevel

theorem EveryLevel.inside {around : Surroundings} {level : Sequence}
    (h : (around.line level).EveryLevel P) : level.EveryLevel P := fun path l hl =>
  h (around.path ++ path) l (by rw [walk?_append, around.walk?_path, Option.bind_some, hl])

/-- Where only the kinds of the tokens matter, another level leaves the levels around it as they
were. -/
theorem EveryLevel.line {around : Surroundings} {level other : Sequence}
    (hkinds : ∀ l l' : Sequence, l.map Token.isOperand = l'.map Token.isOperand → P l' → P l)
    (h : (around.line other).EveryLevel P) (hlevel : level.EveryLevel P) :
    (around.line level).EveryLevel P := by
  intro path l hl
  rcases around.walk?_cases level other hl with ⟨rest, rfl, hrest⟩ | ⟨-, l', hl', hsame⟩
  · exact hlevel rest l hrest
  · exact hkinds l l' hsame (h path l' hl')

end EveryLevel

end Sequence

end TeachPendant
