import TeachPendant.Expression.Evaluate
import TeachPendant.Proofs.Sequence.Insertion
import TeachPendant.Proofs.Sequence.Levels

namespace TeachPendant

namespace Sequence

open TeachPendant.Symbol

section Level

variable {s t : Sequence}

/-- The check looks at nothing but which tokens are operands. -/
theorem misplaced_congr (i : Nat) (h : s.map Token.isOperand = t.map Token.isOperand) :
    misplaced i s = misplaced i t := by
  induction s generalizing t i with
  | nil => rw [List.map_eq_nil_iff.mp h.symm]
  | cons u s ih =>
    obtain ⟨v, t, rfl, hv, ht⟩ := List.map_eq_cons_iff.mp h.symm
    rw [misplaced, misplaced, hv, ih (i + 1) ht.symm]

theorem checkWellFormed_congr (h : s.map Token.isOperand = t.map Token.isOperand) :
    checkWellFormed s = checkWellFormed t := by
  have hlength := congrArg List.length h
  rw [List.length_map, List.length_map] at hlength
  rw [checkWellFormed, checkWellFormed, misplaced_congr 0 h, hlength]

theorem misplaced_append (i : Nat) (a b : Sequence) :
    misplaced i (a ++ b) = none ↔ misplaced i a = none ∧ misplaced (i + a.length) b = none := by
  induction a generalizing i with
  | nil => simp [misplaced]
  | cons u a ih =>
    rw [List.cons_append, misplaced, misplaced, List.length_cons]
    split_ifs
    · simp
    · rw [ih, show i + 1 + a.length = i + (a.length + 1) by omega]

/-- Two places further on the same tokens are in their places. -/
theorem misplaced_add_two (i : Nat) (s : Sequence) :
    misplaced (i + 2) s = none ↔ misplaced i s = none := by
  induction s generalizing i with
  | nil => simp [misplaced]
  | cons u s ih =>
    rw [misplaced, misplaced, Nat.add_mod_right, show i + 2 + 1 = i + 1 + 2 by omega]
    split_ifs
    · simp
    · exact ih (i + 1)

theorem misplaced_singleton (i : Nat) (u : Token) :
    misplaced i [u] = none ↔ u.isOperand = (i % 2 == 0) := by
  simp [misplaced]

theorem checkWellFormed_iff_misplaced (s : Sequence) :
    checkWellFormed s = .ok () ↔ s.length % 2 = 1 ∧ misplaced 0 s = none := by
  rw [checkWellFormed]
  split_ifs with hlength
  · simp [hlength]
  · cases misplaced 0 s with
    | some i => simp
    | none => simp; omega

/-- At the next place a token of the other kind belongs. -/
theorem succ_mod_two_beq (n : Nat) : ((n + 1) % 2 == 0) = !(n % 2 == 0) := by
  rcases Nat.mod_two_eq_zero_or_one n with hn | hn
  · simp [hn, Nat.add_mod]
  · simp [hn, Nat.add_mod]

theorem isOperand_blankAfter (u : Token) : u.blankAfter.isOperand = !u.isOperand := by
  cases u <;> rfl

/-- The blank for the end of a level is of the kind that belongs there. -/
theorem misplaced_blankAtEnd (h : misplaced 0 s = none) :
    s.blankAtEnd.isOperand = (s.length % 2 == 0) := by
  rcases List.eq_nil_or_concat s with rfl | ⟨rest, u, rfl⟩
  · rfl
  · rw [List.concat_eq_append] at h ⊢
    have hlast := ((misplaced_append 0 rest [u]).mp h).2
    rw [misplaced_singleton] at hlast
    rw [blankAtEnd, List.getLast?_concat]
    dsimp only
    rw [isOperand_blankAfter, hlast, List.length_append, List.length_singleton, Nat.zero_add,
      succ_mod_two_beq]

/-- A level that passes the check starts with an operand. -/
theorem blankBefore_of_checkWellFormed (h : checkWellFormed s = .ok ()) :
    s.blankBefore = .operator .blank := by
  obtain ⟨hlength, hplaces⟩ := (checkWellFormed_iff_misplaced s).mp h
  match s with
  | [] => cases hlength
  | .operand _ :: _ => rfl
  | .operator _ :: _ => cases hplaces

/-- Two blanks that alternate with what is in front of them leave the level alternating. -/
theorem checkWellFormed_pair {before after : Sequence} {u : Token}
    (h : checkWellFormed (before ++ after) = .ok ())
    (hu : u.isOperand = (before.length % 2 == 0)) :
    checkWellFormed (before ++ [u, u.blankAfter] ++ after) = .ok () := by
  rw [checkWellFormed_iff_misplaced, misplaced_append] at h ⊢
  obtain ⟨hlength, hbefore, hafter⟩ := h
  have hpair : misplaced before.length [u, u.blankAfter] = none := by
    rw [misplaced, hu, bne_self_eq_false, if_neg Bool.false_ne_true, misplaced_singleton,
      isOperand_blankAfter, hu, succ_mod_two_beq]
  have hplaces : misplaced 0 (before ++ [u, u.blankAfter]) = none := by
    rw [misplaced_append, Nat.zero_add]
    exact ⟨hbefore, hpair⟩
  refine ⟨?_, hplaces, ?_⟩
  · simp only [List.length_append, List.length_cons, List.length_nil] at hlength ⊢
    omega
  · rw [List.length_append, ← Nat.add_assoc]
    exact (misplaced_add_two _ _).mpr hafter

end Level

/-- Operands and operators alternate on every level. -/
def Alternates (s : Sequence) : Prop :=
  ∀ path level, s.walk? path = some level → checkWellFormed level = .ok ()

theorem alternates_iff {s : Sequence} :
    s.Alternates ↔ checkWellFormed s = .ok () ∧ ∀ inner, .group inner ∈ s → inner.Alternates :=
  everyLevel_iff

theorem Alternates.inside {around : Surroundings} {level : Sequence}
    (h : (around.line level).Alternates) : level.Alternates :=
  EveryLevel.inside h

/-- With another level that holds no other nested sequences, a line that alternated does so on every
other level. -/
theorem Alternates.levels {around : Surroundings} {level other : Sequence}
    (h : (around.line other).Alternates)
    (hgroups : ∀ inner, .group inner ∈ level → .group inner ∈ other) {path : List Nat} {l : Sequence}
    (hl : (around.line level).walk? path = some l) :
    path = around.path ∧ l = level ∨ path ≠ around.path ∧ checkWellFormed l = .ok () := by
  rcases around.walk?_cases level other hl with ⟨rest, rfl, hrest⟩ | ⟨hout, l', hl', hkinds⟩
  · cases rest with
    | nil =>
      cases hrest
      exact Or.inl ⟨List.append_nil _, rfl⟩
    | cons i rest =>
      obtain ⟨inner, hmem, hrest⟩ := exists_group_of_walk? hrest
      have hinner := (alternates_iff.mp h.inside).2 inner (hgroups inner hmem)
      exact Or.inr ⟨by simp, hinner rest l hrest⟩
  · refine Or.inr ⟨fun he => hout (he ▸ List.prefix_rfl), ?_⟩
    rw [checkWellFormed_congr hkinds]
    exact h path l' hl'

/-- With one blank more a level is of even length. -/
theorem checkWellFormed_one_more {before after : Sequence} (t : Token)
    (h : checkWellFormed (before ++ after) = .ok ()) :
    checkWellFormed (before ++ [t] ++ after) ≠ .ok () := by
  intro hone
  have hodd := ((checkWellFormed_iff_misplaced _).mp h).1
  have hodd' := ((checkWellFormed_iff_misplaced _).mp hone).1
  simp only [List.length_append, List.length_singleton] at hodd hodd'
  omega

/-- Plain tokens that are put in bring no nested sequences with them. -/
theorem group_mem_of_plain {before between after inner : Sequence}
    (h : ∀ t ∈ between, t.sequence? = none)
    (hmem : .group inner ∈ before ++ between ++ after) : .group inner ∈ before ++ after := by
  simp only [List.mem_append] at hmem ⊢
  rcases hmem with (hmem | hmem) | hmem
  · exact Or.inl hmem
  · cases h _ hmem
  · exact Or.inr hmem

/-- The pairs of blanks that two insertions put in. -/
def blankPairs : List Sequence :=
  [[.operand .blank, .operator .blank], [.operator .blank, .operand .blank]]

theorem sequence?_of_blankPairs {pair : Sequence} (h : pair ∈ blankPairs) :
    ∀ t ∈ pair, t.sequence? = none := by
  simp only [blankPairs, List.mem_cons, List.not_mem_nil, or_false] at h
  rcases h with rfl | rfl <;> simp [Token.sequence?, Operand.sequence?]

theorem blankBeside_pair (symbol : Option Symbol) :
    [blankBeside symbol, (blankBeside symbol).blankAfter] ∈ blankPairs := by
  unfold blankBeside
  split <;> simp [blankPairs, Token.blankAfter]

theorem Alternates.pair {around : Surroundings} {before after pair : Sequence}
    (h : (around.line (before ++ after)).Alternates) (hpair : pair ∈ blankPairs)
    (hcheck : checkWellFormed (before ++ pair ++ after) = .ok ()) :
    (around.line (before ++ pair ++ after)).Alternates := by
  intro path l hl
  have hgroups (inner : Sequence) :
      .group inner ∈ before ++ pair ++ after → .group inner ∈ before ++ after :=
    group_mem_of_plain (sequence?_of_blankPairs hpair)
  rcases h.levels hgroups hl with ⟨-, rfl⟩ | ⟨-, hok⟩
  · exact hcheck
  · exact hok

/-- The line `s'` is `s` with a pair of blanks put in on one of its levels. -/
def PairedIn (s s' : Sequence) : Prop :=
  ∃ (around : Surroundings) (before pair after : Sequence), pair ∈ blankPairs ∧
    s = around.line (before ++ after) ∧ s' = around.line (before ++ pair ++ after)

namespace Site.InsertedAt

variable {x : Site} {s : Sequence} {k : Int}

theorem line_without (h : x.InsertedAt s k) : s = x.around.line (x.before ++ x.after) := by
  rw [← h.without, put, List.append_nil]

/-- Once the blank has been put in, exactly its own level fails the check. -/
theorem levels (h : x.InsertedAt s k) (hs : s.Alternates) {path : List Nat} {l : Sequence}
    (hl : x.line.walk? path = some l) : checkWellFormed l = .ok () ↔ path ≠ x.path := by
  rw [h.line_without] at hs
  have hlevel := hs _ _ (x.around.walk?_path _)
  have hplain : ∀ t ∈ [x.token], t.sequence? = none := by simpa using h.plain
  rcases hs.levels (fun _ => group_mem_of_plain hplain) hl with ⟨rfl, rfl⟩ | ⟨hne, hok⟩
  · exact ⟨fun hok => absurd hok (checkWellFormed_one_more _ hlevel), fun hne => absurd rfl hne⟩
  · exact ⟨fun _ => hne, fun _ => hok⟩

/-- With a second blank put in front of the first, the line alternates again. -/
theorem twice_front (h : x.InsertedAt s (-1)) (hs : s.Alternates) :
    Alternates (x.line.blankBefore :: x.line) ∧ s.PairedIn (x.line.blankBefore :: x.line) := by
  obtain ⟨haround, hbefore, htoken⟩ := h.front rfl
  have hwithout := h.line_without
  have hline : x.line = x.around.line (x.before ++ [x.token] ++ x.after) := rfl
  rw [haround, hbefore] at hwithout hline
  obtain rfl : s = x.after := hwithout
  have hcheck := hs [] x.after rfl
  rw [blankBefore_of_checkWellFormed hcheck] at htoken
  have hpair : [.operand .blank, .operator .blank] ∈ blankPairs := List.mem_cons_self
  have hfront : (Surroundings.line [] ([] ++ x.after)).Alternates := hs
  have htwice : checkWellFormed ([] ++ [.operand .blank, .operator .blank] ++ x.after) = .ok () :=
    checkWellFormed_pair hcheck rfl
  rw [hline, htoken]
  exact ⟨hfront.pair hpair htwice, [], [], _, x.after, hpair, rfl, rfl⟩

/-- With a second blank put in behind the first, the line alternates again. -/
theorem twice_behind (h : x.InsertedAt s k) (hk : k ≠ -1) (hs : s.Alternates) :
    (x.put [x.token, x.token.blankAfter]).Alternates ∧
      s.PairedIn (x.put [x.token, x.token.blankAfter]) := by
  have hpair : [x.token, x.token.blankAfter] ∈ blankPairs := by
    rw [h.token, insertedBlank]
    split_ifs <;> exact blankBeside_pair _
  refine ⟨?_, x.around, x.before, _, x.after, hpair, h.line_without, rfl⟩
  rw [h.line_without] at hs
  have hlevel := hs _ _ (x.around.walk?_path _)
  refine hs.pair hpair (checkWellFormed_pair hlevel ?_)
  rw [h.behind hk]
  have hplaces := ((checkWellFormed_iff_misplaced _).mp hlevel).2
  exact misplaced_blankAtEnd ((misplaced_append 0 _ _).mp hplaces).1

end Site.InsertedAt

/-- Two insertions at one place. After the first, exactly the level that holds the blank fails the
check; the second, at the slot of the blank or in front again, is refused for want of room or gives
a line that alternates on every level, with two blanks more and the other tokens as they were. -/
theorem insertAt_twice {s s₁ : Sequence} {k : Int} (hs : s.Alternates)
    (h : s.insertAt k = .ok s₁) :
    (∃ place level, s₁.locate (s.blankSlot k) = .ok place ∧ s₁.walk? place.path = some level ∧
      level[place.slot.index]? = some (s.insertedBlank k) ∧
      ∀ path l, s₁.walk? path = some l → (checkWellFormed l = .ok () ↔ path ≠ place.path)) ∧
    if 21 ≤ s₁.totalLength then
      s₁.insertAt (if k = -1 then -1 else s.blankSlot k) = .error (.full "token sequence")
    else ∃ s₂, s₁.insertAt (if k = -1 then -1 else s.blankSlot k) = .ok s₂ ∧
      s₂.Alternates ∧ s.PairedIn s₂ := by
  obtain ⟨x, rfl, hx⟩ := exists_insertedAt h
  have hlocate := Site.locate_start hx.plain
  have howns := Site.owns_start hx.plain
  rw [← hx.start, ← hx.token]
  refine ⟨⟨_, x.level, hlocate, (level_eq_ok_iff _ _ _).mp x.level_line, x.getElem?_level,
    fun path l hl => hx.levels hs hl⟩, ?_⟩
  by_cases hk : k = -1
  · subst hk
    rw [if_pos rfl, insertAt_front]
    split_ifs
    · rfl
    · exact ⟨_, rfl, hx.twice_front hs⟩
  · rw [if_neg hk, howns.insertAt hlocate]
    split_ifs
    · rfl
    · exact ⟨_, rfl, hx.twice_behind hk hs⟩

theorem alternates_bracketed : bracketed.Alternates := by
  have hinner : Alternates [.operand (.flag true)] := alternates_iff.mpr ⟨rfl, by simp⟩
  have houter : Alternates
      [.group [.operand (.flag true)], .operator .mul, .operand .blank] :=
    alternates_iff.mpr ⟨rfl, by simpa using hinner⟩
  exact alternates_iff.mpr ⟨rfl, by simpa [bracketed] using houter⟩

/-- The first blank is an operator behind the inner closing bracket, the second one an operand. -/
theorem insertAt_twice_bracketed : bracketed.Alternates ∧ ∃ s₁ s₂, bracketed.insertAt 3 = .ok s₁ ∧
    s₁.insertAt 6 = .ok s₂ ∧ s₂.Alternates ∧ bracketed.PairedIn s₂ := by
  obtain ⟨s₁, h⟩ : ∃ s₁, bracketed.insertAt 3 = .ok s₁ := ⟨_, rfl⟩
  have hroom : ¬ 21 ≤ s₁.totalLength := by
    cases h
    decide
  obtain ⟨-, htwice⟩ := insertAt_twice alternates_bracketed h
  rw [if_neg hroom] at htwice
  obtain ⟨s₂, hs₂, halternates, hpaired⟩ := htwice
  exact ⟨alternates_bracketed, s₁, s₂, h, hs₂, halternates, hpaired⟩

end Sequence

end TeachPendant
