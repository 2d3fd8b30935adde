import TeachPendant.Proofs.Sequence.Insertion
import TeachPendant.Proofs.Sequence.Levels

namespace TeachPendant

/-- No level of the line is empty. -/
def Sequence.Filled (s : Sequence) : Prop := s.EveryLevel (· ≠ [])

/-- The token is not an empty nested sequence and has none inside. -/
def Token.Filled (t : Token) : Prop := ∀ inner, t.sequence? = some inner → Sequence.Filled inner

namespace Sequence

open TeachPendant.Symbol

theorem totalLength_eq (s : Sequence) : s.totalLength = 2 + s.flat.length := by
  rw [totalLength, length_flat]

theorem Site.totalLength_put (x : Site) (tokens : Sequence) :
    (x.put tokens).totalLength + x.token.displayLength =
      x.line.totalLength + tokensLength tokens := by
  rw [totalLength_eq, totalLength_eq, flat_put, flat_line]
  simp only [List.length_append, length_flat, length_symbols, contentLength]
  omega

theorem Site.totalLength_put_nil (x : Site) :
    (x.put []).totalLength + x.token.displayLength = x.line.totalLength :=
  x.totalLength_put []

theorem Site.totalLength_put_singleton (x : Site) (t : Token) :
    (x.put [t]).totalLength + x.token.displayLength = x.line.totalLength + t.displayLength := by
  rw [totalLength_put, tokensLength, tokensLength, Nat.add_zero]

/-- A token of the same kind is refused exactly if the line is too long before or after. So the
length after decides, except where a line that is too long would become one that fits. -/
theorem replaceAt_full_iff {s : Sequence} {k : Nat} {place : Location}
    (hk : s.locate k = .ok place) :
    ∃ x : Site, x.Owns s k place ∧ s.elementAt k = .ok x.token ∧
      ∀ t, t.isOperand = x.token.isOperand →
        (s.replaceAt k t =
          if 21 < s.totalLength ∨ 21 < (x.put [t]).totalLength then .error (.full "token sequence")
          else .ok (x.put [t])) ∧
        ((s.replaceAt k t = .error (.full "token sequence") ↔ 21 < (x.put [t]).totalLength) ↔
          s.totalLength ≤ 21 ∨ 21 < (x.put [t]).totalLength) := by
  obtain ⟨x, hx⟩ := exists_owner hk
  refine ⟨x, hx, hx.elementAt hk, fun t ht => ?_⟩
  have hput := x.totalLength_put_singleton t
  rw [hx.line] at hput
  have hroom : 21 < s.totalLength + (t.displayLength - x.token.displayLength) ↔
      21 < s.totalLength ∨ 21 < (x.put [t]).totalLength := by omega
  have houtcome : s.replaceAt k t =
      if 21 < s.totalLength ∨ 21 < (x.put [t]).totalLength then .error (.full "token sequence")
      else .ok (x.put [t]) := by
    rw [hx.replaceAt hk, ht, bne_self_eq_false, if_neg Bool.false_ne_true]
    simp only [hroom]
  refine ⟨houtcome, ?_⟩
  have hfull : s.replaceAt k t = .error (.full "token sequence") ↔
      21 < s.totalLength ∨ 21 < (x.put [t]).totalLength := by
    rw [houtcome]
    split_ifs with h
    · simpa using h
    · simpa using h
  rw [hfull]
  omega

/-- On a line that fits, a blank may stand for the inner nested sequence. -/
theorem replaceAt_full_bracketed : bracketed.locate 3 = .ok ⟨[2], .opening 0⟩ ∧
    ∃ x : Site, x.Owns bracketed 3 ⟨[2], .opening 0⟩ ∧
      x.token = .group [.operand (.flag true)] ∧ (x.put [.operand .blank]).totalLength = 9 ∧
      bracketed.replaceAt 3 (.operand .blank) = .ok (x.put [.operand .blank]) := by
  have hk : bracketed.locate 3 = .ok ⟨[2], .opening 0⟩ := rfl
  obtain ⟨x, hx, hcurrent, hreplace⟩ := replaceAt_full_iff hk
  have htoken : x.token = .group [.operand (.flag true)] := (Except.ok.inj hcurrent).symm
  have hkind : (Token.operand .blank).isOperand = x.token.isOperand := by rw [htoken]; rfl
  have htotal : bracketed.totalLength = 11 := rfl
  have hput := x.totalLength_put_singleton (.operand .blank)
  have hlength : (x.put [.operand .blank]).totalLength = 9 := by
    rw [hx.line, htotal, htoken] at hput
    exact Nat.add_right_cancel hput
  refine ⟨hk, x, hx, htoken, hlength, ?_⟩
  rw [(hreplace _ hkind).1, if_neg (by omega)]

/-- Ten blank operands with blank operators between them. -/
def tenBlanks : Sequence :=
  .operand .blank :: (List.replicate 9 [.operator .blank, .operand .blank]).flatten

/-- Alone on a line they fit; nested they are two slots too long. In place of the nested sequence an
operand would leave a line of three slots, but it is refused for want of room. -/
theorem replaceAt_overlong :
    let x : Site := ⟨[], [], .group tenBlanks, []⟩
    x.line.locate 0 = .ok ⟨[], .opening 0⟩ ∧ x.Owns x.line 0 ⟨[], .opening 0⟩ ∧
      x.line.totalLength = 23 ∧ (Token.operand (.flag true)).isOperand = x.token.isOperand ∧
      (x.put [.operand (.flag true)]).totalLength = 3 ∧
      ¬ (x.line.replaceAt 0 (.operand (.flag true)) = .error (.full "token sequence") ↔
        21 < (x.put [.operand (.flag true)]).totalLength) := by
  intro x
  have hrefused : x.line.replaceAt 0 (.operand (.flag true)) = .error (.full "token sequence") := rfl
  have hlength : (x.put [.operand (.flag true)]).totalLength = 3 := rfl
  refine ⟨rfl, ⟨rfl, rfl, rfl, rfl, rfl⟩, rfl, rfl, hlength, fun hiff => ?_⟩
  have hlong := hiff.mp hrefused
  omega

theorem filled_iff {s : Sequence} :
    s.Filled ↔ s ≠ [] ∧ ∀ inner, .group inner ∈ s → inner.Filled :=
  everyLevel_iff

/-- Where no level was empty, none is when a token gives way to others that leave something on its
own level. -/
theorem Site.filled_put {x : Site} {old tokens : Sequence} (h : (x.put old).Filled)
    (hlevel : x.before ++ tokens ++ x.after ≠ []) (htokens : ∀ t ∈ tokens, t.Filled) :
    (x.put tokens).Filled := by
  refine EveryLevel.line ?_ h (filled_iff.mpr ⟨hlevel, fun inner hinner => ?_⟩)
  · intro l l' hkinds hl' hl
    subst hl
    exact hl' (List.map_eq_nil_iff.mp hkinds.symm)
  · have hold := (filled_iff.mp (EveryLevel.inside h)).2 inner
    simp only [List.mem_append] at hinner hold
    rcases hinner with (hbefore | hnew) | hafter
    · exact hold (.inl (.inl hbefore))
    · exact htokens _ hnew inner rfl
    · exact hold (.inr hafter)

/-- What may be done to a line, with any arguments. -/
inductive Edit
  | insert (k : Int)
  | remove (k : Nat)
  | replace (k : Nat) (t : Token)

namespace Edit

def apply (s : Sequence) : Edit → Except Error Sequence
  | .insert k => s.insertAt k
  | .remove k => s.removeAt k
  | .replace k t => s.replaceAt k t

/-- How the length of the line changes when the edit succeeds. -/
def Resizes (s s' : Sequence) : Edit → Prop
  | .insert _ => s'.totalLength = s.totalLength + 1
  | .remove k => ∃ removed, s.elementAt k = .ok removed ∧
      s'.totalLength + removed.displayLength = s.totalLength
  | .replace k t => ∃ current, s.elementAt k = .ok current ∧
      s'.totalLength + current.displayLength = s.totalLength + t.displayLength

/-- The token that the edit brings along has no empty level. -/
def Filled : Edit → Prop
  | .replace _ t => t.Filled
  | .insert _ | .remove _ => True

end Edit

/-- The line after a session of edits; one that fails leaves it as it is. -/
def edited (s : Sequence) (edits : List Edit) : Sequence :=
  edits.foldl (fun line e => (e.apply line).toOption.getD line) s

section Step

variable {s s' : Sequence} {k : Nat} {t : Token} {e : Edit}

theorem room_of_insertAt {k : Int} (h : s.insertAt k = .ok s') : s.totalLength < 21 := by
  have hflat := s.flat_insertAt k
  rw [h, Except.map] at hflat
  split_ifs at hflat with _ hfull
  omega

theorem insertAt_resizes {k : Int} (h : s.insertAt k = .ok s') :
    (Edit.insert k).Resizes s s' ∧ (s.Filled → s'.Filled) := by
  obtain ⟨x, rfl, hx⟩ := exists_insertedAt h
  have hlength := x.totalLength_put_nil
  rw [hx.without, Token.displayLength_plain hx.plain] at hlength
  refine ⟨hlength.symm, fun hs => ?_⟩
  rw [← hx.without] at hs
  refine Site.filled_put hs (by simp) fun t ht inner hinner => ?_
  rw [List.mem_singleton.mp ht, hx.plain] at hinner
  cases hinner

/-- An edit that passes on the errors of locating its slot succeeds only at slots of the line. -/
theorem exists_located {edited : Except Error Sequence}
    (herror : ∀ error, s.locate k = .error error → edited = .error error) (h : edited = .ok s') :
    ∃ place, s.locate k = .ok place := by
  cases hk : s.locate k with
  | ok place => exact ⟨place, rfl⟩
  | error error =>
    rw [herror error hk] at h
    cases h

theorem removeAt_resizes (h : s.removeAt k = .ok s') :
    (Edit.remove k).Resizes s s' ∧ (s.Filled → s'.Filled) := by
  obtain ⟨place, hk⟩ := exists_located (fun e he => by rw [removeAt, he]) h
  obtain ⟨x, hx⟩ := exists_owner hk
  rw [hx.removeAt hk] at h
  split_ifs at h with hone
  cases h
  have hlength := x.totalLength_put_nil
  rw [hx.line] at hlength
  refine ⟨⟨x.token, hx.elementAt hk, hlength⟩, fun hs => ?_⟩
  rw [← hx.line] at hs
  refine Site.filled_put hs (fun hnil => hone ?_) (by simp)
  have hbeside := congrArg List.length hnil
  simp only [Site.level, List.length_append, List.length_nil, List.length_singleton] at hbeside ⊢
  omega

theorem replaceAt_resizes (h : s.replaceAt k t = .ok s') :
    (Edit.replace k t).Resizes s s' ∧ (s.totalLength ≤ 21 → s'.totalLength ≤ 21) ∧
      (s.Filled → t.Filled → s'.Filled) := by
  obtain ⟨place, hk⟩ := exists_located (fun e he => by rw [replaceAt, he]) h
  obtain ⟨x, hx⟩ := exists_owner hk
  rw [hx.replaceAt hk] at h
  split_ifs at h with hkind hfull
  cases h
  have hlength := x.totalLength_put_singleton t
  rw [hx.line] at hlength
  refine ⟨⟨x.token, hx.elementAt hk, hlength⟩, fun hroom => by omega, fun hs ht => ?_⟩
  rw [← hx.line] at hs
  exact Site.filled_put hs (by simp) (by simpa using ht)

theorem Edit.resizes (h : e.apply s = .ok s') : e.Resizes s s' := by
  cases e with
  | insert k => exact (insertAt_resizes h).1
  | remove k => exact (removeAt_resizes h).1
  | replace k t => exact (replaceAt_resizes h).1

theorem Edit.keeps_room (h : e.apply s = .ok s') (hs : s.totalLength ≤ 21) :
    s'.totalLength ≤ 21 := by
  cases e with
  | insert k =>
    have hroom := room_of_insertAt h
    have hlength : s'.totalLength = s.totalLength + 1 := (insertAt_resizes h).1
    omega
  | remove k =>
    obtain ⟨removed, -, hlength⟩ := (removeAt_resizes h).1
    omega
  | replace k t => exact (replaceAt_resizes h).2.1 hs

theorem Edit.keeps_filled (h : e.apply s = .ok s') (he : e.Filled) (hs : s.Filled) :
    s'.Filled := by
  cases e with
  | insert k => exact (insertAt_resizes h).2 hs
  | remove k => exact (removeAt_resizes h).2 hs
  | replace k t => exact (replaceAt_resizes h).2.2 hs he

end Step

/-- A session of edits keeps the line within its display and every level in use, and each edit that
succeeds after it changes the length by what it puts in and takes out. -/
theorem edited_room {s : Sequence} (hroom : s.totalLength ≤ 21) (hs : s.Filled) (edits : List Edit)
    (hedits : ∀ e ∈ edits, e.Filled) :
    (s.edited edits).totalLength ≤ 21 ∧ (s.edited edits).Filled ∧
      ∀ e s', Edit.apply (s.edited edits) e = .ok s' → e.Resizes (s.edited edits) s' := by
  induction edits generalizing s with
  | nil => exact ⟨hroom, hs, fun e s' h => Edit.resizes h⟩
  | cons e edits ih =>
    have hrest : ∀ e ∈ edits, e.Filled := fun e he => hedits e (List.mem_cons_of_mem _ he)
    rw [edited, List.foldl_cons]
    cases h : e.apply s with
    | error error => exact ih hroom hs hrest
    | ok s' =>
      have hfilled := Edit.keeps_filled h (hedits e List.mem_cons_self) hs
      exact ih (Edit.keeps_room h hroom) hfilled hrest

/-- A group and a blank go in and a nested sequence goes; the last edit is out of range. -/
theorem edited_room_bracketed :
    let edits : List Edit :=
      [.insert 3, .replace 0 (.group [.operand .blank]), .remove 7, .remove 100]
    bracketed.totalLength ≤ 21 ∧ bracketed.Filled ∧ (∀ e ∈ edits, e.Filled) ∧
      (bracketed.edited edits).totalLength = 11 ∧ (bracketed.edited edits).Filled := by
  intro edits
  have hroom : bracketed.totalLength ≤ 21 := by decide
  have hflag : Filled [.operand (.flag true)] := filled_iff.mpr ⟨by simp, by simp⟩
  have hblank : Filled [.operand .blank] := filled_iff.mpr ⟨by simp, by simp⟩
  have hnested : Filled [.group [.operand (.flag true)], .operator .mul, .operand .blank] :=
    filled_iff.mpr ⟨by simp, by simpa using hflag⟩
  have hs : bracketed.Filled :=
    filled_iff.mpr ⟨List.cons_ne_nil _ _, by simpa [bracketed] using hnested⟩
  have hgroup : (Token.group [.operand .blank]).Filled := by
    intro inner hinner
    cases hinner
    exact hblank
  have hedits : ∀ e ∈ edits, e.Filled := by simpa [edits, Edit.Filled] using hgroup
  obtain ⟨-, hfilled, -⟩ := edited_room hroom hs edits hedits
  exact ⟨hroom, hs, hedits, rfl, hfilled⟩

end Sequence

end TeachPendant
