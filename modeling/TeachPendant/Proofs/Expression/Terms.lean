import TeachPendant.Expression.Evaluate

namespace TeachPendant

/-- An operator and the operand to its right. -/
abbrev Term := Operator × Operand

namespace Term

def tokens : List Term → List Token
  | [] => []
  | (op, o) :: terms => .operator op :: .operand o :: tokens terms

/-- Works a term into the value of what stands to its left. -/
def apply (c : Context) (x : Value) (t : Term) : Except Error Value := t.2.resolve c >>= t.1.apply x

theorem sizeOf_lt_tokens {t : Term} {terms : List Term} (h : t ∈ terms) :
    sizeOf t.2 < sizeOf (tokens terms) := by
  induction terms with
  | nil => cases h
  | cons u terms ih =>
    obtain ⟨op, o⟩ := u
    rcases List.mem_cons.mp h with rfl | h
    · simp [tokens]
      omega
    · have ht := ih h
      simp [tokens]
      omega

end Term

namespace Sequence

/-- The line `v₀ op₁ v₁ op₂ v₂ …`. -/
def ofTerms (first : Operand) (terms : List Term) : Sequence := .operand first :: Term.tokens terms

theorem length_tokens (terms : List Term) : (Term.tokens terms).length = 2 * terms.length := by
  induction terms with
  | nil => rfl
  | cons t terms ih =>
    simp only [Term.tokens, List.length_cons, ih]
    omega

theorem misplaced_tokens {i : Nat} (hi : i % 2 = 1) (terms : List Term) :
    misplaced i (Term.tokens terms) = none := by
  induction terms generalizing i with
  | nil => rfl
  | cons t terms ih =>
    have hnext : (i + 1) % 2 = 0 := by omega
    simp [Term.tokens, misplaced, Token.isOperand, hi, hnext, ih (i := i + 1 + 1) (by omega)]

/-- An even number of tokens in their places, the first one an operator's. -/
theorem exists_terms_of_misplaced {i : Nat} (hi : i % 2 = 1) :
    ∀ tokens : List Token, tokens.length % 2 = 0 → misplaced i tokens = none →
      ∃ terms, tokens = Term.tokens terms
  | [], _, _ => ⟨[], rfl⟩
  | [t], hl, _ => by simp at hl
  | t :: u :: rest, hl, hm => by
    have hnext : (i + 1) % 2 = 0 := by omega
    cases t with
    | operand => simp [misplaced, Token.isOperand, hi] at hm
    | operator op =>
      cases u with
      | operator => simp [misplaced, Token.isOperand, hi, hnext] at hm
      | operand o =>
        have hrest : misplaced (i + 1 + 1) rest = none := by
          simpa [misplaced, Token.isOperand, hi, hnext] using hm
        have heven : rest.length % 2 = 0 := by
          simp only [List.length_cons] at hl
          omega
        have hodd : (i + 1 + 1) % 2 = 1 := by omega
        obtain ⟨terms, rfl⟩ := exists_terms_of_misplaced hodd rest heven hrest
        exact ⟨(op, o) :: terms, rfl⟩

theorem checkWellFormed_ofTerms (first : Operand) (terms : List Term) :
    checkWellFormed (ofTerms first terms) = .ok () := by
  have hodd : (ofTerms first terms).length % 2 = 1 := by
    simp only [ofTerms, List.length_cons, length_tokens]
    omega
  have hplaces : misplaced 0 (ofTerms first terms) = none := by
    simp [ofTerms, misplaced, Token.isOperand, misplaced_tokens]
  simp [checkWellFormed, hodd, hplaces]

/-- The sequences that pass are those of terms. -/
theorem checkWellFormed_eq_ok_iff (s : Sequence) :
    checkWellFormed s = .ok () ↔ ∃ first terms, s = ofTerms first terms := by
  constructor
  · intro h
    unfold checkWellFormed at h
    split at h
    · cases h
    · next hodd =>
      split at h
      · cases h
      · next hplaces =>
        match s, hodd, hplaces with
        | [], hodd, _ => simp at hodd
        | .operator _ :: _, _, hplaces => simp [misplaced, Token.isOperand] at hplaces
        | .operand first :: rest, hodd, hplaces =>
          have hrest : misplaced 1 rest = none := by
            simpa [misplaced, Token.isOperand] using hplaces
          have heven : rest.length % 2 = 0 := by
            simp only [List.length_cons] at hodd
            omega
          obtain ⟨terms, rfl⟩ := exists_terms_of_misplaced rfl rest heven hrest
          exact ⟨first, terms, rfl⟩
  · rintro ⟨first, terms, rfl⟩
    exact checkWellFormed_ofTerms first terms

theorem evaluate_of_malformed {s : Sequence} {e : Error} (h : checkWellFormed s = .error e)
    (c : Context) : (Expression.sequence s).evaluate c = .error e := by
  rw [Expression.evaluate, h]

theorem foldTokens_tokens (c : Context) (x : Value) (terms : List Term) :
    foldTokens c x (Term.tokens terms) = terms.foldlM (Term.apply c) x := by
  induction terms generalizing x with
  | nil => rfl
  | cons t terms ih =>
    rw [Term.tokens, foldTokens, List.foldlM_cons, Term.apply]
    cases t.2.resolve c with
    | error e => rfl
    | ok y =>
      change (t.1.apply x y >>= fun z => foldTokens c z (Term.tokens terms)) =
        (t.1.apply x y >>= fun z => terms.foldlM (Term.apply c) z)
      simp only [ih]

theorem evaluate_ofTerms (c : Context) (first : Operand) (terms : List Term) :
    (Expression.sequence (ofTerms first terms)).evaluate c =
      first.resolve c >>= fun x => terms.foldlM (Term.apply c) x := by
  rw [Expression.evaluate, checkWellFormed_ofTerms]
  dsimp only
  rw [ofTerms, evaluateTokens]
  simp only [foldTokens_tokens]

end Sequence

/-- Induction over both forms of expressions. -/
theorem Operand.induction {P : Operand → Prop} (leaf : ∀ o : Operand, (∀ e, o ≠ .nested e) → P o)
    (tree : ∀ left op right, P left → P right → P (.nested (.tree left op right)))
    (malformed : ∀ s e, Sequence.checkWellFormed s = .error e → P (.nested (.sequence s)))
    (terms : ∀ first terms, P first → (∀ t ∈ terms, P t.2) →
      P (.nested (.sequence (Sequence.ofTerms first terms)))) (o : Operand) : P o := by
  -- The operands of a well-formed sequence are found by the check, so the induction is on size.
  induction hn : sizeOf o using Nat.strongRecOn generalizing o with
  | ind n ih =>
    subst hn
    have smaller (p : Operand) (hp : sizeOf p < sizeOf o) : P p := ih (sizeOf p) hp p rfl
    cases o with
    | nested e =>
      cases e with
      | tree left op right =>
        apply tree
        · exact smaller left (by simp; omega)
        · exact smaller right (by simp; omega)
      | sequence s =>
        cases hs : Sequence.checkWellFormed s with
        | error e => exact malformed s e hs
        | ok u =>
          obtain ⟨first, rest, rfl⟩ := (Sequence.checkWellFormed_eq_ok_iff s).mp hs
          apply terms
          · exact smaller first (by simp [Sequence.ofTerms]; omega)
          · intro t ht
            have hlt := Term.sizeOf_lt_tokens ht
            exact smaller t.2 (by simp [Sequence.ofTerms]; omega)
    | blank | number | flag | data | io | position | component | point | pose => exact leaf _ nofun

end TeachPendant
