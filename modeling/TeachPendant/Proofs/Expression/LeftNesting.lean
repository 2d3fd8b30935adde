import TeachPendant.Proofs.Expression.Errors

namespace TeachPendant

/-- A literal comes to the value that it was made of. -/
@[simp] theorem Operand.resolve_toOperand (c : Context) (x : Value) :
    x.toOperand.resolve c = .ok x := by
  cases x <;> rfl

namespace Expression

/-- The tree `((v₀ op₁ v₁) op₂ v₂) …`. -/
def leftNested (left : Operand) (op : Operator) (right : Operand) : List Term → Expression
  | [] => .tree left op right
  | (op', next) :: terms => leftNested (.nested (.tree left op right)) op' next terms

theorem evaluate_tree (c : Context) (left : Operand) (op : Operator) (right : Operand) :
    (tree left op right).evaluate c = left.resolve c >>= fun x => Term.apply c x (op, right) := by
  rw [evaluate]
  rfl

theorem evaluate_leftNested (c : Context) (left : Operand) (op : Operator) (right : Operand)
    (terms : List Term) :
    (leftNested left op right terms).evaluate c =
      left.resolve c >>= fun x => ((op, right) :: terms).foldlM (Term.apply c) x := by
  induction terms generalizing left op right with
  | nil => simp [leftNested, evaluate_tree]
  | cons t terms ih =>
    obtain ⟨op', next⟩ := t
    rw [leftNested, ih, Operand.resolve, evaluate_tree, bind_assoc]
    simp only [List.foldlM_cons]

end Expression

namespace Sequence

theorem append_ne {a b t : String} {last : Char} (hb : b.toList.getLast? = some last)
    (ht : t.toList.getLast? ≠ some last) : a ++ b ≠ t := by
  rintro rfl
  apply ht
  rw [String.toList_append, List.getLast?_append, hb]
  rfl

/-- The fold has texts of its own for lines that do not alternate; evaluation never gives them. -/
theorem ne_fold_error {e : Error} (h : e.Raised) :
    e ≠ .malformed "missing leading operand" ∧ e ≠ .malformed "dangling operator" := by
  have hdetail {detail text : String} (hne : detail ≠ text) :
      Error.malformed detail ≠ .malformed text := fun h => hne (Error.malformed.inj h)
  cases h with
  | incompatible | unsupported | divisionByZero => exact ⟨nofun, nofun⟩
  | outOfRange h =>
    constructor <;>
    · rintro rfl
      cases h
  | malformed h =>
    -- The texts of the check end in other letters than those of the fold.
    rcases Error.of_checkWellFormed h with ⟨n, rfl⟩ | ⟨i, rfl⟩
    · have hlast : " elements, expected an odd count".toList.getLast? = some 't' := by decide
      exact ⟨hdetail (append_ne hlast (by decide)), hdetail (append_ne hlast (by decide))⟩
    · have hlast : " breaks the operand/operator alternation".toList.getLast? = some 'n' := by
        decide
      exact ⟨hdetail (append_ne hlast (by decide)), hdetail (append_ne hlast (by decide))⟩

/-- A well-formed sequence, each of whose steps evaluates the tree of the literal reached so far and
the next term, comes to what the tree nested to the left comes to; a malformed one fails with what
its check says, and the fold itself never fails. -/
theorem evaluate_leftNesting (c : Context) :
    (∀ s : Sequence, checkWellFormed s = .ok () ↔ ∃ first terms, s = ofTerms first terms) ∧
    (∀ first, (ofTerms first []).evaluate c = first.resolve c) ∧
    (∀ first op second terms, (ofTerms first ((op, second) :: terms)).evaluate c =
      (Expression.leftNested first op second terms).evaluate c) ∧
    (∀ first terms, (ofTerms first terms).evaluate c = first.resolve c >>= fun x =>
      terms.foldlM (fun x t => (Expression.tree x.toOperand t.1 t.2).evaluate c) x) ∧
    (∀ (s : Sequence) e, checkWellFormed s = .error e →
      s.evaluate c = .error e ∧ ∃ detail, e = .malformed detail) ∧
    ∀ e : Expression, e.evaluate c ≠ .error (.malformed "missing leading operand") ∧
      e.evaluate c ≠ .error (.malformed "dangling operator") := by
  have hterms (first : Operand) (terms : List Term) : (ofTerms first terms).evaluate c =
      first.resolve c >>= fun x => terms.foldlM (Term.apply c) x := evaluate_ofTerms c first terms
  refine ⟨checkWellFormed_eq_ok_iff, ?_, ?_, ?_, ?_, ?_⟩
  · intro first
    rw [hterms]
    simp
  · intro first op second terms
    rw [hterms, Expression.evaluate_leftNested]
  · intro first terms
    have hstep (x : Value) (t : Term) :
        (Expression.tree x.toOperand t.1 t.2).evaluate c = Term.apply c x t := by
      rw [Expression.evaluate_tree, Operand.resolve_toOperand]
      rfl
    simp only [hterms, hstep]
  · intro s e h
    refine ⟨evaluate_of_malformed h c, ?_⟩
    rcases Error.of_checkWellFormed h with ⟨n, rfl⟩ | ⟨i, rfl⟩
    · exact ⟨_, rfl⟩
    · exact ⟨_, rfl⟩
  · intro e
    have hfails := e.evaluate_fails c
    constructor
    · intro h
      exact (ne_fold_error (hfails _ h)).1 rfl
    · intro h
      exact (ne_fold_error (hfails _ h)).2 rfl

end Sequence

end TeachPendant
