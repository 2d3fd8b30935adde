import Mathlib.Tactic.SplitIfs
import TeachPendant.Proofs.Expression.Terms

namespace TeachPendant

/-- The result is a value, or an error of this sort. -/
def FailsOnly {α : Type} (E : Error → Prop) (r : Except Error α) : Prop := ∀ e, r = .error e → E e

namespace FailsOnly

variable {α β : Type} {E F : Error → Prop} {r : Except Error α}

theorem of_ok (a : α) : FailsOnly E (.ok a) := nofun

theorem of_error {e : Error} (h : E e) : FailsOnly E (.error e : Except Error α) := by
  rintro e' ⟨⟩
  exact h

theorem mono (h : FailsOnly E r) (hE : ∀ e, E e → F e) : FailsOnly F r := fun e he => hE e (h e he)

theorem map (h : FailsOnly E r) (f : α → β) : FailsOnly E (r.map f) := by
  cases r with
  | error e => exact of_error (h e rfl)
  | ok a => exact of_ok (f a)

theorem bind {f : α → Except Error β} (h : FailsOnly E r) (hf : ∀ a, FailsOnly E (f a)) :
    FailsOnly E (r >>= f) := by
  cases r with
  | error e => exact of_error (h e rfl)
  | ok a => exact hf a

theorem foldlM {f : β → α → Except Error β} (as : List α) (h : ∀ a ∈ as, ∀ b, FailsOnly E (f b a))
    (b : β) : FailsOnly E (as.foldlM f b) := by
  induction as generalizing b with
  | nil => exact of_ok b
  | cons a as ih =>
    rw [List.foldlM_cons]
    refine (h a (by simp) b).bind fun b' => ih ?_ b'
    intro a' ha'
    exact h a' (by simp [ha'])

end FailsOnly

def Error.isOutOfRange : Error → Bool
  | .outOfRange _ _ _ => true
  | _ => false

namespace RegisterBank

variable (bank : RegisterBank) (i c : UInt64)

theorem getData_fails : FailsOnly (·.isOutOfRange) (bank.getData i) := by
  unfold getData
  split
  · exact .of_ok _
  · exact .of_error rfl

theorem getIo_fails : FailsOnly (·.isOutOfRange) (bank.getIo i) := by
  unfold getIo
  split
  · exact .of_ok _
  · exact .of_error rfl

theorem getPosition_fails : FailsOnly (·.isOutOfRange) (bank.getPosition i) := by
  unfold getPosition
  split
  · exact .of_ok _
  · exact .of_error rfl

theorem getComponent_fails : FailsOnly (·.isOutOfRange) (bank.getComponent i c) := by
  unfold getComponent
  split
  · next e he => exact .of_error (bank.getPosition_fails i e he)
  · split
    · exact .of_ok _
    · exact .of_error rfl

end RegisterBank

/-- The errors that an operator gives, or that the operands around it give. -/
inductive Error.Raised : Error → Prop
  | incompatible (detail : String) : Raised (.incompatible detail)
  | unsupported (op : Operator) (kind : Kind) : Raised (op.unsupported kind)
  | divisionByZero : Raised .divisionByZero
  | outOfRange {e : Error} (h : e.isOutOfRange = true) : Raised e
  | malformed {s : Sequence} {e : Error} (h : Sequence.checkWellFormed s = .error e) : Raised e

namespace Operator

theorem apply_fails (op : Operator) (x y : Value) : FailsOnly Error.Raised (op.apply x y) := by
  have hnumbers (a b : Number.Single) : FailsOnly Error.Raised (op.applyNumbers a b) := by
    cases op with
    | intDiv =>
      simp only [applyNumbers, applyIntDiv]
      split_ifs
      · exact .of_error .divisionByZero
      · exact .of_ok _
    | and | or | not | blank => exact .of_error (.unsupported _ _)
    | _ => exact .of_ok _
  have hpoints (a b : Point) : FailsOnly Error.Raised (op.applyPoints a b) := by
    cases op with
    | add | sub => exact .of_ok _
    | _ => exact .of_error (.unsupported _ _)
  have hflags (a b : Bool) : FailsOnly Error.Raised (op.applyFlags a b) := by
    cases op with
    | and | or | not => exact .of_ok _
    | _ => exact .of_error (.unsupported _ _)
  unfold apply
  split
  · exact hnumbers _ _
  · exact hpoints _ _
  · exact hflags _ _
  · exact .of_error (.incompatible _)

end Operator

theorem Operand.resolve_fails (c : Context) (o : Operand) :
    FailsOnly Error.Raised (o.resolve c) := by
  induction o using Operand.induction with
  | leaf o ho =>
    have hread {α : Type} {r : Except Error α} (h : FailsOnly (·.isOutOfRange) r) (f : α → Value) :
        FailsOnly Error.Raised (r.map f) := (h.mono fun _ => .outOfRange).map f
    cases o with
    | blank => exact .of_error (.incompatible _)
    | number | flag | point | pose => exact .of_ok _
    | data i => exact hread (c.registers.getData_fails i) _
    | io i => exact hread (c.registers.getIo_fails i) _
    | position i => exact hread (c.registers.getPosition_fails i) _
    | component i axis => exact hread (c.registers.getComponent_fails i axis) _
    | nested e => exact absurd rfl (ho e)
  | tree left op right hl hr =>
    rw [Operand.resolve, Expression.evaluate]
    exact hl.bind fun x => hr.bind fun y => op.apply_fails x y
  | malformed s e hs =>
    rw [Operand.resolve, Sequence.evaluate_of_malformed hs]
    exact .of_error (.malformed hs)
  | terms first terms hfirst hterms =>
    rw [Operand.resolve, Sequence.evaluate_ofTerms]
    refine hfirst.bind (FailsOnly.foldlM terms fun t ht x => ?_)
    exact (hterms t ht).bind fun y => t.1.apply_fails x y

theorem Expression.evaluate_fails (c : Context) (e : Expression) :
    FailsOnly Error.Raised (e.evaluate c) := by
  have h := Operand.resolve_fails c (.nested e)
  rwa [Operand.resolve] at h

namespace Error

/-- A sequence fails its check for its length, or for a token out of place. -/
theorem of_checkWellFormed {s : Sequence} {e : Error} (h : Sequence.checkWellFormed s = .error e) :
    (∃ n : Nat, e = .malformed s!"{n} elements, expected an odd count") ∨
      ∃ i : Nat, e = .malformed s!"element {i} breaks the operand/operator alternation" := by
  unfold Sequence.checkWellFormed at h
  split at h
  · cases h
    exact Or.inl ⟨_, rfl⟩
  · split at h
    · cases h
      exact Or.inr ⟨_, rfl⟩
    · cases h

theorem Raised.not_fatal {e : Error} (h : e.Raised) : e.isFatal = false := by
  cases h with
  | incompatible | unsupported | divisionByZero => rfl
  | outOfRange h =>
    cases e with
    | outOfRange => rfl
    | _ => cases h
  | malformed h =>
    rcases of_checkWellFormed h with ⟨n, rfl⟩ | ⟨i, rfl⟩ <;> rfl

end Error

end TeachPendant
