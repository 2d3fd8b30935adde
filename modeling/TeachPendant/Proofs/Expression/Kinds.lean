import TeachPendant.Proofs.Expression.Errors

namespace TeachPendant

/-- The kind of the values that an operator makes of two values of these kinds. -/
def Operator.resultKind? (op : Operator) : Kind → Kind → Option Kind
  | .arithmetic, .arithmetic =>
    match op with
    | .add | .sub | .mul | .div | .mod | .intDiv => some .arithmetic
    | .eq | .ne | .gt | .lt | .ge | .le => some .boolean
    | .and | .or | .not | .blank => none
  | .point, .point =>
    match op with
    | .add | .sub => some .point
    | _ => none
  | .boolean, .boolean =>
    match op with
    | .and | .or | .not => some .boolean
    | _ => none
  | _, _ => none

mutual

/-- Registers are of the kind that their sort holds, whatever that is and whether they exist. -/
def Operand.staticKind? : Operand → Option Kind
  | .nested e => e.staticKind?
  | o => o.kind?

def Expression.staticKind? : Expression → Option Kind
  | .tree left op right => do
    let j ← left.staticKind?
    let k ← right.staticKind?
    op.resultKind? j k
  | .sequence tokens =>
    match Sequence.checkWellFormed tokens with
    | .error _ => none
    | .ok () => tokensKind? tokens

def tokensKind? : List Token → Option Kind
  | .operand first :: rest => do
    let k ← first.staticKind?
    restKind? k rest
  | _ => none

/-- The kind of a line whose tokens so far are of kind `k`. -/
def restKind? (k : Kind) : List Token → Option Kind
  | [] => some k
  | .operator op :: .operand o :: rest => do
    let j ← o.staticKind?
    let k ← op.resultKind? k j
    restKind? k rest
  | _ => none

end

/-- The kind of a term worked into a value of kind `k`. -/
def Term.kind? (k : Kind) (t : Term) : Option Kind := t.2.staticKind? >>= t.1.resultKind? k

theorem restKind?_tokens (k : Kind) (terms : List Term) :
    restKind? k (Term.tokens terms) = terms.foldlM Term.kind? k := by
  induction terms generalizing k with
  | nil => rfl
  | cons t terms ih =>
    rw [Term.tokens, restKind?, List.foldlM_cons, Term.kind?, bind_assoc]
    simp only [ih]

theorem Sequence.staticKind?_ofTerms (first : Operand) (terms : List Term) :
    (Expression.sequence (ofTerms first terms)).staticKind? =
      first.staticKind? >>= fun k => terms.foldlM Term.kind? k := by
  rw [Expression.staticKind?, checkWellFormed_ofTerms]
  dsimp only
  rw [ofTerms, tokensKind?]
  simp only [restKind?_tokens]

/-- The errors that hang on which registers there are and what they hold. -/
def Error.ofContents (e : Error) : Prop := e.isOutOfRange = true ∨ e = .divisionByZero

/-- What a static kind says of a result: a value is of that kind, and nothing but the contents of
the registers is a reason for an error; without a static kind there is no value. -/
def Agrees : Option Kind → Except Error Value → Prop
  | some k, .ok v => v.kind = k
  | some _, .error e => e.ofContents
  | none, .ok _ => False
  | none, .error _ => True

namespace Agrees

theorem of_ofContents {e : Error} (h : e.ofContents) (k? : Option Kind) : Agrees k? (.error e) := by
  cases k? with
  | none => trivial
  | some k => exact h

theorem read {α : Type} {r : Except Error α} (h : FailsOnly (·.isOutOfRange) r) {f : α → Value}
    {k : Kind} (hf : ∀ a, (f a).kind = k) : Agrees (some k) (r.map f) := by
  cases r with
  | ok a => exact hf a
  | error e => exact Or.inl (h e rfl)

theorem bind {k? : Option Kind} {r : Except Error Value} (h : Agrees k? r)
    {f : Kind → Option Kind} {g : Value → Except Error Value} (hg : ∀ v, Agrees (f v.kind) (g v)) :
    Agrees (k? >>= f) (r >>= g) := by
  cases r with
  | ok v =>
    cases k? with
    | none => exact absurd h id
    | some k =>
      obtain rfl : v.kind = k := h
      exact hg v
  | error e =>
    cases k? with
    | none => trivial
    | some k => exact of_ofContents h (f k)

theorem foldlM {α : Type} {f : Kind → α → Option Kind} {g : Value → α → Except Error Value}
    (as : List α) (h : ∀ a ∈ as, ∀ v, Agrees (f v.kind a) (g v a)) (v : Value) :
    Agrees (as.foldlM f v.kind) (as.foldlM g v) := by
  induction as generalizing v with
  | nil => rfl
  | cons a as ih =>
    rw [List.foldlM_cons, List.foldlM_cons]
    refine (h a (by simp) v).bind fun w => ih ?_ w
    intro a' ha'
    exact h a' (by simp [ha'])

end Agrees

theorem Operator.agrees_apply (op : Operator) (x y : Value) :
    Agrees (op.resultKind? x.kind y.kind) (op.apply x y) := by
  cases x with
  | number a =>
    cases y with
    | number b =>
      cases op with
      | intDiv =>
        simp only [Value.kind, resultKind?, apply, applyNumbers, applyIntDiv]
        split_ifs
        · exact Or.inr rfl
        · rfl
      | and | or | not | blank => trivial
      | _ => rfl
    | flag | point => trivial
  | point a =>
    cases y with
    | point b =>
      cases op with
      | add | sub => rfl
      | _ => trivial
    | number | flag => trivial
  | flag a =>
    cases y with
    | flag b =>
      cases op with
      | and | or | not => rfl
      | _ => trivial
    | number | point => trivial

theorem Operand.agrees_resolve (c : Context) (o : Operand) :
    Agrees o.staticKind? (o.resolve c) := by
  induction o using Operand.induction with
  | leaf o ho =>
    cases o with
    | blank => trivial
    | number | flag | point | pose => rfl
    | data i => exact .read (c.registers.getData_fails i) fun _ => rfl
    | io i => exact .read (c.registers.getIo_fails i) fun _ => rfl
    | position i => exact .read (c.registers.getPosition_fails i) fun _ => rfl
    | component i axis => exact .read (c.registers.getComponent_fails i axis) fun _ => rfl
    | nested e => exact absurd rfl (ho e)
  | tree left op right hl hr =>
    rw [resolve, Expression.evaluate, staticKind?, Expression.staticKind?]
    exact hl.bind fun x => hr.bind fun y => op.agrees_apply x y
  | malformed s e hs =>
    rw [resolve, Sequence.evaluate_of_malformed hs, staticKind?, Expression.staticKind?, hs]
    trivial
  | terms first terms hfirst hterms =>
    rw [resolve, Sequence.evaluate_ofTerms, staticKind?, Sequence.staticKind?_ofTerms]
    refine hfirst.bind fun x => Agrees.foldlM terms (fun t ht v => ?_) x
    exact (hterms t ht).bind fun y => t.1.agrees_apply v y

theorem Agrees.kind_eq {k? : Option Kind} {v w : Value} (hv : Agrees k? (.ok v))
    (hw : Agrees k? (.ok w)) : v.kind = w.kind := by
  cases k? with
  | none => exact absurd hv id
  | some k => exact Eq.trans hv (Eq.symm hw)

/-- Operands and expressions are typed before they are evaluated: their static kind is kept by every
evaluation that succeeds, so the kind of the value does not hang on the registers. -/
theorem static_kinds (o : Operand) (e : Expression) (c : Context) :
    Agrees o.staticKind? (o.resolve c) ∧ Agrees e.staticKind? (e.evaluate c) ∧
    (∀ c' v v', o.resolve c = .ok v → o.resolve c' = .ok v' → v.kind = v'.kind) ∧
    ∀ c' v v', e.evaluate c = .ok v → e.evaluate c' = .ok v' → v.kind = v'.kind := by
  have hexpression (c : Context) : Agrees e.staticKind? (e.evaluate c) := by
    have h := Operand.agrees_resolve c (.nested e)
    rwa [Operand.resolve, Operand.staticKind?] at h
  refine ⟨o.agrees_resolve c, hexpression c, ?_, ?_⟩
  · intro c' v v' hv hv'
    exact (hv ▸ o.agrees_resolve c).kind_eq (hv' ▸ o.agrees_resolve c')
  · intro c' v v' hv hv'
    exact (hv ▸ hexpression c).kind_eq (hv' ▸ hexpression c')

end TeachPendant
