import TeachPendant.Proofs.Linking.SameButLinks

namespace TeachPendant

mutual

/-- The second instruction is the first one with blanks in place of some of the commented
instructions in it. -/
inductive Instruction.Blanked : Instruction → Instruction → Prop
  | blanked (action : Action) : Instruction.Blanked (.mk action true) (.mk .blank false)
  | kept (commented : Bool) {action action' : Action} (h : Action.Blanked action action') :
      Instruction.Blanked (.mk action commented) (.mk action' commented)

inductive Action.Blanked : Action → Action → Prop
  | same (action : Action) : Action.Blanked action action
  | ifThen (condition : Expression) {body body' : Instruction} (h : Instruction.Blanked body body') :
      Action.Blanked (.ifThen condition body) (.ifThen condition body')
  | select (argument : Operand) {cases cases' : List SelectCase} (h : CasesBlanked cases cases') :
      Action.Blanked (.select argument cases) (.select argument cases')

inductive CasesBlanked : List SelectCase → List SelectCase → Prop
  | nil : CasesBlanked [] []
  | cons (value : Operand) {body body' : Instruction} {rest rest' : List SelectCase}
      (h : Instruction.Blanked body body') (hrest : CasesBlanked rest rest') :
      CasesBlanked (.mk value body :: rest) (.mk value body' :: rest')

end

namespace Instruction.Blanked

theorem refl (i : Instruction) : i.Blanked i := by
  obtain ⟨action, commented⟩ := i
  exact .kept commented (.same action)

theorem isLabel_eq {i j : Instruction} (h : i.Blanked j) (number : UInt32) :
    j.isLabel number = i.isLabel number := by
  cases h with
  | blanked action => rfl
  | kept commented h => cases h <;> rfl

section Execution

variable (c : Context) (table : PositionTable)

/-- As the body of a `SELECT` case, which is run only if it is a transfer. -/
theorem transfer_eq {i j : Instruction} (h : i.Blanked j)
    (he : j.execute c table = i.execute c table) :
    (if j.isTransfer then j.execute c table else .ok (c.goOn .next)) =
      if i.isTransfer then i.execute c table else .ok (c.goOn .next) := by
  cases h with
  | blanked action => simp [execute, Action.execute]
  | kept commented h =>
    rw [he]
    cases h <;> rfl

mutual

theorem execute_eq : ∀ {i j : Instruction}, i.Blanked j → j.execute c table = i.execute c table
  | _, _, .blanked action => by simp [execute, Action.execute]
  | _, _, .kept commented h => by rw [execute, execute, action_eq h]

theorem action_eq : ∀ {a b : Action}, a.Blanked b → b.execute c table = a.execute c table
  | _, _, .same action => rfl
  | _, _, .ifThen condition h => by rw [Action.execute, Action.execute, execute_eq h]
  | _, _, .select argument h => by rw [Action.execute, Action.execute, cases_eq h argument]

theorem cases_eq : ∀ {cs ds : List SelectCase}, CasesBlanked cs ds → ∀ argument : Operand,
    executeCases c table argument ds = executeCases c table argument cs
  | _, _, .nil, argument => rfl
  | _, _, .cons value h hrest, argument => by
    rw [executeCases, executeCases, transfer_eq c table h (execute_eq h), cases_eq hrest argument]

end

end Execution

section Calls

variable (f : CallTarget → CallTarget)

mutual

theorem mapCalls : ∀ {i j : Instruction}, i.Blanked j → (i.mapCalls f).Blanked (j.mapCalls f)
  | _, _, .blanked action => .blanked _
  | _, _, .kept commented h => .kept commented (mapActionCalls h)

theorem mapActionCalls : ∀ {a b : Action}, a.Blanked b →
    (Instruction.mapActionCalls f a).Blanked (Instruction.mapActionCalls f b)
  | _, _, .same action => .same _
  | _, _, .ifThen condition h => .ifThen condition (mapCalls h)
  | _, _, .select argument h => .select argument (mapCaseCalls h)

theorem mapCaseCalls : ∀ {cs ds : List SelectCase}, CasesBlanked cs ds →
    CasesBlanked (Instruction.mapCaseCalls f cs) (Instruction.mapCaseCalls f ds)
  | _, _, .nil => .nil
  | _, _, .cons value h hrest => .cons value (mapCalls h) (mapCaseCalls hrest)

end

end Calls

end Instruction.Blanked

/-- The lines of the second program are those of the first one, some of them blanked. -/
structure Program.Blanked (p q : Program) : Prop where
  name_eq : q.name = p.name
  positions_eq : q.positions = p.positions
  lines : List.Forall₂ (fun a b => a.instruction.Blanked b.instruction) p.lines q.lines

namespace Program.Blanked

variable {p q : Program}

theorem refl (p : Program) : p.Blanked p :=
  ⟨rfl, rfl, List.forall₂_same.mpr fun line _ => .refl line.instruction⟩

theorem length_eq (h : p.Blanked q) : q.length = p.length := h.lines.length_eq.symm

theorem isEmpty_eq (h : p.Blanked q) : q.isEmpty = p.isEmpty := by
  have hlen : q.lines.length = p.lines.length := h.length_eq
  rw [Bool.eq_iff_iff, isEmpty, isEmpty, List.isEmpty_iff_length_eq_zero,
    List.isEmpty_iff_length_eq_zero, hlen]

theorem findLabel_eq (h : p.Blanked q) (number : UInt32) : q.findLabel number = p.findLabel number :=
  findIdx?_of_forall₂ h.lines fun _ _ hline => hline.isLabel_eq number

theorem instruction?_cases (h : p.Blanked q) (i : Nat) :
    p.instruction? i = none ∧ q.instruction? i = none ∨
      ∃ a b, p.instruction? i = some a ∧ q.instruction? i = some b ∧ a.Blanked b := by
  rcases getElem?_of_forall₂ h.lines i with ⟨hp, hq⟩ | ⟨a, b, hp, hq, hab⟩
  · exact Or.inl ⟨by rw [instruction?, hp]; rfl, by rw [instruction?, hq]; rfl⟩
  · exact Or.inr ⟨a.instruction, b.instruction, by rw [instruction?, hp]; rfl,
      by rw [instruction?, hq]; rfl, hab⟩

theorem mapCalls (f : CallTarget → CallTarget) (h : p.Blanked q) :
    (p.mapCalls f).Blanked (q.mapCalls f) where
  name_eq := h.name_eq
  positions_eq := h.positions_eq
  lines := by
    rw [Program.mapCalls, Program.mapCalls, List.forall₂_map_left_iff, List.forall₂_map_right_iff]
    exact h.lines.imp fun _ _ hline => hline.mapCalls f

end Program.Blanked

def Library.Blanked (l m : Library) : Prop := List.Forall₂ Program.Blanked l.programs m.programs

namespace Library.Blanked

variable {l m : Library}

theorem refl (l : Library) : l.Blanked l := List.forall₂_same.mpr fun p _ => .refl p

theorem length_eq (h : l.Blanked m) : m.length = l.length := (List.Forall₂.length_eq h).symm

theorem get?_cases (h : l.Blanked m) (i : Nat) :
    l.get? i = none ∧ m.get? i = none ∨
      ∃ p q, l.get? i = some p ∧ m.get? i = some q ∧ p.Blanked q :=
  getElem?_of_forall₂ h i

theorem find?_eq (h : l.Blanked m) (name : String) : m.find? name = l.find? name :=
  findIdx?_of_forall₂ h fun p q hpq => by rw [hpq.name_eq]

theorem resolve_eq (h : l.Blanked m) (target : CallTarget) : m.resolve target = l.resolve target := by
  unfold resolve
  cases target.link with
  | none => rfl
  | some ref =>
    rcases h.get?_cases ref.index with ⟨hl, hm⟩ | ⟨p, q, hl, hm, hpq⟩
    · simp only [hl, hm]
    · simp only [hl, hm, hpq.name_eq]

theorem mapCalls (f : CallTarget → CallTarget) (h : l.Blanked m) :
    (l.mapCalls f).Blanked (m.mapCalls f) := by
  rw [Blanked, Library.mapCalls, Library.mapCalls, List.forall₂_map_left_iff,
    List.forall₂_map_right_iff]
  exact List.Forall₂.imp (fun _ _ hpq => hpq.mapCalls f) h

end Library.Blanked

namespace Linking

theorem lastNamed_blanked {ps qs : List Program} (h : List.Forall₂ Program.Blanked ps qs)
    (name : String) (i : Nat) : lastNamed name i qs = lastNamed name i ps := by
  induction h generalizing i with
  | nil => rfl
  | cons hpq _ ih => rw [lastNamed, lastNamed, ih, hpq.name_eq]

theorem linkFrom_blanked {ls ms : List Library} (h : List.Forall₂ Library.Blanked ls ms)
    (target : CallTarget) (d : Nat) : linkFrom target d ms = linkFrom target d ls := by
  induction h generalizing d with
  | nil => rfl
  | cons hlm _ ih => rw [linkFrom, linkFrom, ih, lastNamed_blanked hlm]

/-- Calls lead to the same places. -/
theorem linkTarget_blanked {ls ms : List Library} (h : List.Forall₂ Library.Blanked ls ms) :
    linkTarget ms = linkTarget ls := by
  funext target
  rw [linkTarget, linkTarget, linkOf, linkOf, linkFrom_blanked h]

end Linking

end TeachPendant
