import TeachPendant.Instruction.Execute
import TeachPendant.Proofs.Expression.Errors

namespace TeachPendant

/-- An error that is skipped over. -/
def Error.Skipped (e : Error) : Prop := e.isFatal = false

theorem Error.Raised.skipped {e : Error} (h : e.Raised) : e.Skipped := h.not_fatal

theorem Error.skipped_of_outOfRange {e : Error} (h : e.isOutOfRange = true) : e.Skipped :=
  Raised.not_fatal (.outOfRange h)

namespace RegisterBank

variable (bank : RegisterBank) (i c : UInt64)

theorem setData_fails (x : Number.Single) : FailsOnly (·.isOutOfRange) (bank.setData i x) := by
  unfold setData
  split
  · exact .of_ok _
  · exact .of_error rfl

theorem setIo_fails (b : Bool) : FailsOnly (·.isOutOfRange) (bank.setIo i b) := by
  unfold setIo
  split
  · exact .of_ok _
  · exact .of_error rfl

theorem setPosition_fails (p : Point) : FailsOnly (·.isOutOfRange) (bank.setPosition i p) := by
  unfold setPosition
  split
  · exact .of_ok _
  · exact .of_error rfl

theorem setComponent_fails (x : Number.Single) :
    FailsOnly (·.isOutOfRange) (bank.setComponent i c x) := by
  unfold setComponent
  split
  · next e he => exact .of_error (bank.getPosition_fails i e he)
  · split
    · exact bank.setPosition_fails i _
    · exact .of_error rfl

end RegisterBank

theorem Context.store_fails (c : Context) (target : RegisterTarget) (v : Value) :
    FailsOnly Error.Skipped (c.store target v) := by
  have hset {r : Except Error RegisterBank} (h : FailsOnly (·.isOutOfRange) r) :
      FailsOnly Error.Skipped r := h.mono fun _ => Error.skipped_of_outOfRange
  unfold store
  split
  · exact hset (c.registers.setData_fails _ _)
  · exact hset (c.registers.setComponent_fails _ _ _)
  · exact hset (c.registers.setIo_fails _ _)
  · exact hset (c.registers.setPosition_fails _ _)
  · exact .of_error rfl

theorem Context.selectFrame_fails (c : Context) (kind : FrameKind) (index : UInt64) :
    FailsOnly Error.Skipped (c.selectFrame kind index) := by
  unfold selectFrame
  split_ifs
  · exact .of_error rfl
  · cases kind <;> exact .of_ok _

theorem PositionRef.resolve_fails (c : Context) (table : PositionTable) (r : PositionRef) :
    FailsOnly Error.Skipped (r.resolve c table) := by
  cases r with
  | taught slot =>
    simp only [resolve]
    split
    · exact .of_ok _
    · exact .of_error rfl
  | register index =>
    exact (c.registers.getPosition_fails index).mono fun _ => Error.skipped_of_outOfRange

theorem Motion.move_fails (c : Context) (table : PositionTable) (m : Motion) :
    FailsOnly Error.Skipped (m.move c table) := by
  have htarget : FailsOnly Error.Skipped (m.resolveTarget c table) := by
    refine (m.target.resolve_fails c table).bind fun point => ?_
    cases m.offset with
    | none => exact .of_ok _
    | some offset => exact (offset.resolve_fails c table).bind fun shift => .of_ok _
  have hvia : FailsOnly Error.Skipped (m.resolveVia c table) := by
    unfold resolveVia
    split
    · next via _ _ => exact (via.resolve_fails c table).map _
    · exact .of_error rfl
    · exact .of_ok _
  exact htarget.bind fun target => hvia.bind fun via => .of_ok _

namespace Instruction

variable (c : Context) (table : PositionTable)

mutual

/-- No instruction stops a run by an error of its own. -/
theorem execute_fails : ∀ i : Instruction, FailsOnly Error.Skipped (i.execute c table)
  | .mk action commented => by
    rw [Instruction.execute]
    split_ifs
    · exact .of_ok _
    · exact actionExecute_fails action

theorem actionExecute_fails : ∀ action : Action, FailsOnly Error.Skipped (action.execute c table)
  | .blank | .label _ | .jump _ | .call _ => .of_ok _
  | .motion m => (m.move_fails c table).bind fun move => .of_ok _
  | .selectFrame kind index => (c.selectFrame_fails kind index).bind fun frames => .of_ok _
  | .setIo register state => by
    have hset := (c.registers.setIo_fails register state).mono fun _ => Error.skipped_of_outOfRange
    exact hset.bind fun registers => .of_ok _
  | .assign target expression => by
    have hvalue := (Expression.sequence expression).evaluate_fails c
    refine (hvalue.mono fun _ h => h.skipped).bind fun v => ?_
    exact (c.store_fails target v).bind fun registers => .of_ok _
  | .ifThen condition body => by
    rw [Action.execute]
    split
    · next e he => exact .of_error (condition.evaluate_fails c e he).skipped
    · exact execute_fails body
    · exact .of_ok _
    · exact .of_error rfl
  | .select argument cases => by
    rw [Action.execute]
    exact caseExecute_fails argument cases

theorem caseExecute_fails (argument : Operand) : ∀ cases : List SelectCase,
    FailsOnly Error.Skipped (executeCases c table argument cases)
  | [] => .of_ok _
  | .mk value body :: rest => by
    rw [executeCases]
    split_ifs
    · exact execute_fails body
    · exact .of_ok _
    · exact caseExecute_fails argument rest

end

end Instruction

end TeachPendant
