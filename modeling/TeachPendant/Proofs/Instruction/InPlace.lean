import Mathlib.Data.List.Basic
import Mathlib.Tactic.SplitIfs
import TeachPendant.Instruction.Execute

namespace TeachPendant

open Number

/-- A run that changes its context as it goes, and does not take back what it has written when it
fails. -/
abbrev InPlace (α : Type) : Type := ExceptT Error (StateM Context) α

namespace InPlace

variable {α β : Type}

/-- How the run ends, and the context that it leaves. -/
def run (x : InPlace α) (c : Context) : Except Error α × Context := StateT.run (ExceptT.run x) c

/-- Looks at the context. -/
def read (f : Context → Except Error α) : InPlace α := fun c => (f c, c)

def change (f : Context → Context) : InPlace Unit := fun c => (.ok (), f c)

@[simp] theorem run_pure (a : α) (c : Context) : run (pure a) c = (.ok a, c) := rfl

@[simp] theorem run_throw (e : Error) (c : Context) :
    run (throw e : InPlace α) c = (.error e, c) := rfl

@[simp] theorem run_read (f : Context → Except Error α) (c : Context) :
    run (read f) c = (f c, c) := rfl

@[simp] theorem run_change (f : Context → Context) (c : Context) :
    run (change f) c = (.ok (), f c) := rfl

@[simp] theorem run_bind (x : InPlace α) (f : α → InPlace β) (c : Context) :
    run (x >>= f) c = match run x c with
      | (.ok a, c') => run (f a) c'
      | (.error e, c') => (.error e, c') := by
  show StateT.run (ExceptT.run x >>= ExceptT.bindCont f) c = _
  rw [StateT.run_bind]
  show (match StateT.run (ExceptT.run x) c with | (r, c') => StateT.run (ExceptT.bindCont f r) c') = _
  unfold run
  rcases StateT.run (ExceptT.run x) c with ⟨_ | _, c'⟩ <;> rfl

/-- Sets a register that is there. -/
def writeData (i : UInt64) (x : Single) : InPlace Unit := do
  let _ ← read (·.registers.getData i)
  change fun c => { c with
    registers.data := c.registers.data.modify i.toNat fun r => { r with value := x } }

def writeIo (i : UInt64) (b : Bool) : InPlace Unit := do
  let _ ← read (·.registers.getIo i)
  change fun c => { c with
    registers.io := c.registers.io.modify i.toNat fun r => { r with value := b } }

def writePosition (i : UInt64) (p : Point) : InPlace Unit := do
  let _ ← read (·.registers.getPosition i)
  change fun c => { c with
    registers.positions := c.registers.positions.modify i.toNat fun r => { r with value := p } }

/-- Whether there is such a component shows when it is set. -/
def writeComponent (i axis : UInt64) (x : Single) : InPlace Unit := do
  let p ← read (·.registers.getPosition i)
  change fun c => { c with
    registers.positions := c.registers.positions.modify i.toNat fun r =>
      { r with value := (r.value.setComponent? axis x).getD r.value } }
  if (p.setComponent? axis x).isNone then throw (RegisterBank.noComponent axis)

def store (target : RegisterTarget) (v : Value) : InPlace Unit :=
  match v, target with
  | .number x, .data i => writeData i x
  | .number x, .component i axis => writeComponent i axis x
  | .flag b, .io i => writeIo i b
  | .point p, .position i => writePosition i p
  | _, _ => throw (.mismatch ("cannot store " ++ v.text ++ " into " ++ target.text))

def selectFrame (kind : FrameKind) (index : UInt64) : InPlace Unit :=
  if frameCount ≤ index.toNat then throw (.outside "frame" index.toNat frameCount)
  else match kind with
    | .tool => change fun c => { c with frames.tool := index }
    | .user => change fun c => { c with frames.user := index }

end InPlace

open InPlace

mutual

def Instruction.perform (table : PositionTable) : Instruction → InPlace Flow
  | .mk action commented => if commented then pure .next else action.perform table

def Action.perform (table : PositionTable) : Action → InPlace Flow
  | .blank => pure .next
  | .label _ => pure .next
  | .motion m => do
    let move ← read (m.move · table)
    pure (.move move)
  | .selectFrame kind index => do
    selectFrame kind index
    pure .next
  | .setIo register state => do
    writeIo register state
    pure .next
  | .jump label => pure (.jump label)
  | .call target => pure (.call target)
  | .assign target expression => do
    let v ← read (Sequence.evaluate · expression)
    store target v
    pure .next
  | .ifThen condition body => do
    let v ← read condition.evaluate
    match v with
    | .flag true => body.perform table
    | .flag false => pure .next
    | v => throw (.mismatch ("IF condition gave " ++ v.text ++ ", expected ON/OFF"))
  | .select argument cases => performCases table argument cases

def performCases (table : PositionTable) (argument : Operand) : List SelectCase → InPlace Flow
  | [] => pure .next
  | .mk value body :: rest => do
    let same ← read fun c => .ok (value.sameValue c argument)
    if same then
      if body.isTransfer then body.perform table else pure .next
    else performCases table argument rest

end

namespace Context

/-- How a computation ends that gives back what has changed, and the context that it leaves. -/
def outcome {α β : Type} (c : Context) (result : α → β) (change : α → Context) :
    Except Error α → Except Error β × Context
  | .ok a => (.ok (result a), change a)
  | .error e => (.error e, c)

def afterStore (c : Context) (r : Except Error RegisterBank) : Except Error Unit × Context :=
  c.outcome (fun _ => ()) (fun registers => { c with registers }) r

def after (c : Context) (r : Except Error Effect) : Except Error Flow × Context :=
  c.outcome Effect.flow (fun e => { c with registers := e.registers, frames := e.frames }) r

end Context

namespace InPlace

variable (c : Context) (i : UInt64)

theorem run_writeData (x : Single) :
    run (writeData i x) c = c.afterStore (c.registers.setData i x) := by
  cases h : c.registers.data[i.toNat]? with
  | none =>
    simp [writeData, RegisterBank.getData, RegisterBank.setData, h, Context.afterStore,
      Context.outcome]
  | some r =>
    simp [writeData, RegisterBank.getData, RegisterBank.setData, h, Context.afterStore,
      Context.outcome, List.modify_eq_set_getElem?]

theorem run_writeIo (b : Bool) : run (writeIo i b) c = c.afterStore (c.registers.setIo i b) := by
  cases h : c.registers.io[i.toNat]? with
  | none =>
    simp [writeIo, RegisterBank.getIo, RegisterBank.setIo, h, Context.afterStore, Context.outcome]
  | some r =>
    simp [writeIo, RegisterBank.getIo, RegisterBank.setIo, h, Context.afterStore, Context.outcome,
      List.modify_eq_set_getElem?]

theorem run_writePosition (p : Point) :
    run (writePosition i p) c = c.afterStore (c.registers.setPosition i p) := by
  cases h : c.registers.positions[i.toNat]? with
  | none =>
    simp [writePosition, RegisterBank.getPosition, RegisterBank.setPosition, h, Context.afterStore,
      Context.outcome]
  | some r =>
    simp [writePosition, RegisterBank.getPosition, RegisterBank.setPosition, h, Context.afterStore,
      Context.outcome, List.modify_eq_set_getElem?]

theorem run_writeComponent (axis : UInt64) (x : Single) :
    run (writeComponent i axis x) c = c.afterStore (c.registers.setComponent i axis x) := by
  cases h : c.registers.positions[i.toNat]? with
  | none =>
    simp [writeComponent, RegisterBank.getPosition, RegisterBank.setComponent, h,
      Context.afterStore, Context.outcome]
  | some r =>
    cases hp : r.value.setComponent? axis x with
    | none =>
      -- No component was set: the register has been written with what it held.
      have hsame : c.registers.positions.set i.toNat r = c.registers.positions := by
        obtain ⟨hi, rfl⟩ := List.getElem?_eq_some_iff.mp h
        exact List.set_getElem_self hi
      simp [writeComponent, RegisterBank.getPosition, RegisterBank.setComponent, h, hp, hsame,
        Context.afterStore, Context.outcome, List.modify_eq_set_getElem?]
    | some p =>
      simp [writeComponent, RegisterBank.getPosition, RegisterBank.setComponent,
        RegisterBank.setPosition, h, hp, Context.afterStore, Context.outcome,
        List.modify_eq_set_getElem?]

theorem run_store : ∀ (target : RegisterTarget) (v : Value),
    run (store target v) c = c.afterStore (c.store target v)
  | .data i, .number x => run_writeData c i x
  | .component i axis, .number x => run_writeComponent c i axis x
  | .io i, .flag b => run_writeIo c i b
  | .position i, .point p => run_writePosition c i p
  | .data _, .flag _ | .data _, .point _ | .component _ _, .flag _ | .component _ _, .point _
  | .io _, .number _ | .io _, .point _ | .position _, .number _ | .position _, .flag _ => rfl

theorem run_selectFrame (kind : FrameKind) (index : UInt64) : run (selectFrame kind index) c =
    c.outcome (fun _ => ()) (fun frames => { c with frames }) (c.selectFrame kind index) := by
  unfold selectFrame Context.selectFrame
  split_ifs
  · rfl
  · cases kind <;> rfl

end InPlace

variable (table : PositionTable) (c : Context)

mutual

/-- In place an instruction comes to what its execution gives back, and to no change if that fails. -/
theorem Instruction.run_perform : ∀ i : Instruction,
    run (i.perform table) c = c.after (i.execute c table)
  | .mk action commented => by
    rw [Instruction.perform, Instruction.execute]
    cases commented with
    | true => rfl
    | false => exact action.run_perform

theorem Action.run_perform : ∀ action : Action,
    run (action.perform table) c = c.after (action.execute c table)
  | .blank | .label _ | .jump _ | .call _ => rfl
  | .motion m => by
    rw [Action.perform, Action.execute, run_bind, run_read]
    cases m.move c table <;> rfl
  | .selectFrame kind index => by
    rw [Action.perform, Action.execute, run_bind, run_selectFrame]
    cases c.selectFrame kind index <;> rfl
  | .setIo register state => by
    rw [Action.perform, Action.execute, run_bind, run_writeIo]
    cases c.registers.setIo register state <;> rfl
  | .assign target expression => by
    rw [Action.perform, Action.execute, run_bind, run_read]
    cases Sequence.evaluate c expression with
    | error e => rfl
    | ok v =>
      dsimp only
      rw [run_bind, run_store]
      simp only [bind, Except.bind]
      cases c.store target v <;> rfl
  | .ifThen condition body => by
    rw [Action.perform, Action.execute, run_bind, run_read]
    cases condition.evaluate c with
    | error e => rfl
    | ok v =>
      have hbody := body.run_perform
      cases v with
      | flag b => cases b with
        | true => exact hbody
        | false => rfl
      | number | point => rfl
  | .select argument cases => by
    rw [Action.perform, Action.execute]
    exact run_performCases argument cases

theorem run_performCases (argument : Operand) : ∀ cases : List SelectCase,
    run (performCases table argument cases) c = c.after (executeCases c table argument cases)
  | [] => rfl
  | .mk value body :: rest => by
    have hbody := body.run_perform
    have hrest := run_performCases argument rest
    rw [performCases, executeCases, run_bind, run_read]
    dsimp only
    split_ifs
    · exact hbody
    · rfl
    · exact hrest

end

end TeachPendant
