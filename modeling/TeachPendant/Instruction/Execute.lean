import TeachPendant.Expression.Evaluate
import TeachPendant.Instruction.Text

namespace TeachPendant

/-- Tool and user frames that can be selected on an arm. -/
def frameCount : Nat := 10

/-- How a run continues after an instruction. -/
inductive Flow
  | next
  | jump (label : UInt32)
  | call (target : CallTarget)
  | move (m : Move)
  deriving DecidableEq

/-- What an instruction leaves. One that fails has no effect, so it changes nothing. -/
structure Effect where
  flow : Flow
  registers : RegisterBank
  frames : Frames
  deriving DecidableEq

namespace Context

/-- Goes on without a change. -/
def goOn (c : Context) (flow : Flow) : Effect := ⟨flow, c.registers, c.frames⟩

/-- The kind of the value picks which registers can hold it. -/
def store (c : Context) (target : RegisterTarget) (v : Value) : Except Error RegisterBank :=
  match v, target with
  | .number x, .data i => c.registers.setData i x
  | .number x, .component i axis => c.registers.setComponent i axis x
  | .flag b, .io i => c.registers.setIo i b
  | .point p, .position i => c.registers.setPosition i p
  | _, _ => .error (.mismatch ("cannot store " ++ v.text ++ " into " ++ target.text))

def selectFrame (c : Context) (kind : FrameKind) (index : UInt64) : Except Error Frames :=
  if frameCount ≤ index.toNat then .error (.outside "frame" index.toNat frameCount)
  else match kind with
    | .tool => .ok { c.frames with tool := index }
    | .user => .ok { c.frames with user := index }

end Context

mutual

def Instruction.execute (c : Context) (table : PositionTable) : Instruction → Except Error Effect
  | .mk action commented => if commented then .ok (c.goOn .next) else action.execute c table

def Action.execute (c : Context) (table : PositionTable) : Action → Except Error Effect
  | .blank => .ok (c.goOn .next)
  | .label _ => .ok (c.goOn .next)
  | .motion m => do
    let move ← m.move c table
    .ok (c.goOn (.move move))
  | .selectFrame kind index => do
    let frames ← c.selectFrame kind index
    .ok ⟨.next, c.registers, frames⟩
  | .setIo register state => do
    let registers ← c.registers.setIo register state
    .ok ⟨.next, registers, c.frames⟩
  | .jump label => .ok (c.goOn (.jump label))
  | .call target => .ok (c.goOn (.call target))
  | .assign target expression => do
    let v ← Sequence.evaluate c expression
    let registers ← c.store target v
    .ok ⟨.next, registers, c.frames⟩
  | .ifThen condition body =>
    match condition.evaluate c with
    | .error e => .error e
    | .ok (.flag true) => body.execute c table
    | .ok (.flag false) => .ok (c.goOn .next)
    | .ok v => .error (.mismatch ("IF condition gave " ++ v.text ++ ", expected ON/OFF"))
  | .select argument cases => executeCases c table argument cases

/-- The first case of the same value decides; its body runs only if it is a transfer. -/
def executeCases (c : Context) (table : PositionTable) (argument : Operand) :
    List SelectCase → Except Error Effect
  | [] => .ok (c.goOn .next)
  | .mk value body :: rest =>
    if value.sameValue c argument then
      if body.isTransfer then body.execute c table else .ok (c.goOn .next)
    else executeCases c table argument rest

end

end TeachPendant
