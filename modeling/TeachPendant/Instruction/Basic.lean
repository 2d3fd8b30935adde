import TeachPendant.Motion

namespace TeachPendant

/-- A place in the library of a device. -/
structure ProgramRef where
  device : UInt8
  index : Nat
  deriving DecidableEq, Inhabited

/-- Calls are written by name and device; linking adds the place where the program is found. -/
structure CallTarget where
  program : String
  device : UInt8
  link : Option ProgramRef := none
  deriving DecidableEq, Inhabited

inductive FrameKind
  | tool
  | user
  deriving DecidableEq, Inhabited

/-- A register that an assignment writes. -/
inductive RegisterTarget
  | data (index : UInt64)
  | io (index : UInt64)
  | position (index : UInt64)
  | component (index axis : UInt64)
  deriving DecidableEq, Inhabited

mutual

/-- A commented instruction stays in the text of a program and is skipped by runs. -/
inductive Instruction
  | mk (action : Action) (commented : Bool)

inductive Action
  | blank
  | motion (m : Motion)
  | selectFrame (kind : FrameKind) (index : UInt64)
  | setIo (register : UInt64) (state : Bool)
  | label (number : UInt32)
  | jump (label : UInt32)
  | call (target : CallTarget)
  | assign (target : RegisterTarget) (expression : Sequence)
  | ifThen (condition : Expression) (body : Instruction)
  | select (argument : Operand) (cases : List SelectCase)

inductive SelectCase
  | mk (value : Operand) (body : Instruction)

end

instance : Inhabited Instruction := ⟨.mk .blank false⟩

namespace Instruction

def action : Instruction → Action
  | .mk action _ => action

def commented : Instruction → Bool
  | .mk _ commented => commented

def ofAction (action : Action) : Instruction := .mk action false

def withCommented (i : Instruction) (commented : Bool) : Instruction := .mk i.action commented

/-- A plain operand becomes a sequence of one token. -/
def ifThen (condition : Operand) (body : Instruction) : Instruction :=
  match condition with
  | .nested e => .ofAction (.ifThen e body)
  | o => .ofAction (.ifThen (.sequence [.operand o]) body)

/-- The number under which an instruction is saved. -/
def tag (i : Instruction) : Nat :=
  match i.action with
  | .blank => 0
  | .motion _ => 1
  | .selectFrame _ _ => 2
  | .setIo _ _ => 3
  | .label _ => 4
  | .jump _ => 5
  | .call _ => 6
  | .assign _ _ => 7
  | .ifThen _ _ => 8
  | .select _ _ => 9

def isMotion (i : Instruction) : Bool :=
  match i.action with
  | .motion _ => true
  | _ => false

/-- Jumps and calls, the only bodies that a `SELECT` runs. -/
def isTransfer (i : Instruction) : Bool :=
  match i.action with
  | .jump _ | .call _ => true
  | _ => false

/-- Whether a jump may land here. -/
def isLabel (i : Instruction) (number : UInt32) : Bool :=
  !i.commented &&
    match i.action with
    | .label n => n == number
    | _ => false

mutual

/-- Every call target in order, those of nested and commented instructions included. -/
def calls : Instruction → List CallTarget
  | .mk action _ => actionCalls action

def actionCalls : Action → List CallTarget
  | .call target => [target]
  | .ifThen _ body => body.calls
  | .select _ cases => caseCalls cases
  | _ => []

def caseCalls : List SelectCase → List CallTarget
  | [] => []
  | .mk _ body :: rest => body.calls ++ caseCalls rest

end

mutual

/-- Changes every call target. -/
def mapCalls (f : CallTarget → CallTarget) : Instruction → Instruction
  | .mk action commented => .mk (mapActionCalls f action) commented

def mapActionCalls (f : CallTarget → CallTarget) : Action → Action
  | .call target => .call (f target)
  | .ifThen condition body => .ifThen condition (body.mapCalls f)
  | .select argument cases => .select argument (mapCaseCalls f cases)
  | action => action

def mapCaseCalls (f : CallTarget → CallTarget) : List SelectCase → List SelectCase
  | [] => []
  | .mk value body :: rest => .mk value (body.mapCalls f) :: mapCaseCalls f rest

end

end Instruction

end TeachPendant
