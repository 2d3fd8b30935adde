import TeachPendant.Arm.Service
import TeachPendant.Instruction.Execute
import TeachPendant.Program
import TeachPendant.Trace

namespace TeachPendant

inductive RunMode
  /-- To the end of the program. -/
  | full
  /-- Pauses after every instruction. -/
  | singleStep
  /-- Steps toward the first line, running motions only. -/
  | backward
  deriving DecidableEq, Inhabited

inductive DoneReason
  | endOfProgram
  | stepped
  | halted
  deriving DecidableEq, Inhabited

inductive Status
  | running
  | awaitingMotion (handle : Nat)
  | awaitingCall
  | done (reason : DoneReason)
  | fault (cause : Error)
  deriving DecidableEq, Inhabited

namespace Status

def isTerminal : Status → Bool
  | .done _ | .fault _ => true
  | _ => false

def text : Status → String
  | .running => "running"
  | .awaitingMotion handle => "moving (motion " ++ toString handle ++ ")"
  | .awaitingCall => "waiting for a call"
  | .done .endOfProgram => "done"
  | .done .stepped => "paused"
  | .done .halted => "halted"
  | .fault cause => "fault: " ++ cause.message

end Status

/-- `next` may lie one above the first line when stepping backward. -/
structure Execution where
  program : ProgramRef
  current : Nat
  next : Int
  mode : RunMode
  status : Status
  deriving DecidableEq

/-- What a step leaves behind. -/
structure StepResult (σ : Type) where
  execution : Execution
  registers : RegisterBank
  frames : Frames
  arm : σ
  call : Option CallTarget := none
  trace : Trace := []

namespace Execution

/-- The line after line `i` in the direction of the mode. -/
def following (mode : RunMode) (i : Nat) : Int :=
  match mode with
  | .backward => (i : Int) - 1
  | .full | .singleStep => (i : Int) + 1

/-- Starts on line `i`; a line outside the program is a fault right away. -/
def start (ref : ProgramRef) (p : Program) (mode : RunMode) (i : Nat) : Execution :=
  if p.length ≤ i then ⟨ref, i, 0, mode, .fault (.outside "start" i p.length)⟩
  else ⟨ref, i, following mode i, mode, .running⟩

/-- Has already run off the end. -/
def finished (ref : ProgramRef) (p : Program) (mode : RunMode) : Execution :=
  ⟨ref, p.length, p.length, mode, .done .endOfProgram⟩

/-- Stopped on line `i` as if the line before it had just been stepped over. -/
def paused (ref : ProgramRef) (p : Program) (mode : RunMode) (i : Nat) : Execution :=
  let x := start ref p mode i
  if x.status = .running then { x with status := .done .stepped } else x

def fail (x : Execution) (cause : Error) : Execution := { x with status := .fault cause }

/-- Goes to the next line, ends past either end of the program, and pauses in a stepping mode. -/
def moveOn (x : Execution) (p : Program) : Execution :=
  if x.next = p.length ∨ (x.next = -1 ∧ x.mode = .backward) then
    { x with status := .done .endOfProgram }
  else if x.next < 0 ∨ (p.length : Int) < x.next then
    x.fail (.outOfRange "instruction" x.next p.length)
  else
    { x with
      current := x.next.toNat
      next := following x.mode x.next.toNat
      status := if x.mode = .full then x.status else .done .stepped }

/-- The message about an instruction that is skipped over. -/
def skipMessage (p : Program) (i : Nat) (e : Error) : LogMessage :=
  .warn (p.name ++ " line " ++ toString (i + 1) ++ ": " ++ e.message)

/-- Follows the flow of an instruction that succeeded. A linked call is handed to the caller. -/
def follow {σ : Type} [MotionService σ] (x : Execution) (p : Program) (effect : Effect) (arm : σ) :
    StepResult σ :=
  let result := fun x =>
    { execution := x, registers := effect.registers, frames := effect.frames, arm }
  match effect.flow with
  | .next => result (x.moveOn p)
  | .jump label =>
    match p.findLabel label with
    | some i => result ({ x with next := i }.moveOn p)
    | none => result (x.fail (.unresolvedLabel label))
  | .move m =>
    let (arm, handle) := MotionService.dispatch arm m
    { execution := { x with status := .awaitingMotion handle }
      registers := effect.registers, frames := effect.frames, arm
      trace := [.dispatched x.program.device handle m] }
  | .call target =>
    match target.link with
    | none => result (x.fail (.unresolvedCall target.program target.device))
    | some _ => { result { x with status := .awaitingCall } with call := some target }

/-- Runs the current line of a running program. -/
def step {σ : Type} [MotionService σ] (x : Execution) (p : Program) (c : Context) (arm : σ) :
    StepResult σ :=
  let result := fun x => { execution := x, registers := c.registers, frames := c.frames, arm }
  if x.status ≠ .running then result x
  else
    match p.instruction? x.current with
    | none => result (x.fail (.outside "instruction" x.current p.length))
    | some i =>
      if x.mode = .backward ∧ ¬ i.isMotion then result (x.moveOn p)
      else
        match i.execute c p.positions with
        | .ok effect => x.follow p effect arm
        | .error e =>
          if e.isFatal then result (x.fail e)
          else { result (x.moveOn p) with trace := [.logged (skipMessage p x.current e)] }

/-- Completes the current line; while a move is in flight, only once the arm reports it complete. -/
def advance {σ : Type} [MotionService σ] (x : Execution) (p : Program) (arm : σ) :
    Execution × σ × Trace :=
  match x.status with
  | .done _ | .fault _ | .awaitingCall => (x, arm, [])
  | .awaitingMotion handle =>
    let (arm, complete) := MotionService.poll arm handle
    let trace := [.polled x.program.device handle complete]
    if complete then ({ x with status := .running }.moveOn p, arm, trace) else (x, arm, trace)
  | .running => (x.moveOn p, arm, [])

/-- Goes on after a call to another device has returned. -/
def resumeAfterCall (x : Execution) (p : Program) : Execution :=
  if x.status = .awaitingCall then { x with status := .running }.moveOn p else x

/-- Ends the run and cancels a move in flight. -/
def halt {σ : Type} [MotionService σ] (x : Execution) (arm : σ) : Execution × σ × Trace :=
  let ended := { x with status := .done .halted }
  match x.status with
  | .awaitingMotion handle =>
    (ended, MotionService.cancel arm handle, [.cancelled x.program.device handle])
  | _ => (ended, arm, [])

end Execution

end TeachPendant
