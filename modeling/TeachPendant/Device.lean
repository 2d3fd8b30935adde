import TeachPendant.Execution
import TeachPendant.Library

namespace TeachPendant

/-- Where a finished program hands control back. -/
structure ReturnFrame where
  device : UInt8
  program : ProgramRef
  resumeAt : Nat
  mode : RunMode
  deriving DecidableEq

/-- What a device needs from the cell after a tick. -/
inductive DeviceEvent
  | idle
  | busy
  | crossCall (target : CallTarget) (frame : ReturnFrame)
  | returned (frame : ReturnFrame)
  | callFailed (caller : UInt8) (reason : String)
  deriving DecidableEq

/-- The top of the return stack comes first. `abandoned` names a caller on another device whose call
was dropped and who has not been told yet. -/
structure Device (σ : Type) where
  id : UInt8
  library : Library
  execution : Option Execution := none
  returnStack : List ReturnFrame := []
  frames : Frames := {}
  arm : σ
  abandoned : Option (UInt8 × String) := none

structure TickResult (σ : Type) where
  device : Device σ
  registers : RegisterBank
  event : DeviceEvent
  trace : Trace := []

namespace Device

variable {σ : Type}

def status? (d : Device σ) : Option Status := d.execution.map (·.status)

def isActive (d : Device σ) : Bool :=
  match d.status? with
  | some status => !status.isTerminal
  | none => false

/-- Running, moving, waiting for a call, or holding callers to return to. -/
def isBusy (d : Device σ) : Bool := d.isActive || !d.returnStack.isEmpty

def isMoving (d : Device σ) : Bool :=
  match d.status? with
  | some (.awaitingMotion _) => true
  | _ => false

def returnDepth (d : Device σ) : Nat := d.returnStack.length

def tell (d : Device σ) (level : Severity) (msg : String) : Event := .logged ⟨level, some d.id, msg⟩

/-- The messages about a run that has just begun. -/
def beginTrace (d : Device σ) (x : Execution) (opening : Trace) : Trace :=
  match x.status with
  | .fault cause => opening ++ [d.tell .error cause.message]
  | _ => opening

/-- Begins a run on line `i`. An empty program that was called is finished at once. -/
def begin (d : Device σ) (ref : ProgramRef) (mode : RunMode) (i : Nat) : Device σ × Trace :=
  match d.library.get? ref.index with
  | none => (d, [d.tell .error ("no program at " ++ toString ref.index)])
  | some p =>
    if p.isEmpty && !d.returnStack.isEmpty then
      ({ d with execution := some (.finished ref p mode) }, [])
    else
      let x := Execution.start ref p mode i
      let opening := d.tell .debug (p.name ++ " from line " ++ toString ((i + 1) % 2 ^ 64))
      ({ d with execution := some x }, d.beginTrace x [opening])

/-- Starts a program by name; an earlier chain of calls is dropped. -/
def start (d : Device σ) (program : String) (mode : RunMode) (i : Nat) :
    Except Error (Device σ × Trace) :=
  if d.isBusy then .error (.busy d.id)
  else
    match d.library.find? program with
    | none => .error (.unresolvedCall program d.id)
    | some index => .ok ({ d with returnStack := [] }.begin ⟨d.id, index⟩ mode i)

/-- Takes a call from another device. -/
def acceptCall (d : Device σ) (target : CallTarget) (frame : ReturnFrame) :
    Except Error (Device σ × Trace) :=
  if d.isBusy then .error (.busy d.id)
  else
    match d.library.resolve target with
    | .error e => .error e
    | .ok ref => .ok ({ d with returnStack := frame :: d.returnStack }.begin ref frame.mode 0)

/-- Goes on after a call to another device has returned. -/
def resumeAfterCall (d : Device σ) : Device σ :=
  match d.execution with
  | none => d
  | some x =>
    match d.library.get? x.program.index with
    | none => d
    | some p => { d with execution := some (x.resumeAfterCall p) }

/-- Forgets all callers, keeping a report for the one on another device. -/
def dropCallChain (d : Device σ) (reason : String) : Device σ :=
  match d.returnStack.reverse.find? (·.device != d.id) with
  | some frame => { d with returnStack := [], abandoned := some (frame.device, reason) }
  | none => { d with returnStack := [] }

def fail (d : Device σ) (cause : Error) : Device σ × Trace :=
  let failed := { d with execution := d.execution.map fun x => Execution.fail x cause }
  (failed.dropCallChain cause.message, [d.tell .error cause.message])

/-- Goes on from the line on which a stepping mode paused, keeping the chain of calls. -/
def resume (d : Device σ) : Except Error (Device σ × Trace) :=
  match d.execution with
  | none => .ok (d, [])
  | some x =>
    if x.status ≠ .done .stepped then .error (.busy d.id)
    else .ok (d.begin x.program x.mode x.current)

/-- Ends the run and drops the chain of calls. -/
def halt [MotionService σ] (d : Device σ) : Device σ × Trace :=
  match d.execution with
  | none => (d.dropCallChain "halted", [])
  | some x =>
    let (x, arm, trace) := x.halt d.arm
    ({ d with execution := some x, arm }.dropCallChain "halted", trace)

/-- Issues a call of the run `x`: to this device at once, to another one through the cell. -/
def dispatchCall (d : Device σ) (x : Execution) (target : CallTarget) :
    Device σ × DeviceEvent × Trace :=
  let frame : ReturnFrame := ⟨d.id, x.program, x.current + 1, x.mode⟩
  if target.device ≠ d.id then (d, .crossCall target frame, [])
  else
    match d.library.resolve target with
    | .ok ref =>
      let (d, trace) := { d with returnStack := frame :: d.returnStack }.begin ref frame.mode 0
      (d, .busy, trace)
    | .error e =>
      let (d, trace) := d.fail e
      (d, .idle, trace)

/-- The run of a caller after its call has returned: stepping modes stop on the line after it. -/
def returned (frame : ReturnFrame) (p : Program) : Execution :=
  if p.length ≤ frame.resumeAt then .finished frame.program p frame.mode
  else if frame.mode = .full then .start frame.program p frame.mode frame.resumeAt
  else .paused frame.program p frame.mode frame.resumeAt

/-- Hands control back to the top frame of the return stack. -/
def returnFromCall (d : Device σ) : Device σ × DeviceEvent × Trace :=
  match d.returnStack with
  | [] => (d, .idle, [])
  | frame :: rest =>
    let d := { d with returnStack := rest }
    if frame.device ≠ d.id then (d, .returned frame, [])
    else
      match d.library.get? frame.program.index with
      | none =>
        let (d, trace) := d.fail (.outside "program" frame.program.index d.library.length)
        (d, .idle, trace)
      | some p => ({ d with execution := some (returned frame p) }, .busy, [])

/-- A tick of a running program. -/
def tickRunning [MotionService σ] (d : Device σ) (registers : RegisterBank) (x : Execution)
    (p : Program) : TickResult σ :=
  let c : Context := ⟨registers, d.frames, MotionService.pose d.arm, d.id⟩
  let s := x.step p c d.arm
  let d := { d with execution := some s.execution, frames := s.frames, arm := s.arm }
  match s.execution.status with
  | .fault cause =>
    { device := d.dropCallChain cause.message, registers := s.registers, event := .busy
      trace := s.trace ++ [d.tell .error cause.message] }
  | _ =>
    match s.call with
    | none => { device := d, registers := s.registers, event := .busy, trace := s.trace }
    | some target =>
      let (d, event, trace) := d.dispatchCall s.execution target
      { device := d, registers := s.registers, event, trace := s.trace ++ trace }

/-- One step forward: tells of a dropped call, runs a line, polls a move, or unwinds a call. -/
def tick [MotionService σ] (d : Device σ) (registers : RegisterBank) : TickResult σ :=
  match d.abandoned with
  | some (caller, reason) =>
    { device := { d with abandoned := none }, registers, event := .callFailed caller reason }
  | none =>
    match d.execution with
    | none => { device := d, registers, event := .idle }
    | some x =>
      match d.library.get? x.program.index with
      | none =>
        let (d, trace) := d.fail (.outside "program" x.program.index d.library.length)
        { device := d, registers, event := .idle, trace }
      | some p =>
        match x.status with
        | .running => d.tickRunning registers x p
        | .awaitingMotion _ =>
          let (x, arm, trace) := x.advance p d.arm
          { device := { d with execution := some x, arm }, registers, event := .busy, trace }
        | .awaitingCall => { device := d, registers, event := .idle }
        | .done .endOfProgram =>
          let (d, event, trace) := d.returnFromCall
          { device := d, registers, event, trace }
        | .done _ | .fault _ => { device := d, registers, event := .idle }

end Device

end TeachPendant
