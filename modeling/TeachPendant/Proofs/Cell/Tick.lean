import Mathlib.Tactic.SplitIfs
import TeachPendant.Device

namespace TeachPendant

/-- Where a call made on the current line comes back to. -/
def Execution.callFrame (x : Execution) (device : UInt8) : ReturnFrame :=
  ⟨device, x.program, x.current + 1, x.mode⟩

namespace Device

variable {σ : Type} [MotionService σ]

/-- What the current line of a run does when this device runs it. -/
def lineResult (d : Device σ) (registers : RegisterBank) (x : Execution) (p : Program) :
    StepResult σ :=
  x.step p ⟨registers, d.frames, MotionService.pose d.arm, d.id⟩ d.arm

/-- The device after a line, before what the line asks for is seen to. -/
def afterLine (d : Device σ) (s : StepResult σ) : Device σ :=
  { d with execution := some s.execution, frames := s.frames, arm := s.arm }

/-- Everything that a tick can be, in the order in which it is looked for. -/
inductive Ticked (d : Device σ) (registers : RegisterBank) : TickResult σ → Prop
  | reported {caller : UInt8} {reason : String} (report : d.abandoned = some (caller, reason)) :
      Ticked d registers
        { device := { d with abandoned := none }, registers, event := .callFailed caller reason }
  | unstarted (quiet : d.abandoned = none) (execution : d.execution = none) :
      Ticked d registers { device := d, registers, event := .idle }
  | lost {x : Execution} (quiet : d.abandoned = none) (execution : d.execution = some x)
      (program : d.library.get? x.program.index = none) :
      Ticked d registers
        { device := (d.fail (.outside "program" x.program.index d.library.length)).1, registers
          event := .idle
          trace := (d.fail (.outside "program" x.program.index d.library.length)).2 }
  | faulted {x : Execution} {p : Program} {cause : Error} (quiet : d.abandoned = none)
      (execution : d.execution = some x) (program : d.library.get? x.program.index = some p)
      (running : x.status = .running)
      (status : (d.lineResult registers x p).execution.status = .fault cause) :
      Ticked d registers
        { device := (d.afterLine (d.lineResult registers x p)).dropCallChain cause.message
          registers := (d.lineResult registers x p).registers, event := .busy
          trace := (d.lineResult registers x p).trace ++ [d.tell .error cause.message] }
  | advanced {x : Execution} {p : Program} (quiet : d.abandoned = none)
      (execution : d.execution = some x) (program : d.library.get? x.program.index = some p)
      (running : x.status = .running)
      (status : ∀ cause, (d.lineResult registers x p).execution.status ≠ .fault cause)
      (call : (d.lineResult registers x p).call = none) :
      Ticked d registers
        { device := d.afterLine (d.lineResult registers x p)
          registers := (d.lineResult registers x p).registers, event := .busy
          trace := (d.lineResult registers x p).trace }
  | calledOver {x : Execution} {p : Program} {target : CallTarget} (quiet : d.abandoned = none)
      (execution : d.execution = some x) (program : d.library.get? x.program.index = some p)
      (running : x.status = .running)
      (status : ∀ cause, (d.lineResult registers x p).execution.status ≠ .fault cause)
      (call : (d.lineResult registers x p).call = some target) (device : target.device ≠ d.id) :
      Ticked d registers
        { device := d.afterLine (d.lineResult registers x p)
          registers := (d.lineResult registers x p).registers
          event := .crossCall target ((d.lineResult registers x p).execution.callFrame d.id)
          trace := (d.lineResult registers x p).trace }
  | calledHere {x : Execution} {p : Program} {target : CallTarget} {ref : ProgramRef}
      (quiet : d.abandoned = none) (execution : d.execution = some x)
      (program : d.library.get? x.program.index = some p) (running : x.status = .running)
      (status : ∀ cause, (d.lineResult registers x p).execution.status ≠ .fault cause)
      (call : (d.lineResult registers x p).call = some target) (device : target.device = d.id)
      (resolved : d.library.resolve target = .ok ref) {called : Device σ}
      (pushed : called = { d.afterLine (d.lineResult registers x p) with
        returnStack := (d.lineResult registers x p).execution.callFrame d.id :: d.returnStack })
      {mode : RunMode} (sameMode : mode = (d.lineResult registers x p).execution.mode) :
      Ticked d registers
        { device := (called.begin ref mode 0).1
          registers := (d.lineResult registers x p).registers, event := .busy
          trace := (d.lineResult registers x p).trace ++ (called.begin ref mode 0).2 }
  | refused {x : Execution} {p : Program} {target : CallTarget} {e : Error}
      (quiet : d.abandoned = none) (execution : d.execution = some x)
      (program : d.library.get? x.program.index = some p) (running : x.status = .running)
      (status : ∀ cause, (d.lineResult registers x p).execution.status ≠ .fault cause)
      (call : (d.lineResult registers x p).call = some target) (device : target.device = d.id)
      (resolved : d.library.resolve target = .error e) :
      Ticked d registers
        { device := ((d.afterLine (d.lineResult registers x p)).fail e).1
          registers := (d.lineResult registers x p).registers, event := .idle
          trace := (d.lineResult registers x p).trace ++
            ((d.afterLine (d.lineResult registers x p)).fail e).2 }
  | polled {x : Execution} {p : Program} {handle : Nat} (quiet : d.abandoned = none)
      (execution : d.execution = some x) (program : d.library.get? x.program.index = some p)
      (status : x.status = .awaitingMotion handle) :
      Ticked d registers
        { device := { d with execution := some (x.advance p d.arm).1, arm := (x.advance p d.arm).2.1 }
          registers, event := .busy, trace := (x.advance p d.arm).2.2 }
  | waiting {x : Execution} {p : Program} (quiet : d.abandoned = none)
      (execution : d.execution = some x) (program : d.library.get? x.program.index = some p)
      (status : x.status = .awaitingCall) :
      Ticked d registers { device := d, registers, event := .idle }
  | returnedOver {x : Execution} {p : Program} {frame : ReturnFrame} {rest : List ReturnFrame}
      (quiet : d.abandoned = none) (execution : d.execution = some x)
      (program : d.library.get? x.program.index = some p) (status : x.status = .done .endOfProgram)
      (stack : d.returnStack = frame :: rest) (device : frame.device ≠ d.id) :
      Ticked d registers
        { device := { d with returnStack := rest }, registers, event := .returned frame }
  | returnLost {x : Execution} {p : Program} {frame : ReturnFrame} {rest : List ReturnFrame}
      (quiet : d.abandoned = none) (execution : d.execution = some x)
      (program : d.library.get? x.program.index = some p) (status : x.status = .done .endOfProgram)
      (stack : d.returnStack = frame :: rest) (device : frame.device = d.id)
      (caller : d.library.get? frame.program.index = none) :
      Ticked d registers
        { device := (({ d with returnStack := rest } : Device σ).fail
            (.outside "program" frame.program.index d.library.length)).1
          registers, event := .idle
          trace := (({ d with returnStack := rest } : Device σ).fail
            (.outside "program" frame.program.index d.library.length)).2 }
  | returnedHere {x : Execution} {p q : Program} {frame : ReturnFrame} {rest : List ReturnFrame}
      (quiet : d.abandoned = none) (execution : d.execution = some x)
      (program : d.library.get? x.program.index = some p) (status : x.status = .done .endOfProgram)
      (stack : d.returnStack = frame :: rest) (device : frame.device = d.id)
      (caller : d.library.get? frame.program.index = some q) :
      Ticked d registers
        { device := { d with returnStack := rest, execution := some (returned frame q) }, registers
          event := .busy }
  | stopped {x : Execution} {p : Program} (quiet : d.abandoned = none)
      (execution : d.execution = some x) (program : d.library.get? x.program.index = some p)
      (terminal : x.status.isTerminal = true)
      (nothingLeft : x.status = .done .endOfProgram → d.returnStack = []) :
      Ticked d registers { device := d, registers, event := .idle }

theorem tickRunning_eq (d : Device σ) (registers : RegisterBank) (x : Execution) (p : Program) :
    d.tickRunning registers x p =
      match (d.lineResult registers x p).execution.status with
      | .fault cause =>
        { device := (d.afterLine (d.lineResult registers x p)).dropCallChain cause.message
          registers := (d.lineResult registers x p).registers, event := .busy
          trace := (d.lineResult registers x p).trace ++ [d.tell .error cause.message] }
      | _ =>
        match (d.lineResult registers x p).call with
        | none =>
          { device := d.afterLine (d.lineResult registers x p)
            registers := (d.lineResult registers x p).registers, event := .busy
            trace := (d.lineResult registers x p).trace }
        | some target =>
          let called := (d.afterLine (d.lineResult registers x p)).dispatchCall
            (d.lineResult registers x p).execution target
          { device := called.1, registers := (d.lineResult registers x p).registers
            event := called.2.1, trace := (d.lineResult registers x p).trace ++ called.2.2 } :=
  rfl

theorem tickRunning_of_ok {d : Device σ} {registers : RegisterBank} {x : Execution} {p : Program}
    (hf : ∀ cause, (d.lineResult registers x p).execution.status ≠ .fault cause) :
    d.tickRunning registers x p =
      match (d.lineResult registers x p).call with
      | none =>
        { device := d.afterLine (d.lineResult registers x p)
          registers := (d.lineResult registers x p).registers, event := .busy
          trace := (d.lineResult registers x p).trace }
      | some target =>
        let called := (d.afterLine (d.lineResult registers x p)).dispatchCall
          (d.lineResult registers x p).execution target
        { device := called.1, registers := (d.lineResult registers x p).registers
          event := called.2.1, trace := (d.lineResult registers x p).trace ++ called.2.2 } := by
  rw [tickRunning_eq]
  split
  · next cause hs => exact absurd hs (hf cause)
  · rfl

theorem tickRunning_of_fault {d : Device σ} {registers : RegisterBank} {x : Execution} {p : Program}
    {cause : Error} (hf : (d.lineResult registers x p).execution.status = .fault cause) :
    d.tickRunning registers x p =
      { device := (d.afterLine (d.lineResult registers x p)).dropCallChain cause.message
        registers := (d.lineResult registers x p).registers, event := .busy
        trace := (d.lineResult registers x p).trace ++ [d.tell .error cause.message] } := by
  rw [tickRunning_eq, hf]

theorem ticked_running {d : Device σ} {registers : RegisterBank} {x : Execution} {p : Program}
    (quiet : d.abandoned = none) (execution : d.execution = some x)
    (program : d.library.get? x.program.index = some p) (running : x.status = .running) :
    d.Ticked registers (d.tickRunning registers x p) := by
  rw [tickRunning_eq]
  split
  · next cause status => exact .faulted quiet execution program running status
  · next status =>
    split
    · next call => exact .advanced quiet execution program running status call
    · next target call =>
      unfold dispatchCall
      dsimp only
      split
      · next device =>
        rw [List.append_nil]
        exact .calledOver quiet execution program running status call device
      · next device =>
        have device : target.device = d.id := Decidable.not_not.mp device
        split
        · next ref resolved =>
          exact .calledHere quiet execution program running status call device resolved rfl rfl
        · next e resolved => exact .refused quiet execution program running status call device resolved

theorem ticked_ended {d : Device σ} {registers : RegisterBank} {x : Execution} {p : Program}
    (quiet : d.abandoned = none) (execution : d.execution = some x)
    (program : d.library.get? x.program.index = some p) (status : x.status = .done .endOfProgram) :
    d.Ticked registers { device := d.returnFromCall.1, registers, event := d.returnFromCall.2.1
                         trace := d.returnFromCall.2.2 } := by
  unfold returnFromCall
  split
  · next stack =>
    exact .stopped quiet execution program (by simp [status, Status.isTerminal]) fun _ => stack
  · next frame rest stack =>
    dsimp only
    split
    · next device => exact .returnedOver quiet execution program status stack device
    · next device =>
      have device : frame.device = d.id := Decidable.not_not.mp device
      split
      · next caller => exact .returnLost quiet execution program status stack device caller
      · next q caller => exact .returnedHere quiet execution program status stack device caller

theorem ticked (d : Device σ) (registers : RegisterBank) :
    d.Ticked registers (d.tick registers) := by
  unfold tick
  split
  · next caller reason report => exact .reported report
  · next quiet =>
    split
    · next execution => exact .unstarted quiet execution
    · next x execution =>
      split
      · next program => exact .lost quiet execution program
      · next p program =>
        split
        · next status => exact ticked_running quiet execution program status
        · next handle status => exact .polled quiet execution program status
        · next status => exact .waiting quiet execution program status
        · next status => exact ticked_ended quiet execution program status
        · next reason other status =>
          exact .stopped quiet execution program (by simp [status, Status.isTerminal])
            fun h => absurd (status ▸ h) (by simpa using other)
        · next cause status =>
          exact .stopped quiet execution program (by simp [status, Status.isTerminal])
            fun h => by simp [status] at h

end Device

end TeachPendant
