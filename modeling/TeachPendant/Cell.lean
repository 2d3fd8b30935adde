import TeachPendant.Device
import TeachPendant.Linking

namespace TeachPendant

inductive Side
  | first
  | second
  deriving DecidableEq, Inhabited

namespace Side

def id : Side → UInt8
  | .first => 0
  | .second => 1

def ofId? (n : UInt8) : Option Side :=
  match n with
  | 0 => some .first
  | 1 => some .second
  | _ => none

end Side

/-- A tick lets each device take one step, the first one first, and routes calls and returns between
them. -/
structure Cell (σ : Type) where
  registers : RegisterBank
  first : Device σ
  second : Device σ

namespace Cell

variable {σ : Type}

def get (c : Cell σ) : Side → Device σ
  | .first => c.first
  | .second => c.second

def put (c : Cell σ) (side : Side) (d : Device σ) : Cell σ :=
  match side with
  | .first => { c with first := d }
  | .second => { c with second := d }

def devices (c : Cell σ) : List (Device σ) := [c.first, c.second]

/-- Looks a device up by its number. -/
def sideOf (id : UInt8) : Except Error Side :=
  match Side.ofId? id with
  | some side => .ok side
  | none => .error (.outside "device" id.toNat deviceCount)

def warnings (errors : List Error) : Trace := errors.map fun e => .logged (.warn e.message)

/-- Looks every call up again. Gives the calls that stay without a link. -/
def relink (c : Cell σ) : Cell σ × List Error :=
  match linkCalls [c.first.library, c.second.library] with
  | ([l, m], errors) =>
    ({ c with first := { c.first with library := l }, second := { c.second with library := m } },
      errors)
  | (_, errors) => (c, errors)

/-- A cell of two libraries, linked; calls without a link are warned about. -/
def build (registers : RegisterBank) (first second : Library) (arm : Side → σ) : Cell σ × Trace :=
  let (c, errors) := relink {
    registers
    first := { id := Side.first.id, library := first, arm := arm .first }
    second := { id := Side.second.id, library := second, arm := arm .second } }
  (c, warnings errors)

def isBusy (c : Cell σ) : Bool := c.first.isBusy || c.second.isBusy

def start (c : Cell σ) (device : UInt8) (program : String) (mode : RunMode) (i : Nat) :
    Except Error (Cell σ × Trace) := do
  let side ← sideOf device
  let (d, trace) ← (c.get side).start program mode i
  .ok (c.put side d, trace)

def resume (c : Cell σ) (device : UInt8) : Except Error (Cell σ × Trace) := do
  let side ← sideOf device
  let (d, trace) ← (c.get side).resume
  .ok (c.put side d, trace)

def haltSide [MotionService σ] (c : Cell σ) (side : Side) : Cell σ × Trace :=
  let (d, trace) := (c.get side).halt
  (c.put side d, trace)

def halt [MotionService σ] (c : Cell σ) (device : UInt8) : Except Error (Cell σ × Trace) := do
  let side ← sideOf device
  .ok (c.haltSide side)

def haltAll [MotionService σ] (c : Cell σ) : Cell σ × Trace :=
  let (c, trace) := c.haltSide .first
  let (c, trace') := c.haltSide .second
  (c, trace ++ trace')

/-- Edits the library of a device, which must not be busy. -/
def editLibrary {α : Type} (c : Cell σ) (device : UInt8)
    (edit : Library → Except Error (Library × α)) : Except Error (Cell σ × α) := do
  let side ← sideOf device
  let d := c.get side
  if d.isBusy then .error (.busy d.id)
  else
    let (library, x) ← edit d.library
    .ok (c.put side { d with library }, x)

def failSide (c : Cell σ) (side : Side) (cause : Error) : Cell σ × Trace :=
  let (d, trace) := (c.get side).fail cause
  (c.put side d, trace)

/-- Passes a call on to the device it names; a call that is not taken is a fault of the caller. -/
def routeCall (c : Cell σ) (caller : Side) (target : CallTarget) (frame : ReturnFrame) :
    Cell σ × Trace :=
  match Side.ofId? target.device with
  | none => c.failSide caller (.unresolvedCall target.program target.device)
  | some callee =>
    match (c.get callee).acceptCall target frame with
    | .ok (d, trace) => (c.put callee d, trace)
    | .error e => c.failSide caller e

/-- Tells a caller that is still waiting that its call on `callee` was dropped. -/
def routeFailure (c : Cell σ) (callee : Side) (caller : UInt8) (reason : String) : Cell σ × Trace :=
  match Side.ofId? caller with
  | none => (c, [])
  | some side =>
    if (c.get side).status? = some .awaitingCall then
      c.failSide side (.callFailed callee.id reason)
    else (c, [])

def routeReturn (c : Cell σ) (frame : ReturnFrame) : Cell σ × Trace :=
  match Side.ofId? frame.device with
  | none => (c, [.logged (.warn ("return to unknown device " ++ toString frame.device))])
  | some side => (c.put side (c.get side).resumeAfterCall, [])

/-- What an event of one device does to the cell; whether there was work to do. -/
def route (c : Cell σ) (side : Side) : DeviceEvent → Cell σ × Bool × Trace
  | .idle => (c, false, [])
  | .busy => (c, true, [])
  | .crossCall target frame =>
    let (c, trace) := c.routeCall side target frame
    (c, true, trace)
  | .callFailed caller reason =>
    let (c, trace) := c.routeFailure side caller reason
    (c, true, trace)
  | .returned frame =>
    let (c, trace) := c.routeReturn frame
    (c, true, trace)

def tickSide [MotionService σ] (c : Cell σ) (side : Side) : Cell σ × Bool × Trace :=
  let t := (c.get side).tick c.registers
  let (c, busy, trace) := { c.put side t.device with registers := t.registers }.route side t.event
  (c, busy, t.trace ++ trace)

/-- One step of each device. Gives whether any of them still has work. -/
def tick [MotionService σ] (c : Cell σ) : Cell σ × Bool × Trace :=
  let (c, busy, trace) := c.tickSide .first
  let (c, busy', trace') := c.tickSide .second
  (c, busy || busy', trace ++ trace')

/-- Ticks until a tick finds no work, at most `fuel` times; `ticks` were made before. The trace is
kept in reverse. -/
def runLoop [MotionService σ] : Nat → Nat → Cell σ → Trace → Cell σ × Nat × Trace
  | 0, ticks, c, trace =>
    (c, ticks, .logged (.info s!"cell still busy after {ticks} ticks") :: trace)
  | fuel + 1, ticks, c, trace =>
    let (c, busy, new) := c.tick
    let trace := new.reverse ++ trace
    if busy then runLoop fuel (ticks + 1) c trace else (c, ticks + 1, trace)

/-- Runs until both devices are idle, at most `limit` ticks. Gives the number of ticks made. -/
def runUntilIdle [MotionService σ] (c : Cell σ) (limit : Nat) : Cell σ × Nat × Trace :=
  let (c, ticks, trace) := runLoop limit 0 c []
  (c, ticks, trace.reverse)

end Cell

end TeachPendant
