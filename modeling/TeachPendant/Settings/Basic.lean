import TeachPendant.Execution
import TeachPendant.Log.Logger

namespace TeachPendant

/-- The range of a numeric setting, and the value that stands in for one outside it. -/
structure Limit where
  label : String
  least : Nat := 1
  greatest : Nat
  standard : Nat
  deriving DecidableEq

namespace Limit

def admits (l : Limit) (n : Nat) : Bool := l.least ≤ n && n ≤ l.greatest

def settle (l : Limit) (n : Nat) : Nat := if l.admits n then n else l.standard

def warnings (l : Limit) (n : Nat) : List LogMessage :=
  if l.admits n then []
  else [.warn ("Invalid " ++ l.label ++ ": " ++ toString n ++ ". Using default: " ++
    toString l.standard)]

def dataRegisters : Limit := { label := "data register count", greatest := 1000, standard := 100 }

def ioRegisters : Limit := { label := "I/O register count", greatest := 256, standard := 32 }

def positionRegisters : Limit :=
  { label := "position register count", greatest := 1000, standard := 100 }

def tickMs : Limit := { label := "motion tick_ms", greatest := 100, standard := 4 }

def stepsAtFullSpeed : Limit :=
  { label := "steps_at_full_speed", greatest := 10000, standard := 25 }

def settleJitterMs : Limit :=
  { label := "settle_jitter_ms", least := 0, greatest := 1000, standard := 6 }

def maxTicks : Limit := { label := "max_ticks", greatest := 2 ^ 64 - 1, standard := 100000 }

def maxFileKb : Limit := { label := "max_file_kb", greatest := 1024 * 1024, standard := 1024 }

def keepFiles : Limit := { label := "keep_files", least := 0, greatest := 100, standard := 5 }

end Limit

/-- Sizes of the register banks. -/
structure RegisterSettings where
  data : Nat := Limit.dataRegisters.standard
  io : Nat := Limit.ioRegisters.standard
  positions : Nat := Limit.positionRegisters.standard
  deriving DecidableEq

/-- Without `simulate` moves are complete at once. -/
structure MotionSettings where
  simulate : Bool := true
  tickMs : Nat := Limit.tickMs.standard
  stepsAtFullSpeed : Nat := Limit.stepsAtFullSpeed.standard
  settleJitterMs : Nat := Limit.settleJitterMs.standard
  deriving DecidableEq

structure ExecutionSettings where
  defaultMode : RunMode := .full
  maxTicks : Nat := Limit.maxTicks.standard
  deriving DecidableEq

inductive LogTarget
  | terminal
  | file
  | full
  deriving DecidableEq, Inhabited

structure LoggingSettings where
  output : LogTarget := .terminal
  level : Severity := .info
  directory : Option String := none
  maxFileKb : Nat := Limit.maxFileKb.standard
  keepFiles : Nat := Limit.keepFiles.standard
  deriving DecidableEq

structure Settings where
  registers : RegisterSettings := {}
  motion : MotionSettings := {}
  execution : ExecutionSettings := {}
  logging : LoggingSettings := {}
  deriving DecidableEq

namespace Settings

/-- Every numeric setting with its limit, in the order in which they are checked. An empty log
directory is looked at right after `max_ticks`. -/
def checkedBeforeDirectory (s : Settings) : List (Limit × Nat) :=
  [(.dataRegisters, s.registers.data), (.ioRegisters, s.registers.io),
    (.positionRegisters, s.registers.positions), (.tickMs, s.motion.tickMs),
    (.stepsAtFullSpeed, s.motion.stepsAtFullSpeed), (.settleJitterMs, s.motion.settleJitterMs),
    (.maxTicks, s.execution.maxTicks)]

def checkedAfterDirectory (s : Settings) : List (Limit × Nat) :=
  [(.maxFileKb, s.logging.maxFileKb), (.keepFiles, s.logging.keepFiles)]

def emptyDirectory (s : Settings) : Bool := s.logging.directory == some ""

/-- Whether every setting lies within its range. -/
def valid (s : Settings) : Bool :=
  (s.checkedBeforeDirectory ++ s.checkedAfterDirectory).all (fun (l, n) => l.admits n) &&
    !s.emptyDirectory

/-- The settings with everything out of range replaced. -/
def settled (s : Settings) : Settings where
  registers := {
    data := Limit.dataRegisters.settle s.registers.data
    io := Limit.ioRegisters.settle s.registers.io
    positions := Limit.positionRegisters.settle s.registers.positions }
  motion := {
    simulate := s.motion.simulate
    tickMs := Limit.tickMs.settle s.motion.tickMs
    stepsAtFullSpeed := Limit.stepsAtFullSpeed.settle s.motion.stepsAtFullSpeed
    settleJitterMs := Limit.settleJitterMs.settle s.motion.settleJitterMs }
  execution := {
    defaultMode := s.execution.defaultMode
    maxTicks := Limit.maxTicks.settle s.execution.maxTicks }
  logging := {
    output := s.logging.output
    level := s.logging.level
    directory := s.logging.directory.filter (· ≠ "")
    maxFileKb := Limit.maxFileKb.settle s.logging.maxFileKb
    keepFiles := Limit.keepFiles.settle s.logging.keepFiles }

/-- What is said about settings out of range. -/
def warnings (s : Settings) : List LogMessage :=
  s.checkedBeforeDirectory.flatMap (fun (l, n) => l.warnings n) ++
    (if s.emptyDirectory then
      [.warn "Invalid log directory: empty path. Using the default location"] else []) ++
    s.checkedAfterDirectory.flatMap (fun (l, n) => l.warnings n)

def validate (s : Settings) : Settings × List LogMessage := (s.settled, s.warnings)

def registerBank (s : Settings) : RegisterBank :=
  .ofSizes s.registers.data s.registers.io s.registers.positions

def rotation (s : Settings) : Rotation := ⟨s.logging.maxFileKb * 1024, s.logging.keepFiles⟩

end Settings

namespace Logger

/-- Points the logger where the settings say. -/
def configure (l : Logger) (s : Settings) (f : Files) : Logger × Files × List Emission :=
  let l := l.setRotation s.rotation
  let (l, f, emissions) := match s.logging.directory with
    | some directory => l.setDirectory directory f
    | none => (l, f, [])
  let (l, f, more) := l.setMode (match s.logging.output with
    | .terminal => .standalone
    | .file => .file
    | .full => .full) f
  (l.setThreshold s.logging.level, f, emissions ++ more)

end Logger

end TeachPendant
