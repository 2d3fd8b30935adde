import TeachPendant.Saved.Log
import TeachPendant.Settings.Basic

namespace TeachPendant

def RunMode.name : RunMode → String
  | .full => "full"
  | .singleStep => "single_step"
  | .backward => "backward"

def LogTarget.name : LogTarget → String
  | .terminal => "terminal"
  | .file => "file"
  | .full => "full"

namespace Settings

/-- The tables of the settings with their fields. -/
def tables (s : Settings) : List (String × List (String × Document)) :=
  [("registers", [
      ("data", .natural s.registers.data), ("io", .natural s.registers.io),
      ("positions", .natural s.registers.positions)]),
    ("motion", [
      ("simulate", .bool s.motion.simulate), ("tick_ms", .natural s.motion.tickMs),
      ("steps_at_full_speed", .natural s.motion.stepsAtFullSpeed),
      ("settle_jitter_ms", .natural s.motion.settleJitterMs)]),
    ("execution", [
      ("default_mode", .text s.execution.defaultMode.name),
      ("max_ticks", .natural s.execution.maxTicks)]),
    ("logging",
      [("output", .text s.logging.output.name), ("level", s.logging.level.toDocument)] ++
        (match s.logging.directory with
          | some directory => [("directory", .text directory)]
          | none => []) ++
        [("max_file_kb", .natural s.logging.maxFileKb),
          ("keep_files", .natural s.logging.keepFiles)])]

def toDocument (s : Settings) : Document :=
  .object (s.tables.map fun (name, fields) => (name, .object fields))

end Settings

namespace Saved

def runMode? (form : Form) : Nat → Document → Option RunMode :=
  Document.oneOf? form
    ([RunMode.full, .singleStep, .backward].map fun m => (m.name, m))

def logTarget? (form : Form) : Nat → Document → Option LogTarget :=
  Document.oneOf? form
    ([LogTarget.terminal, .file, .full].map fun t => (t.name, t))

/-- A number that has a default. -/
def count? (bound standard : Nat) : Option Document → Option Nat :=
  Document.fieldOr? (Document.natural? bound) standard

def registerSettings? (form : Form) : Nat → Document → Option RegisterSettings
  | 0, _ => none
  | _ + 1, d =>
    match d.looseFields? form ["data", "io", "positions"] with
    | some [data, io, positions] => do
      let data ← count? (2 ^ 64) Limit.dataRegisters.standard data
      let io ← count? (2 ^ 64) Limit.ioRegisters.standard io
      let positions ← count? (2 ^ 64) Limit.positionRegisters.standard positions
      some { data, io, positions }
    | _ => none

def motionSettings? (form : Form) : Nat → Document → Option MotionSettings
  | 0, _ => none
  | _ + 1, d =>
    match d.looseFields? form
      ["simulate", "tick_ms", "steps_at_full_speed", "settle_jitter_ms"] with
    | some [simulate, tick, steps, jitter] => do
      let simulate ← Document.fieldOr? Document.bool? true simulate
      let tickMs ← count? (2 ^ 64) Limit.tickMs.standard tick
      let stepsAtFullSpeed ← count? (2 ^ 32) Limit.stepsAtFullSpeed.standard steps
      let settleJitterMs ← count? (2 ^ 64) Limit.settleJitterMs.standard jitter
      some { simulate, tickMs, stepsAtFullSpeed, settleJitterMs }
    | _ => none

def executionSettings? (form : Form) : Nat → Document → Option ExecutionSettings
  | 0, _ => none
  | depth + 1, d =>
    match d.looseFields? form ["default_mode", "max_ticks"] with
    | some [mode, ticks] => do
      let defaultMode ← Document.fieldOr? (runMode? form depth) .full mode
      let maxTicks ← count? (2 ^ 64) Limit.maxTicks.standard ticks
      some { defaultMode, maxTicks }
    | _ => none

def loggingSettings? (form : Form) : Nat → Document → Option LoggingSettings
  | 0, _ => none
  | depth + 1, d =>
    match d.looseFields? form ["output", "level", "directory", "max_file_kb", "keep_files"] with
    | some [output, level, directory, size, keep] => do
      let output ← Document.fieldOr? (logTarget? form depth) .terminal output
      let level ← Document.fieldOr? (severity? form depth) .info level
      let directory ← Document.optionalField? Document.text? directory
      let maxFileKb ← count? (2 ^ 64) Limit.maxFileKb.standard size
      let keepFiles ← count? (2 ^ 64) Limit.keepFiles.standard keep
      some { output, level, directory, maxFileKb, keepFiles }
    | _ => none

def settings? (form : Form) : Nat → Document → Option Settings
  | 0, _ => none
  | depth + 1, d =>
    match d.looseFields? form ["registers", "motion", "execution", "logging"] with
    | some [registers, motion, execution, logging] => do
      let registers ← Document.fieldOr? (registerSettings? form depth) {} registers
      let motion ← Document.fieldOr? (motionSettings? form depth) {} motion
      let execution ← Document.fieldOr? (executionSettings? form depth) {} execution
      let logging ← Document.fieldOr? (loggingSettings? form depth) {} logging
      some { registers, motion, execution, logging }
    | _ => none

end Saved

end TeachPendant
