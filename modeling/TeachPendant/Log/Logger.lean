import TeachPendant.Log.Writer

namespace TeachPendant

inductive LogMode
  /-- To the terminal. -/
  | standalone
  /-- To the program that embeds the engine. -/
  | embedded
  | file
  /-- To the file and the terminal. -/
  | full
  deriving DecidableEq, Inhabited

/-- What leaves the logger besides what it writes to files. -/
inductive Emission
  | printed (line : String)
  | complained (line : String)
  | sent (m : LogMessage)
  deriving DecidableEq

structure Logger where
  mode : LogMode := .standalone
  threshold : Severity := .info
  rotation : Rotation := {}
  writer : Option LogWriter := none
  /-- Where the log goes if no directory is given. -/
  defaultDirectory : String
  deriving DecidableEq

namespace Logger

/-- Opens a log directory; a directory that cannot be made leaves no writer. -/
def setDirectory (l : Logger) (directory : String) (f : Files) : Logger × Files × List Emission :=
  match LogWriter.create f directory l.rotation with
  | .ok (w, f) => ({ l with writer := some w }, f, [])
  | .error fault =>
    ({ l with writer := none }, f,
      [.complained ("Failed to create log file writer: " ++ fault.message)])

/-- Modes that write a file open the default directory if none is open. -/
def setMode (l : Logger) (mode : LogMode) (f : Files) : Logger × Files × List Emission :=
  if (mode = .file ∨ mode = .full) ∧ l.writer = none then
    let (l, f, emissions) := l.setDirectory l.defaultDirectory f
    ({ l with mode }, f, emissions)
  else ({ l with mode }, f, [])

def setThreshold (l : Logger) (threshold : Severity) : Logger := { l with threshold }

def setRotation (l : Logger) (rotation : Rotation) : Logger :=
  { l with rotation, writer := l.writer.map fun w => { w with rotation } }

def path? (l : Logger) : Option String := l.writer.map (·.path)

/-- Errors go where diagnostics go. -/
def terminal (m : LogMessage) : Emission :=
  match m.level with
  | .fatal | .error => .complained m.text
  | _ => .printed m.text

def toFile (l : Logger) (m : LogMessage) (f : Files) : Logger × Files × List Emission :=
  match l.writer with
  | none => (l, f, [])
  | some w =>
    match w.write f m with
    | .ok (w, f) => ({ l with writer := some w }, f, [])
    | .error fault => (l, f, [.complained ("Failed to write to log file: " ++ fault.message)])

/-- Messages less severe than the threshold are dropped. -/
def log (l : Logger) (m : LogMessage) (f : Files) : Logger × Files × List Emission :=
  if m.level.passes l.threshold then
    match l.mode with
    | .standalone => (l, f, [terminal m])
    | .embedded => (l, f, [.sent m])
    | .file => l.toFile m f
    | .full =>
      let (l, f, emissions) := l.toFile m f
      (l, f, emissions ++ [terminal m])
  else (l, f, [])

end Logger

end TeachPendant
