import TeachPendant.Arm.Instant
import TeachPendant.Arm.Simulated
import TeachPendant.CommandLine.Arguments
import TeachPendant.CommandLine.Demo
import TeachPendant.Settings.File

namespace TeachPendant.CommandLine

open Number

/-- The state of a call: the files, the logger, and what was printed so far. -/
structure Session where
  files : Files
  logger : Logger
  printed : String := ""
  complained : String := ""

/-- Steps that may fail; what was done before a failure stays done. -/
abbrev Doing (α : Type) := ExceptT Failure (StateM Session) α

def fail {α : Type} (e : Failure) : Doing α := throw e

def ofError {α : Type} : Except Error α → Doing α
  | .ok x => pure x
  | .error e => fail ⟨[], e.message⟩

def ofFailure {α : Type} : Except Failure α → Doing α
  | .ok x => pure x
  | .error e => fail e

def print (text : String) : Doing Unit :=
  modify fun s => { s with printed := s.printed ++ text }

def emit (e : Emission) : Doing Unit :=
  match e with
  | .printed line => print (line ++ "\n")
  | .complained line => modify fun s => { s with complained := s.complained ++ line ++ "\n" }
  | .sent _ => pure ()

/-- Changes the logger and passes on what comes out of it. -/
def withLogger (change : Logger → Files → Logger × Files × List Emission) : Doing Unit := do
  let s ← get
  let (logger, files, emissions) := change s.logger s.files
  set { s with logger, files }
  emissions.forM emit

def log (m : LogMessage) : Doing Unit := withLogger fun l f => l.log m f

def logAll (t : Trace) : Doing Unit := t.messages.forM log

def say (text : String) : Doing Unit := log (.info text)

/-- Reads a saved cell. -/
def loadCell (path : String) : Doing Snapshot := do
  match (← get).files.read path with
  | .error fault => fail ⟨[], (Error.storage (.other fault.message)).message⟩
  | .ok content =>
    let (snapshot, trace) ← ofError (Snapshot.ofBytes content.toBytes)
    logAll trace
    pure snapshot

def saveCell (path : String) (snapshot : Snapshot) : Doing Unit := do
  let s ← get
  match s.files.write path (.bytes snapshot.toBytes) with
  | .error fault => fail ⟨[], (Error.storage (.other fault.message)).message⟩
  | .ok files => set { s with files }

/-- An arm that moves at once or step by step. -/
abbrev Arm := InstantArm ⊕ SimulatedArm

def armFor (s : Settings) (instant : Bool) : Arm :=
  if instant || !s.motion.simulate then .inl {}
  else .inr { stepsAtFullSpeed := s.motion.stepsAtFullSpeed }

/-- The line on which a device has paused, with what is said about it. -/
def pausedLine (d : Device Arm) : Option (UInt8 × String) :=
  match d.execution with
  | none => none
  | some x =>
    if x.status = .done .stepped then
      let text := (((d.library.get? x.program.index).bind fun p => p.instruction? x.current).map
        Instruction.text).getD ""
      some (d.id,
        "R" ++ toString d.id ++ " paused on line " ++ toString (x.current + 1) ++ ": " ++ text)
    else none

/-- Runs until no device is busy or paused. A step inside a call pauses the device that was called,
so whichever device has paused is resumed. `pauses` bounds how often. -/
def runOn (limit : Nat) : Nat → Cell Arm → Doing (Cell Arm)
  | 0, c => pure c
  | pauses + 1, c => do
    let (c, _, trace) := c.runUntilIdle limit
    logAll trace
    match c.devices.findSome? pausedLine with
    | none => pure c
    | some (id, text) =>
      say text
      let (c, trace) ← ofError (c.resume id)
      logAll trace
      runOn limit pauses c

/-- More pauses than anyone waits for. -/
def patience : Nat := 2 ^ 63

/-- What is said about a device after a run. -/
def reportDevice (d : Device Arm) : List LogMessage :=
  let about := "R" ++ toString d.id ++ " "
  [match d.status? with
    | some (.fault cause) => .error (about ++ "fault: " ++ cause.message)
    | some status => .info (about ++ status.text)
    | none => .info (about ++ "idle"),
    .info (about ++ "tool tip " ++ (MotionService.pose d.arm).tip.text)]

/-- Registers that are not zero. -/
def reportRegisters (bank : RegisterBank) : List LogMessage :=
  bank.data.zipIdx.filterMap fun (r, i) =>
    if r.value.equal (.zero false) then none
    else some (.info ("R[" ++ toString (i + 1) ++ "] = " ++ r.value.display))

def run (s : Settings) (path : String) (o : RunOptions) : Doing Unit := do
  let snapshot ← loadCell path
  let (c, trace) ← ofError (snapshot.intoCell fun _ => armFor s o.instant)
  logAll trace
  if o.line = 0 then fail ⟨[], "lines are counted from 1"⟩
  let (c, trace) ← ofError
    (c.start o.device o.program (o.mode.getD s.execution.defaultMode) (o.line - 1))
  logAll trace
  let c ← runOn s.execution.maxTicks patience c
  (c.devices.flatMap reportDevice).forM log
  (reportRegisters c.registers).forM log
  if o.save then
    saveCell path (Snapshot.capture c)
    say ("Registers saved to " ++ path)

def padLeft (width : Nat) (text : String) : String :=
  String.ofList (List.replicate (width - text.length) ' ') ++ text

/-- The lines and points of a program. -/
def listing (id : Nat) (p : Program) : List String :=
  ("R" ++ toString id ++ " " ++ p.name ++ " (" ++ toString p.length ++ " lines, " ++
      toString p.positions.count ++ " positions)") ::
    p.lines.zipIdx.map (fun (l, i) =>
      padLeft 4 (toString (i + 1)) ++ ": " ++ l.instruction.text ++ ";") ++
    p.positions.points.map (fun (slot, point) =>
      "  P[" ++ shownNumber slot ++ "] " ++ point.text)

def inspect (snapshot : Snapshot) : Doing Unit :=
  (snapshot.libraries.zipIdx.flatMap fun (l, id) => l.programs.flatMap (listing id)).forM say

def exportJson (path : String) (output : Option String) : Doing Unit := do
  let snapshot ← loadCell path
  match output with
  | none => print (snapshot.toJson ++ "\n")
  | some output =>
    let s ← get
    let files ← ofFailure (Settings.attempt ("Failed to write " ++ output)
      (s.files.write output (.text snapshot.toJson)))
    set { s with files }

/-- The settings file: the one that was named, or the usual one below `home`. -/
def settingsPath (home : String) (named : Option String) : Doing String :=
  match named with
  | some path => pure path
  | none => do
    let directory := Path.join home "pendant"
    let s ← get
    let files ← ofFailure
      (Settings.attempt "Failed to create config directory" (s.files.createDirectory directory))
    set { s with files }
    pure (Path.join directory "config.toml")

def loadSettings (path : String) : Doing Settings := do
  let s ← get
  match s.files |> Settings.loadOrCreate path with
  | .error e => fail (e.within ("Failed to load " ++ path))
  | .ok (settings, files, messages) =>
    set { s with files }
    messages.forM log
    pure settings

def perform (home : String) (i : Invocation) : Doing Unit := do
  let path ← settingsPath home i.config
  let settings ← loadSettings path
  withLogger fun l f => l.configure settings f
  if let some directory := i.logDirectory then
    withLogger fun l f => l.setDirectory directory f
    withLogger fun l f => l.setMode .full f
  if let some path := (← get).logger.path? then
    log (.debug ("Logging to " ++ path))
  match i.command with
  | .demo output =>
    saveCell output (demoCell settings)
    say ("Demo cell written to " ++ output)
  | .run cell options => run settings cell options
  | .inspect cell => do
    let snapshot ← loadCell cell
    inspect snapshot
  | .exportJson cell output => exportJson cell output

/-- The end of a call. -/
structure Outcome where
  code : UInt32
  printed : String
  complained : String
  files : Files

def versionText : String := "pendant 0.1.0\n"

def usage : String := "Usage: pendant_sim [OPTIONS] <COMMAND>"

def helpText : String :=
  "Runs, inspects and exports saved work cells. A cell holds the programs\n" ++
    "of both arms and the registers they share.\n\n" ++ usage ++ "\n"

def refuse (files : Files) : Refusal → Outcome
  | .help => ⟨0, helpText, "", files⟩
  | .version => ⟨0, versionText, "", files⟩
  | .misuse detail =>
    ⟨2, "", "error: " ++ detail ++ "\n\n" ++ usage ++ "\n\nFor more information, try '--help'.\n",
      files⟩

/-- One call of the program with its arguments. `home` is the directory of settings. -/
def call (home : String) (files : Files) (args : List String) : Outcome :=
  match parse args with
  | .error refusal => refuse files refusal
  | .ok invocation =>
    let logger : Logger := { defaultDirectory := Path.join home "pendant/logs" }
    let (result, s) := ((perform home invocation).run { files, logger }).run
    match result with
    | .ok () => ⟨0, s.printed, s.complained, s.files⟩
    | .error e => ⟨1, s.printed, s.complained ++ e.report, s.files⟩

end TeachPendant.CommandLine
