import TeachPendant.Execution

namespace TeachPendant.CommandLine

structure RunOptions where
  program : String := "MAIN"
  device : UInt8 := 0
  /-- Counted from one. -/
  line : Nat := 1
  mode : Option RunMode := none
  instant : Bool := false
  save : Bool := false
  deriving DecidableEq

inductive Command
  | demo (output : String)
  | run (cell : String) (options : RunOptions)
  | inspect (cell : String)
  | exportJson (cell : String) (output : Option String)
  deriving DecidableEq

structure Invocation where
  config : Option String := none
  logDirectory : Option String := none
  command : Command
  deriving DecidableEq

/-- Why there is nothing to run. -/
inductive Refusal
  | help
  | version
  | misuse (detail : String)
  deriving DecidableEq

/-- An option by its long name; some have a letter too. -/
structure Flag where
  name : String
  letter : Option Char := none
  takesValue : Bool := true
  deriving DecidableEq

def versionFlag : Flag := ⟨"version", some 'V', false⟩

/-- Options of every command. -/
def sharedFlags : List Flag := [⟨"config", some 'c', true⟩, ⟨"log-dir", none, true⟩]

def runFlags : List Flag :=
  [⟨"program", some 'p', true⟩, ⟨"device", some 'd', true⟩, ⟨"line", some 'l', true⟩,
    ⟨"mode", some 'm', true⟩, ⟨"instant", none, false⟩, ⟨"save", none, false⟩]

/-- Options by name with their values, and the other arguments. -/
structure Found where
  options : List (String × String) := []
  operands : List String := []
  deriving DecidableEq

namespace Found

def value? (f : Found) (name : String) : Option String := f.options.lookup name

def has (f : Found) (name : String) : Bool := (f.value? name).isSome

def add (f : Found) (name value : String) : Except Refusal Found :=
  if f.has name then
    .error (.misuse ("the argument '--" ++ name ++ "' cannot be used multiple times"))
  else .ok { f with options := f.options ++ [(name, value)] }

end Found

def unexpected (argument : String) : Refusal :=
  .misuse ("unexpected argument '" ++ argument ++ "' found")

def valueNeeded (name : String) : Refusal :=
  .misuse ("a value is required for '--" ++ name ++ "' but none was supplied")

/-- Whether an argument cannot be the value of an option. -/
def looksLikeOption (argument : String) : Bool := argument.startsWith "-" && argument != "-"

/-- What an argument asks for: options with the values they carry, or the value of the next
argument. -/
inductive Reading
  | complete (options : List (String × String))
  | awaiting (options : List (String × String)) (name : String)

/-- A long option, after its dashes. -/
def readLong (flags : List Flag) (body : String) : Except Refusal Reading :=
  let name := String.ofList (body.toList.takeWhile (· != '='))
  let value? := if name.length < body.length then
      some (String.ofList (body.toList.drop (name.length + 1))) else none
  if name = "help" ∧ value? = none then .error .help
  else
    match flags.find? (·.name == name), value? with
    | none, _ => .error (unexpected ("--" ++ name))
    | some flag, none =>
      if flag = versionFlag then .error .version
      else if flag.takesValue then .ok (.awaiting [] name) else .ok (.complete [(name, "")])
    | some flag, some value =>
      if flag.takesValue then .ok (.complete [(name, value)])
      else .error (.misuse ("unexpected value for '--" ++ name ++ "'"))

/-- A run of letters; a value may follow its letter directly or after an equals sign. -/
def readLetters (flags : List Flag) : List Char → Except Refusal Reading
  | [] => .ok (.complete [])
  | c :: rest =>
    if c = 'h' then .error .help
    else
      match flags.find? (·.letter == some c) with
      | none => .error (unexpected (String.ofList ['-', c]))
      | some flag =>
        if flag = versionFlag then .error .version
        else if flag.takesValue then
          match rest with
          | [] => .ok (.awaiting [] flag.name)
          | '=' :: value => .ok (.complete [(flag.name, String.ofList value)])
          | value => .ok (.complete [(flag.name, String.ofList value)])
        else
          match readLetters flags rest with
          | .ok (.complete options) => .ok (.complete ((flag.name, "") :: options))
          | .ok (.awaiting options name) => .ok (.awaiting ((flag.name, "") :: options) name)
          | .error e => .error e

def read (flags : List Flag) (argument : String) : Except Refusal Reading :=
  match argument.toList with
  | '-' :: '-' :: body => readLong flags (String.ofList body)
  | '-' :: letters => readLetters flags letters
  | _ => .error (unexpected argument)

def addAll (f : Found) : List (String × String) → Except Refusal Found
  | [] => .ok f
  | (name, value) :: rest =>
    match f.add name value with
    | .ok f => addAll f rest
    | .error e => .error e

/-- Goes through arguments; `pending` is an option that waits for its value. With `stopping`, the
first other argument ends the search and is given back with what follows it. -/
def scan (flags : List Flag) (stopping : Bool) :
    Option String → Found → List String → Except Refusal (Found × List String)
  | some name, _, [] => .error (valueNeeded name)
  | none, f, [] => .ok (f, [])
  | some name, f, a :: rest =>
    if looksLikeOption a then .error (valueNeeded name)
    else
      match f.add name a with
      | .ok f => scan flags stopping none f rest
      | .error e => .error e
  | none, f, a :: rest =>
    if a = "--" then
      if stopping then .error (unexpected a)
      else .ok ({ f with operands := f.operands ++ rest }, [])
    else if looksLikeOption a then
      match read flags a with
      | .error e => .error e
      | .ok (.complete options) =>
        match addAll f options with
        | .ok f => scan flags stopping none f rest
        | .error e => .error e
      | .ok (.awaiting options name) =>
        match addAll f options with
        | .ok f => scan flags stopping (some name) f rest
        | .error e => .error e
    else if stopping then .ok (f, a :: rest)
    else scan flags stopping none { f with operands := f.operands ++ [a] } rest

/-- A natural number below a bound; a plus sign may stand in front. -/
def number? (bound : Nat) (s : String) : Option Nat :=
  let ds := match s.toList with
    | '+' :: ds => ds
    | ds => ds
  if ds.isEmpty || !ds.all Char.isDigit then none
  else
    let n := ds.foldl (fun v c => v * 10 + (c.toNat - 48)) 0
    if n < bound then some n else none

def mode? (s : String) : Option RunMode :=
  if s = "full" then some .full
  else if s = "step" then some .singleStep
  else if s = "backward" then some .backward
  else none

/-- The value of an option, if it is given. -/
def optional {α : Type} (f : Found) (name : String) (read : String → Option α) :
    Except Refusal (Option α) :=
  match f.value? name with
  | none => .ok none
  | some s =>
    match read s with
    | some x => .ok (some x)
    | none => .error (.misuse ("invalid value '" ++ s ++ "' for '--" ++ name ++ "'"))

/-- A path is never empty. -/
def path? (s : String) : Option String := if s.isEmpty then none else some s

def runOptions (f : Found) : Except Refusal RunOptions := do
  let program ← optional f "program" some
  let device ← optional f "device" fun s => (number? 256 s).map UInt8.ofNat
  let line ← optional f "line" (number? (2 ^ 64))
  let mode ← optional f "mode" mode?
  .ok {
    program := program.getD "MAIN", device := device.getD 0, line := line.getD 1, mode
    instant := f.has "instant", save := f.has "save" }

def missingOperand : Refusal := .misuse "the following required arguments were not provided: <CELL>"

def operandPath (s : String) : Except Refusal String :=
  match path? s with
  | some p => .ok p
  | none => .error (.misuse "a value is required for '<CELL>' but none was supplied")

/-- The one path that most commands take. -/
def onePath (f : Found) : Except Refusal String :=
  match f.operands with
  | [] => .error missingOperand
  | [cell] => operandPath cell
  | _ :: extra :: _ => .error (unexpected extra)

/-- The command of a name. -/
def command (name : String) (args : List String) : Except Refusal (Found × Command) := do
  let flags := if name = "run" then sharedFlags ++ runFlags else sharedFlags
  if name = "help" then .error .help
  else if ["demo", "run", "inspect", "export-json"].contains name then
    let (f, _) ← scan flags false none {} args
    if name = "demo" then
      let output ← onePath f
      .ok (f, .demo output)
    else if name = "run" then
      let cell ← onePath f
      let options ← runOptions f
      .ok (f, .run cell options)
    else if name = "inspect" then
      let cell ← onePath f
      .ok (f, .inspect cell)
    else
      match f.operands with
      | [] => .error missingOperand
      | [cell] => do
        let cell ← operandPath cell
        .ok (f, .exportJson cell none)
      | [cell, output] => do
        let cell ← operandPath cell
        let output ← operandPath output
        .ok (f, .exportJson cell (some output))
      | _ :: _ :: extra :: _ => .error (unexpected extra)
  else .error (.misuse ("unrecognized subcommand '" ++ name ++ "'"))

/-- A whole command line. What is given after the name of the command counts more. -/
def parse (args : List String) : Except Refusal Invocation := do
  let (before, rest) ← scan (versionFlag :: sharedFlags) true none {} args
  match rest with
  | [] => .error (.misuse "a subcommand is required")
  | name :: rest => do
    let (f, command) ← command name rest
    let config ← optional before "config" path?
    let logDirectory ← optional before "log-dir" path?
    let config' ← optional f "config" path?
    let logDirectory' ← optional f "log-dir" path?
    .ok { config := config'.or config, logDirectory := logDirectory'.or logDirectory, command }

end TeachPendant.CommandLine
