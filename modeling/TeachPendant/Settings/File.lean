import TeachPendant.Document.TomlReader
import TeachPendant.Document.TomlText
import TeachPendant.Saved.Settings

namespace TeachPendant

/-- What was attempted when a file operation failed, the outermost attempt first. -/
structure Failure where
  attempts : List String
  cause : String
  deriving DecidableEq

namespace Failure

def within (attempt : String) (e : Failure) : Failure :=
  { e with attempts := attempt :: e.attempts }

/-- What went wrong last comes last. -/
def chain (e : Failure) : List String := e.attempts ++ [e.cause]

/-- The outermost message. -/
def headline (e : Failure) : String := e.chain.headD ""

/-- Causes are numbered if there are several. -/
def report (e : Failure) : String :=
  let causes := e.chain.drop 1
  let numbered := causes.zipIdx.map fun (cause, i) =>
    "\n    " ++ (if causes.length = 1 then "" else toString i ++ ": ") ++ cause
  "Error: " ++ e.headline ++
    (if causes.isEmpty then "" else "\n\nCaused by:" ++ String.join numbered) ++ "\n"

end Failure

namespace Settings

def text (s : Settings) : String := TomlText.write s.tables

def read? (text : String) : Option Settings :=
  (TomlReader.read? text).bind (Saved.settings? .toml Form.toml.depth)

def isBlank (c : Char) : Bool := c == ' ' || c == '\t' || c == '\n' || c == '\r'

/-- A text without the blanks around it. -/
def trimmed (s : String) : List Char :=
  ((s.toList.dropWhile isBlank).reverse.dropWhile isBlank).reverse

/-- What is the matter with a text that is no settings file. -/
def unreadable : String := "invalid settings"

def attempt {α : Type} (what : String) (r : Except FileFault α) : Except Failure α :=
  match r with
  | .ok x => .ok x
  | .error fault => .error ⟨[what], fault.message⟩

/-- Writes the settings file, with the directories it needs. -/
def save (s : Settings) (path : String) (f : Files) : Except Failure Files := do
  let f ← attempt "Failed to create config directory"
    (f.createDirectoryAt (Path.place path).dropLast)
  attempt "Failed to write config file" (f.write path (.text s.text))

/-- Reads the settings file without touching it. -/
def load (path : String) (f : Files) : Except Failure (Settings × List LogMessage) := do
  let content ← attempt "Failed to read config file" (f.readText path)
  match read? content with
  | some s => .ok s.validate
  | none =>
    .ok ({}, [.error ("Failed to parse config: " ++ unreadable ++ ". Using defaults.")])

/-- The path under which a text that is no settings file is kept. -/
def backupPath (path : String) : String := Path.withExtension path "toml.backup"

/-- Reads the settings file and leaves it complete, valid and in its usual form. A file that is not
there is made; a text that is no settings file is kept under another name. -/
def loadOrCreate (path : String) (f : Files) :
    Except Failure (Settings × Files × List LogMessage) :=
  if path ≠ "" ∧ f.contains (Path.place path) then do
    let content ← attempt "Failed to read config file" (f.readText path)
    match read? content with
    | some s =>
      let (s, messages) := s.validate
      if trimmed content = trimmed s.text then .ok (s, f, messages)
      else
        let f ← s.save path f
        .ok (s, f, messages)
    | none =>
      let f ← attempt "Failed to write backup" (f.write (backupPath path) (.text content))
      let s : Settings := {}
      let f ← s.save path f
      .ok (s, f, [.error ("Config file corrupted: " ++ unreadable ++ ". Backup saved to \"" ++
        backupPath path ++ "\". Using defaults.")])
  else do
    let s : Settings := {}
    let f ← s.save path f
    .ok (s, f, [])

end Settings

end TeachPendant
