import TeachPendant.Files
import TeachPendant.Log.Message

namespace TeachPendant

/-- When the live file is archived, and how many archives are kept. -/
structure Rotation where
  maxBytes : Nat := 1024 * 1024
  keep : Nat := 5
  deriving DecidableEq

namespace LogFile

def liveName : String := "pendant.log"

def archiveName (generation : Nat) : String := liveName ++ "." ++ toString generation

def live (directory : Place) : Place := directory ++ [liveName]

def archive (directory : Place) (generation : Nat) : Place := directory ++ [archiveName generation]

/-- Moves the archives of the generations up to `n` one up, the oldest first. -/
def shift (directory : Place) : Nat → Files → Files
  | 0, f => f
  | n + 1, f => shift directory n (f.move (archive directory (n + 1)) (archive directory (n + 2)))

/-- Makes room for a new live file. -/
def rotate (directory : Place) (keep : Nat) (f : Files) : Files :=
  match keep with
  | 0 => f.remove (live directory)
  | n + 1 =>
    (shift directory n (f.remove (archive directory (n + 1)))).move (live directory)
      (archive directory 1)

end LogFile

/-- Writes the log of a directory. While the live file is open its length is counted along in
`written`. -/
structure LogWriter where
  directory : String
  rotation : Rotation
  isOpen : Bool := false
  written : Nat := 0
  deriving DecidableEq

namespace LogWriter

/-- A writer for a directory, which is created if need be. -/
def create (f : Files) (directory : String) (rotation : Rotation) :
    Except FileFault (LogWriter × Files) :=
  match f.createDirectory directory with
  | .ok f => .ok ({ directory, rotation }, f)
  | .error fault => .error fault

def path (w : LogWriter) : String := Path.join w.directory LogFile.liveName

def place (w : LogWriter) : Place := Path.place w.directory

/-- The live file, made empty if there is none. -/
def opened (w : LogWriter) (f : Files) : Except FileFault (LogWriter × Files × Content) :=
  let live := LogFile.live w.place
  match f.readAt live with
  | .ok content =>
    .ok ({ w with isOpen := true, written := if w.isOpen then w.written else content.size }, f,
      content)
  | .error .missing =>
    (f.writeAt live (.text "")).map fun f => ({ w with isOpen := true, written := 0 }, f, .text "")
  | .error fault => .error fault

def rotate (w : LogWriter) (f : Files) : LogWriter × Files :=
  ({ w with isOpen := false, written := 0 }, LogFile.rotate w.place w.rotation.keep f)

def append (w : LogWriter) (f : Files) (content : Content) (line : String) : LogWriter × Files :=
  ({ w with written := w.written + line.utf8ByteSize },
    f.put (LogFile.live w.place) (.file (content.append line)))

/-- The line of a message. -/
def lineOf (m : LogMessage) : String := m.text ++ "\n"

/-- Appends a message. A file that holds something is archived first if it would outgrow its
limit. -/
def write (w : LogWriter) (f : Files) (m : LogMessage) : Except FileFault (LogWriter × Files) :=
  let line := lineOf m
  match w.opened f with
  | .error fault => .error fault
  | .ok (w, f, content) =>
    if 0 < w.written ∧ w.rotation.maxBytes < w.written + line.utf8ByteSize then
      let (w, f) := w.rotate f
      match w.opened f with
      | .error fault => .error fault
      | .ok (w, f, content) => .ok (w.append f content line)
    else .ok (w.append f content line)

end LogWriter

end TeachPendant
