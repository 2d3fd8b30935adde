import TeachPendant.Cell
import TeachPendant.Document.JsonReader
import TeachPendant.Document.JsonText
import TeachPendant.Document.MessagePack
import TeachPendant.Document.Frame
import TeachPendant.Saved.Program
import TeachPendant.Saved.Registers

namespace TeachPendant

structure Snapshot where
  version : Nat := formatVersion
  registers : RegisterBank
  libraries : List Library

namespace Snapshot

def capture {σ : Type} (c : Cell σ) : Snapshot where
  registers := c.registers
  libraries := c.devices.map (·.library)

def toDocument (s : Snapshot) : Document :=
  .object [
    ("format_version", .natural s.version),
    ("registers", s.registers.toDocument),
    ("devices", .list (s.libraries.map Library.toDocument))]

def ofDocument? (form : Form) : Nat → Document → Option Snapshot
  | 0, _ => none
  | depth + 1, d =>
    match d.fields? ["format_version", "registers", "devices"] 3 with
    | some [some version, some registers, some libraries] => do
      let version ← version.natural? (2 ^ 32)
      let registers ← Saved.registerBank? depth registers
      let libraries ← Document.listOf? (Saved.library? form) depth libraries
      some { version, registers, libraries }
    | _ => none

def link (s : Snapshot) : Snapshot × List Error :=
  let (libraries, errors) := linkCalls s.libraries
  ({ s with libraries }, errors)

def renumber (s : Snapshot) : Snapshot :=
  { s with libraries := s.libraries.map fun l => ⟨l.programs.map Program.renumber⟩ }

/-- The rest of loading once a snapshot has been read. -/
def finish (s : Snapshot) : Except Error (Snapshot × Trace) :=
  if s.version ≠ formatVersion then .error (.storage (.unsupportedVersion s.version))
  else
    let (s, errors) := s.renumber.link
    .ok (s, Cell.warnings errors)

def unreadable : Error := .storage (.other "not a saved cell")

def toJson (s : Snapshot) : String := JsonText.pretty s.toDocument

def ofJson (text : String) : Except Error (Snapshot × Trace) :=
  match (JsonReader.read? text).bind (ofDocument? .json Form.json.depth) with
  | some s => s.finish
  | none => .error unreadable

def toMessagePack (s : Snapshot) : List UInt8 := MessagePack.write s.toDocument

/-- No content at all has its own wording. -/
def ofMessagePack (bytes : List UInt8) : Except Error (Snapshot × Trace) :=
  if bytes.isEmpty then
    .error (.storage (.other "IO error while reading marker: failed to fill whole buffer"))
  else match (MessagePack.read? bytes).bind (ofDocument? .messagePack Form.messagePack.depth) with
  | some s => s.finish
  | none => .error unreadable

/-- The contents of a saved file. -/
def toBytes (s : Snapshot) : List UInt8 := Frame.store s.toMessagePack

def ofBytes (bytes : List UInt8) : Except Error (Snapshot × Trace) :=
  match Frame.contents bytes with
  | .ok content => ofMessagePack content
  | .error fault => .error (.storage (.other fault.reason))

/-- A live cell. Devices that were not saved get an empty library. -/
def intoCell {σ : Type} (s : Snapshot) (arm : Side → σ) : Except Error (Cell σ × Trace) :=
  if deviceCount < s.libraries.length then .error (.storage (.tooManyDevices s.libraries.length))
  else .ok (Cell.build s.registers (s.libraries.getD 0 {}) (s.libraries.getD 1 {}) arm)

end Snapshot

end TeachPendant
