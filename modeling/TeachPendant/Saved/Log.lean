import TeachPendant.Log.Message
import TeachPendant.Saved.Basic

namespace TeachPendant

def Severity.toDocument (s : Severity) : Document := .text s.name

def LogMessage.toDocument (m : LogMessage) : Document :=
  .object [
    ("level", m.level.toDocument),
    ("device", .ofOption (fun device => .natural device.toNat) m.device),
    ("msg", .text m.msg)]

namespace Saved

def severity? (form : Form) : Nat → Document → Option Severity :=
  Document.oneOf? form
    ([Severity.fatal, .error, .warn, .info, .debug].map fun s => (s.name, s))

def logMessage? (form : Form) : Nat → Document → Option LogMessage
  | 0, _ => none
  | depth + 1, d =>
    match d.fields? ["level", "device", "msg"] 3 with
    | some [some level, device, some msg] => do
      let level ← severity? form depth level
      let device ← Document.optionalField? Document.byte? device
      let msg ← msg.text?
      some { level, device, msg }
    | _ => none

end Saved

end TeachPendant
