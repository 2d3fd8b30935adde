import TeachPendant.Error
import TeachPendant.Saved.Basic

namespace TeachPendant.Error

/-- The name under which a cause is saved. -/
def name : Error → String
  | .malformed _ => "MalformedSequence"
  | .incompatible _ => "IncompatibleOperands"
  | .unsupportedOperator _ _ => "UnsupportedOperator"
  | .divisionByZero => "DivisionByZero"
  | .unresolvedLabel _ => "UnresolvedLabel"
  | .unresolvedCall _ _ => "UnresolvedCall"
  | .outOfRange _ _ _ => "IndexOutOfRange"
  | .full _ => "CapacityExceeded"
  | .sequenceTooShort => "SequenceTooShort"
  | .mismatch _ => "TypeMismatch"
  | .callFailed _ _ => "CallFailed"
  | .duplicateName _ => "DuplicateName"
  | .busy _ => "DeviceBusy"
  | .storage _ => "Persistence"

/-- What is saved besides the name. -/
def details? : Error → Option Document
  | .divisionByZero | .sequenceTooShort => none
  | .malformed text | .incompatible text | .full text | .mismatch text | .duplicateName text =>
    some (.text text)
  | .unsupportedOperator op capability =>
    some (.object [("op", .text op), ("capability", .text capability)])
  | .unresolvedLabel number => some (.natural number.toNat)
  | .unresolvedCall program device =>
    some (.object [("program", .text program), ("device", .natural device.toNat)])
  | .outOfRange what index len =>
    some (.object [("what", .text what), ("index", .integer index), ("len", .natural len)])
  | .callFailed device reason =>
    some (.object [("device", .natural device.toNat), ("reason", .text reason)])
  | .busy device => some (.natural device.toNat)
  | .storage fault => some (.text fault.reason)

def toDocument (e : Error) : Document :=
  match e.details? with
  | some details => .tagged e.name details
  | none => .text e.name

end TeachPendant.Error
