import TeachPendant.Number.Format

namespace TeachPendant

/-- Why a cell could not be saved or loaded. -/
inductive StorageFault
  | unsupportedVersion (found : Nat)
  | tooManyDevices (count : Nat)
  | other (reason : String)
  deriving DecidableEq, Inhabited

inductive Error
  | malformed (detail : String)
  | incompatible (detail : String)
  | unsupportedOperator (op capability : String)
  | divisionByZero
  | unresolvedLabel (number : UInt32)
  | unresolvedCall (program : String) (device : UInt8)
  | outOfRange (what : String) (index : Int) (len : Nat)
  | full (what : String)
  | sequenceTooShort
  | mismatch (detail : String)
  | callFailed (device : UInt8) (reason : String)
  | duplicateName (name : String)
  | busy (device : UInt8)
  | storage (fault : StorageFault)
  deriving DecidableEq, Inhabited

/-- The only saved format that loads. -/
def formatVersion : Nat := 1

/-- Arms in a cell. -/
def deviceCount : Nat := 2

def StorageFault.reason : StorageFault → String
  | .unsupportedVersion found =>
    s!"format version {found} is not supported (expected {formatVersion})"
  | .tooManyDevices count => s!"{count} devices saved, a cell has {deviceCount}"
  | .other reason => reason

namespace Error

/-- An index past the end of something; indices are reported within 63 bits. -/
def outside (what : String) (index len : Nat) : Error :=
  .outOfRange what (min index (2 ^ 63 - 1)) len

def message : Error → String
  | .malformed detail => s!"malformed token sequence: {detail}"
  | .incompatible detail => s!"incompatible operands: {detail}"
  | .unsupportedOperator op capability => s!"unsupported operator {op} for {capability} operands"
  | .divisionByZero => "integer division by zero"
  | .unresolvedLabel number => s!"unresolved label LBL[{number}]"
  | .unresolvedCall program device => s!"unresolved call to {program} on device {device}"
  | .outOfRange what index len => s!"{what} index {index} out of range (len {len})"
  | .full what => s!"{what} is full"
  | .sequenceTooShort => "a token sequence keeps at least one element"
  | .mismatch detail => s!"type mismatch: {detail}"
  | .callFailed device reason => s!"call on device {device} failed: {reason}"
  | .duplicateName name => s!"a program named {name} already exists"
  | .busy device => s!"device {device} is busy"
  | .storage fault => s!"persistence error: {fault.reason}"

/-- Only a transfer of control that goes nowhere stops a run. -/
def isFatal : Error → Bool
  | .unresolvedLabel _ | .unresolvedCall _ _ | .callFailed _ _ | .busy _ => true
  | _ => false

end Error

instance : ToString Error := ⟨Error.message⟩

end TeachPendant
