namespace TeachPendant

inductive Severity
  | fatal
  | error
  | warn
  | info
  | debug
  deriving DecidableEq, Inhabited

namespace Severity

/-- Smaller ranks are more severe. -/
def rank : Severity → Nat
  | .fatal => 0
  | .error => 1
  | .warn => 2
  | .info => 3
  | .debug => 4

def name : Severity → String
  | .fatal => "fatal"
  | .error => "error"
  | .warn => "warn"
  | .info => "info"
  | .debug => "debug"

def text : Severity → String
  | .fatal => "[FATAL]"
  | .error => "[ERROR]"
  | .warn => "[WARN]"
  | .info => "[INFO]"
  | .debug => "[DEBUG]"

/-- Whether a message of this severity gets past a threshold. -/
def passes (level threshold : Severity) : Bool := level.rank ≤ threshold.rank

end Severity

/-- A message, tagged with the device it concerns if it concerns one. -/
structure LogMessage where
  level : Severity
  device : Option UInt8 := none
  msg : String
  deriving DecidableEq

namespace LogMessage

def text (m : LogMessage) : String :=
  match m.device with
  | some device => m.level.text ++ " R" ++ toString device ++ " " ++ m.msg
  | none => m.level.text ++ " " ++ m.msg

def error (msg : String) : LogMessage := ⟨.error, none, msg⟩

def warn (msg : String) : LogMessage := ⟨.warn, none, msg⟩

def info (msg : String) : LogMessage := ⟨.info, none, msg⟩

def debug (msg : String) : LogMessage := ⟨.debug, none, msg⟩

end LogMessage

end TeachPendant
