import TeachPendant.Log.Message
import TeachPendant.Motion

namespace TeachPendant

inductive Event
  | logged (m : LogMessage)
  | dispatched (device : UInt8) (handle : Nat) (m : Move)
  | polled (device : UInt8) (handle : Nat) (complete : Bool)
  | cancelled (device : UInt8) (handle : Nat)
  deriving DecidableEq

/-- Events in the order in which they happen. -/
abbrev Trace := List Event

namespace Event

def message? : Event → Option LogMessage
  | .logged m => some m
  | _ => none

def isMotion : Event → Bool
  | .dispatched _ _ _ | .cancelled _ _ => true
  | _ => false

def device? : Event → Option UInt8
  | .logged m => m.device
  | .dispatched device _ _ => some device
  | .polled device _ _ => some device
  | .cancelled device _ => some device

end Event

namespace Trace

def messages (t : Trace) : List LogMessage := t.filterMap (·.message?)

/-- The moves asked for, in order. -/
def moves (t : Trace) : List Move :=
  t.filterMap fun
    | .dispatched _ _ m => some m
    | _ => none

end Trace

end TeachPendant
