import TeachPendant.Context
import TeachPendant.Expression.Text
import TeachPendant.Positions

namespace TeachPendant

open Number

inductive MoveKind
  | joint
  | linear
  | circular
  deriving DecidableEq, Inhabited

def MoveKind.letter : MoveKind → String
  | .joint => "J"
  | .linear => "L"
  | .circular => "C"

/-- A point taught into the program, or a position register. -/
inductive PositionRef
  | taught (slot : UInt64)
  | register (index : UInt64)
  deriving DecidableEq, Inhabited

namespace PositionRef

def resolve (c : Context) (table : PositionTable) : PositionRef → Except Error Point
  | .taught slot =>
    match table.get? slot with
    | some point => .ok point
    | none => .error (.outside "taught position" slot.toNat table.count)
  | .register index => c.registers.getPosition index

def text : PositionRef → String
  | .taught slot => "P[" ++ shownNumber slot ++ "]"
  | .register index => "PR[" ++ shownNumber index ++ "]"

end PositionRef

/-- `speed` is in percent for joint moves and in mm/s otherwise; `termination` is 0 for an exact
stop and up to 100 percent of corner rounding. -/
structure Motion where
  kind : MoveKind
  target : PositionRef
  speed : Single
  termination : UInt8 := 0
  toolFrame : UInt64 := 0
  userFrame : UInt64 := 0
  offset : Option PositionRef := none
  via : Option PositionRef := none
  deriving DecidableEq

/-- What an arm is asked to do. -/
structure Move where
  device : UInt8
  kind : MoveKind
  target : Point
  via : Option Point
  speed : Single
  termination : UInt8
  toolFrame : UInt64
  userFrame : UInt64
  deriving DecidableEq

namespace Motion

def withTermination (m : Motion) (termination : UInt8) : Motion :=
  { m with termination := min termination 100 }

/-- The target moved by the offset, if there is one. -/
def resolveTarget (c : Context) (table : PositionTable) (m : Motion) : Except Error Point := do
  let point ← m.target.resolve c table
  match m.offset with
  | none => .ok point
  | some offset => do
    let shift ← offset.resolve c table
    .ok (point.offsetBy shift)

/-- Only circular moves have a via point, and they need one. -/
def resolveVia (c : Context) (table : PositionTable) (m : Motion) : Except Error (Option Point) :=
  match m.kind, m.via with
  | .circular, some via => (via.resolve c table).map some
  | .circular, none => .error (.mismatch "circular motion without a via point")
  | _, _ => .ok none

def move (c : Context) (table : PositionTable) (m : Motion) : Except Error Move := do
  let target ← m.resolveTarget c table
  let via ← m.resolveVia c table
  .ok {
    device := c.device, kind := m.kind, target := target, via := via, speed := m.speed
    termination := m.termination, toolFrame := m.toolFrame, userFrame := m.userFrame }

def speedText (m : Motion) : String :=
  match m.kind with
  | .joint => m.speed.display ++ "%"
  | _ => m.speed.display ++ "mm/sec"

def text (m : Motion) : String :=
  m.kind.letter ++ " " ++
    (match m.via with
      | some via => via.text ++ " "
      | none => "") ++
    m.target.text ++ " " ++ m.speedText ++
    (if m.termination = 0 then " FINE" else " CNT" ++ toString m.termination) ++
    (match m.offset with
      | some offset => " Offset," ++ offset.text
      | none => "")

end Motion

end TeachPendant
