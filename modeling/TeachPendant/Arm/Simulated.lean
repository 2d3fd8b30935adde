import TeachPendant.Arm.Service

namespace TeachPendant

open Number

/-- A move under way: where it started, how many steps it takes and how many are done. -/
structure Travel where
  handle : Nat
  move : Move
  start : Point
  steps : Nat
  done : Nat
  deriving DecidableEq

/-- Time passes by polling: every poll lets the arm go one step. -/
structure SimulatedArm where
  pose : Pose := .origin
  /-- Steps of a move at full speed. -/
  stepsAtFullSpeed : Nat
  lastHandle : Nat := 0
  travel : Option Travel := none
  completed : List Nat := []
  deriving DecidableEq

/-- A count as a number. -/
def countNumber (n : Nat) : Single := .ofNat n

/-- The tool tip after a step. Circular moves go to the via point in the first half. -/
def Travel.pointAt (t : Travel) (step : Nat) : Point :=
  let s := (countNumber step).div (countNumber t.steps)
  let twice := s.mul (countNumber 2)
  match t.move.via with
  | none => t.start.lerp t.move.target s
  | some via =>
    if s.less (.round false 1 2) then t.start.lerp via twice
    else via.lerp t.move.target (twice.sub (countNumber 1))

namespace SimulatedArm

/-- Speeds are held between one percent and all of full speed: 100 percent for joint moves, 2000
mm/s for the others. -/
def speedRatio (m : Move) : Single :=
  let ratio := m.speed.div (match m.kind with
    | .joint => countNumber 100
    | .linear | .circular => countNumber 2000)
  let least : Single := .round false 1 100
  if ratio.less least then least else if (countNumber 1).less ratio then countNumber 1 else ratio

/-- The steps that a move takes, at least one. -/
def stepsFor (a : SimulatedArm) (m : Move) : Nat :=
  max 1 (min (2 ^ 32 - 1) ((countNumber a.stepsAtFullSpeed).div (speedRatio m)).ceilNat)

/-- Lets the arm go one step. A move that has done its steps ends exactly on its target. -/
def advance (a : SimulatedArm) : SimulatedArm :=
  match a.travel with
  | none => a
  | some t =>
    if t.done + 1 < t.steps then
      { a with
        pose := { a.pose with tip := t.pointAt (t.done + 1) }
        travel := some { t with done := t.done + 1 } }
    else
      { a with
        pose := { a.pose with tip := t.move.target }
        travel := none
        completed := t.handle :: a.completed }

/-- A move asked for while another is under way is ignored. -/
def begin (a : SimulatedArm) (m : Move) : SimulatedArm :=
  let handle := a.lastHandle + 1
  match a.travel with
  | some _ => { a with lastHandle := handle }
  | none =>
    { a with
      lastHandle := handle
      travel := some ⟨handle, m, a.pose.tip, a.stepsFor m, 0⟩ }

/-- Completion is reported once. -/
def report (a : SimulatedArm) (handle : Nat) : SimulatedArm × Bool :=
  if a.completed.contains handle then
    ({ a with completed := a.completed.filter (· != handle) }, true)
  else (a, false)

def stop (a : SimulatedArm) (handle : Nat) : SimulatedArm :=
  match a.travel with
  | some t => if t.handle = handle then { a with travel := none } else a
  | none => a

/-- Polls until a handle is reported complete, at most `polls` times. -/
def await (a : SimulatedArm) (handle : Nat) : Nat → SimulatedArm × Bool
  | 0 => (a, false)
  | polls + 1 =>
    let (a, complete) := a.advance.report handle
    if complete then (a, true) else await a handle polls

end SimulatedArm

instance : MotionService SimulatedArm where
  dispatch a m := (a.begin m, a.lastHandle + 1)
  poll a handle := a.advance.report handle
  pose a := a.pose
  cancel a handle := a.stop handle

end TeachPendant
