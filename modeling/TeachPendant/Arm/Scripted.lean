import TeachPendant.Arm.Service

namespace TeachPendant

/-- When a move is complete: once its handle is listed, or after a number of fruitless polls. -/
inductive Script
  | listed (handles : List Nat)
  | afterPolls (count : Nat)
  deriving DecidableEq, Inhabited

structure ScriptedArm where
  pose : Pose := .origin
  script : Script
  lastHandle : Nat := 0
  /-- Targets by handle, the latest first. -/
  targets : List (Nat × Point) := []
  /-- Handles of fruitless polls. -/
  waited : List Nat := []
  deriving DecidableEq, Inhabited

namespace ScriptedArm

def isComplete (a : ScriptedArm) (handle : Nat) : Bool :=
  match a.script with
  | .listed handles => handles.contains handle
  | .afterPolls count => count ≤ a.waited.count handle

/-- Lists a handle as complete. -/
def finish (a : ScriptedArm) (handle : Nat) : ScriptedArm :=
  match a.script with
  | .listed handles => { a with script := .listed (handle :: handles) }
  | .afterPolls _ => a

end ScriptedArm

instance : MotionService ScriptedArm where
  dispatch a m :=
    let handle := a.lastHandle + 1
    ({ a with lastHandle := handle, targets := (handle, m.target) :: a.targets }, handle)
  poll a handle :=
    if a.isComplete handle then
      match a.targets.lookup handle with
      | some target => ({ a with pose := { a.pose with tip := target } }, true)
      | none => (a, true)
    else ({ a with waited := handle :: a.waited }, false)
  pose a := a.pose
  cancel a _ := a

end TeachPendant
