import TeachPendant.Arm.Service

namespace TeachPendant

structure InstantArm where
  pose : Pose := .origin
  lastHandle : Nat := 0
  deriving DecidableEq, Inhabited

instance : MotionService InstantArm where
  dispatch a m :=
    (⟨{ a.pose with tip := m.target }, a.lastHandle + 1⟩, a.lastHandle + 1)
  poll a _ := (a, true)
  pose a := a.pose
  cancel a _ := a

end TeachPendant
