import TeachPendant.Registers

namespace TeachPendant

/-- The tool and user frames selected on an arm. -/
structure Frames where
  tool : UInt64 := 0
  user : UInt64 := 0
  deriving DecidableEq, Inhabited

structure Context where
  registers : RegisterBank
  frames : Frames
  pose : Pose
  device : UInt8
  deriving DecidableEq

end TeachPendant
