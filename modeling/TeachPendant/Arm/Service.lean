import TeachPendant.Motion

namespace TeachPendant

/-- Running a motion line hands a move to the arm; the handle it was given is then polled until the
arm reports the move complete. -/
class MotionService (σ : Type) where
  /-- Starts a move and gives its handle at once. -/
  dispatch : σ → Move → σ × Nat
  poll : σ → Nat → σ × Bool
  pose : σ → Pose
  /-- Abandons a move; the arm stays wherever it stopped. -/
  cancel : σ → Nat → σ

/-- An arm of either sort. -/
instance {σ τ : Type} [MotionService σ] [MotionService τ] : MotionService (σ ⊕ τ) where
  dispatch
    | .inl a, m => let (a, handle) := MotionService.dispatch a m; (.inl a, handle)
    | .inr a, m => let (a, handle) := MotionService.dispatch a m; (.inr a, handle)
  poll
    | .inl a, handle => let (a, complete) := MotionService.poll a handle; (.inl a, complete)
    | .inr a, handle => let (a, complete) := MotionService.poll a handle; (.inr a, complete)
  pose
    | .inl a => MotionService.pose a
    | .inr a => MotionService.pose a
  cancel
    | .inl a, handle => .inl (MotionService.cancel a handle)
    | .inr a, handle => .inr (MotionService.cancel a handle)

end TeachPendant
