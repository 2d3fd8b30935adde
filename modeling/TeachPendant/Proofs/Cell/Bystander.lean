import TeachPendant.Proofs.Cell.Turn

namespace TeachPendant

/-- Of no concern to a device that does not wait for a call. -/
def DeviceEvent.Quiet : DeviceEvent → Prop
  | .crossCall _ _ | .returned _ => False
  | .idle | .busy | .callFailed _ _ => True

namespace Device

variable {σ : Type} {d : Device σ}

theorem not_running_of_not_busy (h : d.isBusy = false) : d.status? ≠ some .running := by
  intro hs
  obtain ⟨x, hx, hxs⟩ := Option.map_eq_some_iff.mp hs
  cases (hxs ▸ terminal_of_not_busy h hx : Status.running.isTerminal = true)

theorem isBusy_fail (d : Device σ) (cause : Error) : (d.fail cause).1.isBusy = false := by
  rw [isBusy, isActive, status?_fail, returnStack_fail]
  cases d.status? <;> rfl

@[simp] theorem frames_fail (d : Device σ) (cause : Error) :
    (d.fail cause).1.frames = d.frames := by
  rw [fail, dropCallChain_eq]

variable [MotionService σ]

/-- What the turn of a free device comes to. -/
structure Idles (d : Device σ) (registers : RegisterBank) (t : TickResult σ) : Prop where
  quiet : t.event.Quiet
  free : t.device.isBusy = false
  registers : t.registers = registers
  frames : t.device.frames = d.frames
  moves : t.trace.moves = []

theorem idles_of_not_busy (h : d.isBusy = false) (registers : RegisterBank) :
    d.Idles registers (d.tick registers) := by
  have ht := d.ticked registers
  generalize d.tick registers = t at ht ⊢
  have live {x : Execution} (hx : d.execution = some x) (hs : x.status.isTerminal = false) :
      False := by
    cases hs.symm.trans (terminal_of_not_busy h hx)
  have hstack := returnStack_of_not_busy h
  cases ht with
  | reported => exact ⟨trivial, h, rfl, rfl, rfl⟩
  | unstarted | stopped => exact ⟨trivial, h, rfl, rfl, rfl⟩
  | lost => exact ⟨trivial, isBusy_fail _ _, rfl, frames_fail _ _, rfl⟩
  | faulted _ hx _ hs | advanced _ hx _ hs | calledOver _ hx _ hs | calledHere _ hx _ hs
  | refused _ hx _ hs => exact (live hx (by rw [hs]; rfl)).elim
  | polled _ hx _ hs | waiting _ hx _ hs => exact (live hx (by rw [hs]; rfl)).elim
  | returnedOver _ _ _ _ hr | returnLost _ _ _ _ hr | returnedHere _ _ _ _ hr =>
    cases hr.symm.trans hstack

end Device

namespace Cell

variable {σ : Type} [MotionService σ] {c : Cell σ} {s : Side}

/-- A quiet turn next to a device that does not wait for a call. -/
theorem Sound.tickSide_of_quiet (hc : c.Sound)
    (hw : (c.get s.other).status? ≠ some .awaitingCall)
    (he : ((c.get s).tick c.registers).event.Quiet) :
    (c.tickSide s).1 = { c.put s ((c.get s).tick c.registers).device with
      registers := ((c.get s).tick c.registers).registers } ∧
    (c.tickSide s).2.2 = ((c.get s).tick c.registers).trace := by
  have ha := Device.answers_tick (hc s) c.registers
  simp only [tickSide]
  generalize (c.get s).tick c.registers = t at ha he ⊢
  obtain ⟨d, registers, event, trace⟩ := t
  cases event with
  | idle | busy => exact ⟨rfl, List.append_nil _⟩
  | crossCall | returned => cases he
  | callFailed caller reason =>
    obtain rfl : caller = s.other.id := (hc s).report caller reason ha.1
    simp [route, routeFailure, hw]

end Cell

end TeachPendant
