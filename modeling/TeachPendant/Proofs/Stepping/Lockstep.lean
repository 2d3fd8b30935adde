import TeachPendant.Proofs.Stepping.Pace
import TeachPendant.Proofs.Stepping.Solo

namespace TeachPendant

namespace Device

variable {σ : Type}

@[simp] theorem status_paced_false (d : Device σ) : (d.paced false).status? = d.status? := by
  cases hx : d.execution <;> simp [status?, paced, hx]

theorem status_paced_true {d : Device σ} (hs : d.status? = some .running) :
    (d.paced true).status? = some (.done .stepped) := by
  obtain ⟨x, hx, hxs⟩ := Option.map_eq_some_iff.mp hs
  simp [status?, paced, hx, Execution.paced, hxs]

theorem resting_paced_false (d : Device σ) : (d.paced false).resting = d.resting := by
  cases hx : d.execution <;> simp [resting, paced, hx]

theorem resting_paced {d : Device σ} (h : d.resting) (b : Bool) : (d.paced b).resting := by
  rw [paced_of_not_running (status_of_resting h) b false, resting_paced_false]
  exact h

/-- A device that is held does nothing. -/
theorem resting_held {d : Device σ} {l : Library} (h : d.Plain l) (hs : d.status? = some .running) :
    (d.paced true).resting := by
  obtain ⟨x, hx, hxs⟩ := Option.map_eq_some_iff.mp hs
  refine (resting_iff _).mpr ⟨h.quiet_of_running hs, fun y hy => ?_⟩
  have he : x.paced true = y := by simpa [paced, hx] using hy
  subst he
  refine ⟨(h.run x hx).2, Or.inr ?_⟩
  simp [Execution.paced, hxs, Status.isTerminal]

theorem resumeAfterCall_of_resting {d : Device σ} (h : d.Full) (hr : d.resting) :
    (d.paced false).resumeAfterCall = d.resumeAfterCall.paced true := by
  by_cases hs : d.status? = some .awaitingCall
  · exact resumeAfterCall_paced h hs
  · rw [resumeAfterCall_of_not_waiting hs, resumeAfterCall_of_not_waiting (by simpa using hs)]
    exact paced_of_not_running (status_of_resting hr) false true

end Device

namespace Cell

variable {σ : Type}

def paced (b : Bool) (c : Cell σ) : Cell σ where
  registers := c.registers
  first := c.first.paced b
  second := c.second.paced b

@[simp] theorem get_paced (b : Bool) (c : Cell σ) (s : Side) :
    (c.paced b).get s = (c.get s).paced b := by
  cases s <;> rfl

@[simp] theorem registers_paced (b : Bool) (c : Cell σ) : (c.paced b).registers = c.registers := rfl

theorem put_paced (c : Cell σ) (s : Side) (d : Device σ) (b : Bool) :
    (c.paced b).put s (d.paced b) = (c.put s d).paced b := by
  cases s <;> rfl

theorem paced_of_not_running {c : Cell σ} (h : ∀ s, (c.get s).status? ≠ some .running)
    (b b' : Bool) : c.paced b = c.paced b' := by
  have hfirst : c.first.paced b = c.first.paced b' := Device.paced_of_not_running (h .first) b b'
  have hsecond : c.second.paced b = c.second.paced b' := Device.paced_of_not_running (h .second) b b'
  simp only [paced, hfirst, hsecond]

theorem put_paced_of_resting {c : Cell σ} {s : Side} (h : (c.get s.other).resting) (d : Device σ)
    (b b' : Bool) : (c.paced b).put s (d.paced b') = (c.put s d).paced b' := by
  have hother := Device.paced_of_not_running (Device.status_of_resting h) b b'
  cases s with
  | first =>
    have hsecond : c.second.paced b = c.second.paced b' := hother
    simp only [put, paced, hsecond]
  | second =>
    have hfirst : c.first.paced b = c.first.paced b' := hother
    simp only [put, paced, hfirst]

theorem failSide_paced (c : Cell σ) (s : Side) (cause : Error) (b : Bool) :
    (c.paced b).failSide s cause = ((c.failSide s cause).1.paced b, (c.failSide s cause).2) := by
  unfold failSide
  rw [get_paced, Device.fail_paced (c.get s) cause b b]
  simp only [put_paced]

theorem routeCall_paced (c : Cell σ) (s : Side) (target : CallTarget) {f : ReturnFrame}
    (hf : f.mode = .full) : (c.paced false).routeCall s target f.paced =
      ((c.routeCall s target f).1.paced false, (c.routeCall s target f).2) := by
  unfold routeCall
  cases Side.ofId? target.device with
  | none => exact failSide_paced c s _ false
  | some callee =>
    dsimp only
    rw [get_paced, Device.acceptCall_paced (c.get callee) target hf]
    cases (c.get callee).acceptCall target f with
    | error e => exact failSide_paced c s e false
    | ok taken => simp only [Except.map, put_paced]

theorem routeFailure_paced (c : Cell σ) (s : Side) (caller : UInt8) (reason : String) :
    (c.paced false).routeFailure s caller reason =
      ((c.routeFailure s caller reason).1.paced false, (c.routeFailure s caller reason).2) := by
  unfold routeFailure
  cases Side.ofId? caller with
  | none => rfl
  | some side =>
    dsimp only
    rw [get_paced, Device.status_paced_false, failSide_paced]
    split_ifs <;> rfl

theorem routeReturn_paced {c : Cell σ} (hf : ∀ s, (c.get s).Full) (hr : ∀ s, (c.get s).resting)
    (f : ReturnFrame) : ∃ b, (c.paced false).routeReturn f.paced =
      ((c.routeReturn f).1.paced b, (c.routeReturn f).2) := by
  have hdevice : f.paced.device = f.device := rfl
  unfold routeReturn
  rw [hdevice]
  cases Side.ofId? f.device with
  | none => exact ⟨false, rfl⟩
  | some side =>
    refine ⟨true, ?_⟩
    dsimp only
    rw [get_paced, Device.resumeAfterCall_of_resting (hf side) (hr side),
      put_paced_of_resting (hr side.other)]

/-- The event of a device that rests, or that goes on by itself. -/
theorem route_paced {c : Cell σ} {t : Side} {e : DeviceEvent} (hf : ∀ s, (c.get s).Full)
    (ho : (c.get t.other).resting) (hy : (c.get t).Yields e) (b : Bool) :
    ∃ b', (c.paced b).route t e.paced =
      ((c.route t e).1.paced b', (c.route t e).2.1, (c.route t e).2.2) := by
  have hboth (ht : (c.get t).resting) : ∀ s, (c.get s).resting := Side.forall_of t ht ho
  have hstill (ht : (c.get t).resting) : c.paced b = c.paced false :=
    paced_of_not_running (fun s => Device.status_of_resting (hboth ht s)) b false
  cases e with
  | idle | busy => exact ⟨b, rfl⟩
  | crossCall target frame =>
    obtain ⟨ht, -, hmode⟩ := hy
    refine ⟨false, ?_⟩
    rw [hstill ht]
    simp only [route, DeviceEvent.paced, routeCall_paced c t target hmode]
  | callFailed caller reason =>
    refine ⟨false, ?_⟩
    rw [hstill hy]
    simp only [route, DeviceEvent.paced, routeFailure_paced]
  | returned frame =>
    obtain ⟨b', hb⟩ := routeReturn_paced hf (hboth hy) frame
    refine ⟨b', ?_⟩
    rw [hstill hy]
    simp only [route, DeviceEvent.paced, hb]

variable [MotionService σ] {l : Side → Library} {c : Cell σ}

/-- A turn does the same in both cells; afterwards the one in steps may be held. -/
theorem Solo.tickSide_paced (hl : Linked l) (h : c.Solo l) {t : Side} (hr : ¬ (c.get t).resting) :
    ∃ b, (c.paced false).tickSide t =
      ((c.tickSide t).1.paced b, (c.tickSide t).2.1, (c.tickSide t).2.2) := by
  have hturned := h.turned hl hr
  have hfull := ((h.plain t).toFull.tick c.registers).1
  obtain ⟨b, hb⟩ := Device.tick_paced (h.plain t).toFull c.registers
  have hother := h.other_resting hr
  generalize hu : (c.get t).tick c.registers = u at hturned hfull hb
  have hput : ({ (c.paced false).put t (u.device.paced b) with registers := u.registers } : Cell σ) =
      ({ c.put t u.device with registers := u.registers } : Cell σ).paced b := by
    rw [put_paced_of_resting hother]
    rfl
  have hroute := route_paced (c := { c.put t u.device with registers := u.registers }) (t := t)
    (e := u.event) (fun s => ?_) (by rwa [get_registers, get_put_other])
    (by rw [get_registers, get_put]; exact hturned.yields) b
  · obtain ⟨b', hb'⟩ := hroute
    refine ⟨b', ?_⟩
    simp only [Cell.tickSide, get_paced, registers_paced, hb, hu, TickResult.paced, hput, hb']
  · rw [get_registers]
    rcases t.eq_or_eq_other s with rfl | rfl
    · rwa [get_put]
    · rw [get_put_other]
      exact (h.plain _).toFull

end Cell

end TeachPendant
