import TeachPendant.Proofs.Cell.Exchange

namespace TeachPendant

namespace Cell

variable {σ : Type} [MotionService σ]

/-- In its turn the other device makes a call that the device `s` takes. -/
def TakesCall (c : Cell σ) (s : Side) : Prop :=
  ∃ target frame r, ((c.get s.other).tick c.registers).event = .crossCall target frame ∧
    target.device = s.id ∧ (c.get s).acceptCall target frame = .ok r

/-- How the turn of the other device may leave the device `s`. -/
inductive Reached (c : Cell σ) (s : Side) : Device σ → Prop
  | untouched : Reached c s (c.get s)
  | called (takes : c.TakesCall s) {target : CallTarget} {frame : ReturnFrame} {d : Device σ}
      {trace : Trace} (taken : (c.get s).acceptCall target frame = .ok (d, trace)) : Reached c s d
  | failed (waits : (c.get s).status? = some .awaitingCall) (cause : Error) :
      Reached c s ((c.get s).fail cause).1
  | resumed : Reached c s (c.get s).resumeAfterCall

variable {c : Cell σ}

/-- The device that has the turn. -/
theorem Sound.get_tickSide (hc : c.Sound) (s : Side) :
    (c.tickSide s).1.get s = ((c.get s).tick c.registers).device ∨
      ∃ target frame cause, ((c.get s).tick c.registers).event = .crossCall target frame ∧
        (c.tickSide s).1.get s = (((c.get s).tick c.registers).device.fail cause).1 := by
  have ha := Device.answers_tick (hc s) c.registers
  simp only [tickSide]
  generalize (c.get s).tick c.registers = t at ha ⊢
  obtain ⟨d, registers, event, trace⟩ := t
  cases event with
  | idle | busy => exact Or.inl (by simp [route])
  | crossCall target frame =>
    simp only [route, routeCall]
    split
    · exact Or.inr ⟨target, frame, .unresolvedCall target.program target.device, rfl,
        by simp [failSide]⟩
    · next callee hcallee =>
      obtain rfl : callee = s.other := Side.eq_other_of_ofId? hcallee ((hc s).id_eq ▸ ha.1)
      split
      · exact Or.inl (by simp)
      · next e _ => exact Or.inr ⟨target, frame, e, rfl, by simp [failSide]⟩
  | callFailed caller reason =>
    obtain rfl : caller = s.other.id := (hc s).report caller reason ha.1
    simp only [route, routeFailure, Side.ofId?_id]
    split_ifs
    · exact Or.inl (by simp [failSide])
    · exact Or.inl (by simp)
  | returned frame =>
    have hd : frame.device = s.other.id := (hc s).toFramed.device_of_caller ha.1
    simp only [route, routeReturn, hd, Side.ofId?_id]
    exact Or.inl (by simp)

/-- The device whose turn it is not. -/
theorem Sound.reached_tickSide_other (hc : c.Sound) (s : Side) :
    c.Reached s ((c.tickSide s.other).1.get s) := by
  have ha := Device.answers_tick (hc s.other) c.registers
  simp only [tickSide]
  cases ht : (c.get s.other).tick c.registers with
  | mk d registers event trace =>
  rw [ht] at ha
  dsimp only
  cases event with
  | idle | busy => simpa [route] using Reached.untouched
  | crossCall target frame =>
    have hover : target.device ≠ s.other.id := (hc s.other).id_eq ▸ ha.1
    simp only [route, routeCall]
    split
    · simpa [failSide] using Reached.untouched
    · next callee hcallee =>
      obtain rfl : callee = s := by simpa using Side.eq_other_of_ofId? hcallee hover
      simp only [get_registers, get_other_put]
      split
      · next d' trace' htaken =>
        rw [get_put]
        exact .called ⟨target, frame, _, by rw [ht], Side.eq_of_ofId? hcallee, htaken⟩ htaken
      · simpa [failSide] using Reached.untouched
  | callFailed caller reason =>
    obtain rfl : caller = s.id := by simpa using (hc s.other).report caller reason ha.1
    simp only [route, routeFailure, Side.ofId?_id, get_registers, get_other_put]
    split_ifs with hw
    · simpa [failSide] using Reached.failed hw _
    · simpa using Reached.untouched
  | returned frame =>
    have hd : frame.device = s.id := by
      simpa using (hc s.other).toFramed.device_of_caller ha.1
    simp only [route, routeReturn, hd, Side.ofId?_id, get_registers, get_other_put, get_put]
    exact .resumed

/-- Everything that the turn of the device `s` may do to the two devices: its own tick, after which
its call may be refused, and what the other one takes from it. Calls are refused and failures are told
as faults that stop a run. -/
theorem Sound.forall_tickSide (hc : c.Sound) (s : Side) {P : Side → Device σ → Prop}
    (own : P s ((c.get s).tick c.registers).device)
    (refused : ∀ cause : Error, cause.isFatal = true →
      P s (((c.get s).tick c.registers).device.fail cause).1)
    (untouched : P s.other (c.get s.other))
    (called : ∀ target frame d trace, (c.get s.other).acceptCall target frame = .ok (d, trace) →
      P s.other d)
    (told : ∀ cause : Error, cause.isFatal = true → P s.other ((c.get s.other).fail cause).1)
    (resumed : P s.other (c.get s.other).resumeAfterCall) (t : Side) :
    P t ((c.tickSide s).1.get t) := by
  have ha := Device.answers_tick (hc s) c.registers
  simp only [tickSide]
  generalize (c.get s).tick c.registers = u at ha own refused ⊢
  obtain ⟨d, registers, event, trace⟩ := u
  have hboth {c' : Cell σ} (hs : P s (c'.get s)) (ho : P s.other (c'.get s.other)) :
      P t (c'.get t) := Side.forall_of (P := fun r => P r (c'.get r)) s hs ho t
  have hrefused (cause : Error) (hcause : cause.isFatal = true) :
      P t ((({ c.put s d with registers } : Cell σ).failSide s cause).1.get t) :=
    hboth (by simpa [failSide] using refused cause hcause) (by simpa [failSide] using untouched)
  cases event with
  | idle | busy => exact hboth (by simpa [route] using own) (by simpa [route] using untouched)
  | crossCall target frame =>
    simp only [route, routeCall]
    split
    · exact hrefused _ rfl
    · next callee hcallee =>
      obtain rfl : callee = s.other := Side.eq_other_of_ofId? hcallee ((hc s).id_eq ▸ ha.1)
      simp only [get_registers, get_put_other]
      split
      · next d' trace' htaken =>
        exact hboth (by simpa using own) (by simpa using called target frame d' trace' htaken)
      · next e hrefusal =>
        rcases Device.of_acceptCall_error hrefusal with ⟨-, rfl⟩ | hr
        · exact hrefused _ rfl
        · rw [Library.unresolved_of_resolve hr]
          exact hrefused _ rfl
  | callFailed caller reason =>
    obtain rfl : caller = s.other.id := (hc s).report caller reason ha.1
    simp only [route, routeFailure, Side.ofId?_id]
    split_ifs
    · exact hboth (by simpa [failSide] using own) (by simpa [failSide] using told _ rfl)
    · exact hboth (by simpa using own) (by simpa using untouched)
  | returned frame =>
    have hd : frame.device = s.other.id := (hc s).toFramed.device_of_caller ha.1
    simp only [route, routeReturn, hd, Side.ofId?_id]
    exact hboth (by simpa using own) (by simpa using resumed)

end Cell

end TeachPendant
