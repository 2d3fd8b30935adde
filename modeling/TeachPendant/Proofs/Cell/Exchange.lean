import TeachPendant.Proofs.Cell.Bond

namespace TeachPendant

namespace Device

variable {σ : Type}

theorem waiting?_eq_none_iff (d : Device σ) :
    d.waiting? = none ↔ d.status? ≠ some .awaitingCall := by
  cases hx : d.execution with
  | none => simp [waiting?, status?, hx]
  | some x => simp [waiting?, status?, hx]

theorem bond_acceptCall {d d' : Device σ} {target : CallTarget} {f : ReturnFrame}
    (hf : f.device ≠ d.id) {trace : Trace} (ha : d.acceptCall target f = .ok (d', trace)) :
    d.bond.serves = none ∧ d.bond.waits = none ∧ d'.bond = { d.bond with serves := some f } := by
  obtain ⟨hb, ref, p, -, hp, -, rfl⟩ := of_acceptCall ha
  have hw := waiting?_of_not_busy hb
  refine ⟨caller?_of_not_busy hb, hw, ?_⟩
  have hbegin := bond_begin (d := { d with returnStack := f :: d.returnStack }) hp f.mode 0
  rw [hbegin, returnStack_of_not_busy hb]
  simp only [bond, hw, caller?, foreign?_singleton hf]

theorem bond_resumeAfterCall {d : Device σ} {side : Side} (h : d.Sound side) :
    d.resumeAfterCall.bond = { d.bond with waits := none } := by
  have hsame (hw : d.waiting? = none) : d.bond = { d.bond with waits := none } := by
    simp only [bond, hw]
  unfold resumeAfterCall
  split
  · next hx => exact hsame (by simp [waiting?, hx])
  · next x hx =>
    split
    · next hp =>
      refine hsame (waiting?_of_running hx fun hs => ?_)
      obtain ⟨p, hq, -⟩ := h.runs (isBusy_of_running hx (by simp [hs, Status.isTerminal])) x hx
      rw [hp] at hq
      cases hq
    · next p hp =>
      unfold Execution.resumeAfterCall
      split_ifs with hs
      · exact bond_withRun _ d.frames d.arm (Execution.moveOn_ne_awaitingCall p (by simp))
      · rw [← hx]
        exact hsame (waiting?_of_running hx hs)

end Device

namespace Cell

variable {σ : Type}

def bonds (c : Cell σ) (s : Side) : Bond := (c.get s).bond

def Sound (c : Cell σ) : Prop := ∀ s, (c.get s).Sound s

theorem Sound.put {c : Cell σ} (h : c.Sound) {s : Side} {d : Device σ} (hd : d.Sound s) :
    (c.put s d).Sound := by
  intro t
  rcases s.eq_or_eq_other t with rfl | rfl
  · rwa [get_put]
  · rw [get_put_other]
    exact h _

theorem exchange_put {c : Cell σ} {s : Side} {d : Device σ} (hd : (c.get s).bond.LetsGo d.bond) :
    Exchange c.bonds (c.put s d).bonds :=
  .apart_of_one s (by simpa [bonds] using hd) (by simp [bonds])

/-- Looks up every call anew in the libraries of the cell. -/
def relinked (c : Cell σ) (l : Library) : Library :=
  l.mapCalls (Linking.linkTarget [c.first.library, c.second.library])

theorem get_relink (c : Cell σ) (s : Side) :
    c.relink.1.get s = { c.get s with library := c.relinked (c.get s).library } := by
  cases s <;> rfl

theorem sound_build (registers : RegisterBank) (first second : Library) (arm : Side → σ) :
    (build registers first second arm).1.Sound := by
  have hnew (s : Side) (l : Library) :
      ({ id := s.id, library := l, arm := arm s } : Device σ).Sound s :=
    Device.Framed.sound_of_not_busy ⟨rfl, trivial, by simp, by simp⟩ rfl
  intro s
  refine (get_relink _ s).symm ▸ Device.Sound.relink ?_ _
  cases s
  · exact hnew .first first
  · exact hnew .second second

section Route

variable {c c₁ : Cell σ} {s : Side}

/-- A device that fails lets go of its ties. -/
theorem exchange_failSide (h₁ : c₁.Sound) (ho : c₁.get s.other = c.get s.other) {cause : Error}
    (hb : (c₁.bonds s).drop cause.message = (c.bonds s).drop cause.message) :
    (c₁.failSide s cause).1.Sound ∧ Exchange c.bonds (c₁.failSide s cause).1.bonds := by
  have hdrop : (c₁.failSide s cause).1.bonds s = (c.bonds s).drop cause.message := by
    rw [← hb]
    simp only [bonds, failSide, get_put, Device.bond_fail]
  refine ⟨h₁.put ((h₁ s).toFramed.sound_fail cause), .apart_of_one s (.of_drop hdrop) ?_⟩
  simp only [bonds, failSide, get_put_other, ho]

theorem exchange_routeCall (hc : c.Sound) (h₁ : c₁.Sound) (ho : c₁.get s.other = c.get s.other)
    {target : CallTarget} {frame : ReturnFrame}
    (ha : (c.get s).Answers (c₁.get s) (.crossCall target frame)) :
    (c₁.routeCall s target frame).1.Sound ∧
      Exchange c.bonds (c₁.routeCall s target frame).1.bonds := by
  obtain ⟨ht, hf, hw, hb⟩ := ha
  have hid : (c.get s).id = s.id := (hc s).id_eq
  have hother : c₁.bonds s.other = c.bonds s.other := by simp only [bonds, ho]
  -- A call that is refused leaves the caller with the ties it had before it called.
  have hrefused (cause : Error) : (c₁.failSide s cause).1.Sound ∧
      Exchange c.bonds (c₁.failSide s cause).1.bonds := by
    apply exchange_failSide h₁ ho
    rw [bonds, hb]
    rfl
  unfold routeCall
  split
  · exact hrefused _
  · next callee hcallee =>
    obtain rfl : callee = s.other := Side.eq_other_of_ofId? hcallee (hid ▸ ht)
    split
    · next d trace haccept =>
      have hfo : frame.device = s.other.other.id := by rw [hf, hid, Side.other_other]
      have hforeign : frame.device ≠ (c₁.get s.other).id := by
        rw [hf, hid, (h₁ s.other).id_eq]
        exact s.id_other_ne.symm
      obtain ⟨hs, hw', hd⟩ := Device.bond_acceptCall hforeign haccept
      refine ⟨h₁.put ((h₁ s.other).acceptCall hfo haccept), .taken s frame (hf.trans hid) hw ?_ ?_ ?_⟩
      · rw [← hother]
        exact ⟨hs, hw'⟩
      · simpa [bonds] using hb
      · rw [← hother]
        simpa [bonds] using hd
    · exact hrefused _

theorem exchange_routeFailure (hc : c.Sound) (h₁ : c₁.Sound) (ho : c₁.get s.other = c.get s.other)
    {caller : UInt8} {reason : String}
    (ha : (c.get s).Answers (c₁.get s) (.callFailed caller reason)) :
    (c₁.routeFailure s caller reason).1.Sound ∧
      Exchange c.bonds (c₁.routeFailure s caller reason).1.bonds := by
  obtain ⟨hr, hb⟩ := ha
  obtain rfl : caller = s.other.id := (hc s).report caller reason hr
  have hother : c₁.bonds s.other = c.bonds s.other := by simp only [bonds, ho]
  simp only [routeFailure, Side.ofId?_id]
  split_ifs with hs
  · have hdrop : (c₁.failSide s.other (.callFailed s.id reason)).1.bonds s.other =
        (c.bonds s.other).drop (Error.callFailed s.id reason).message := by
      simp only [bonds, failSide, get_put]
      rw [Device.bond_fail, ho]
    refine ⟨h₁.put ((h₁ s.other).toFramed.sound_fail _), ?_⟩
    apply Exchange.told s reason hr
    · simpa [bonds, failSide] using hb
    · exact .of_drop hdrop
    · rw [hdrop]
      rfl
  · refine ⟨h₁, .told s reason hr hb ?_ ?_⟩
    · rw [hother]
      exact .same
    · exact (Device.waiting?_eq_none_iff _).mpr hs

theorem exchange_routeReturn (hc : c.Sound) (h₁ : c₁.Sound) (ho : c₁.get s.other = c.get s.other)
    {frame : ReturnFrame} (ha : (c.get s).Answers (c₁.get s) (.returned frame)) :
    (c₁.routeReturn frame).1.Sound ∧ Exchange c.bonds (c₁.routeReturn frame).1.bonds := by
  obtain ⟨hs, hr, hb⟩ := ha
  have hd : frame.device = s.other.id := (hc s).toFramed.device_of_caller hs
  simp only [routeReturn, hd, Side.ofId?_id]
  refine ⟨h₁.put (h₁ s.other).resumeAfterCall, .returned s frame hs hr ?_ ?_⟩
  · simpa [bonds] using hb
  · simp only [bonds, get_put]
    rw [Device.bond_resumeAfterCall (h₁ s.other), ho]

/-- The effect of an event on a sound cell whose device `s` has just ticked. -/
theorem exchange_route (hc : c.Sound) (h₁ : c₁.Sound) (ho : c₁.get s.other = c.get s.other)
    {e : DeviceEvent} (ha : (c.get s).Answers (c₁.get s) e) :
    (c₁.route s e).1.Sound ∧ Exchange c.bonds (c₁.route s e).1.bonds := by
  have hother : c₁.bonds s.other = c.bonds s.other := by simp only [bonds, ho]
  cases e with
  | idle | busy => exact ⟨h₁, .apart_of_one s ha hother⟩
  | crossCall target frame => exact exchange_routeCall hc h₁ ho ha
  | callFailed caller reason => exact exchange_routeFailure hc h₁ ho ha
  | returned frame => exact exchange_routeReturn hc h₁ ho ha

end Route

variable [MotionService σ]

theorem sound_exchange_tickSide {c : Cell σ} (hc : c.Sound) (s : Side) :
    (c.tickSide s).1.Sound ∧ Exchange c.bonds (c.tickSide s).1.bonds := by
  have ha := Device.answers_tick (hc s) c.registers
  have hd := (hc s).tick c.registers
  generalize ht : (c.get s).tick c.registers = t at ha hd
  have h₁ : ({ c.put s t.device with registers := t.registers } : Cell σ).Sound := by
    intro r
    rw [get_registers]
    exact hc.put hd r
  have h := exchange_route (s := s) hc h₁ (by simp) (by simpa using ha)
  simpa only [tickSide, ht] using h

theorem sound_exchange {c : Cell σ} (hc : c.Sound) (m : Move σ) :
    (c.move m).Sound ∧ Exchange c.bonds (c.move m).bonds := by
  have hsame : Exchange c.bonds c.bonds := .apart fun _ => .same
  cases m with
  | start side program mode line =>
    simp only [move]
    split
    · next d trace hs =>
      exact ⟨hc.put ((hc side).start hs), exchange_put (Device.letsGo_start hs)⟩
    · exact ⟨hc, hsame⟩
  | resume side =>
    simp only [move]
    split
    · next d trace hr =>
      exact ⟨hc.put ((hc side).resume hr), exchange_put (Device.letsGo_resume hr)⟩
    · exact ⟨hc, hsame⟩
  | halt side =>
    exact ⟨hc.put (hc side).toFramed.sound_halt, exchange_put (Device.letsGo_halt _)⟩
  | relink =>
    constructor
    · intro s
      rw [move, get_relink]
      exact (hc s).relink _
    · apply Exchange.apart
      intro s
      simp only [bonds, move, get_relink]
      exact .same
  | write registers =>
    constructor
    · intro s
      rw [move, get_registers]
      exact hc s
    · apply Exchange.apart
      intro s
      simp only [bonds, move, get_registers]
      exact .same
  | edit side change =>
    simp only [move]
    split_ifs with hb
    · exact ⟨hc, hsame⟩
    · exact ⟨hc.put ((hc side).edit (by simpa using hb) _), exchange_put .same⟩
  | drift side arm => exact ⟨hc.put ((hc side).withArm arm), exchange_put .same⟩
  | tick side => exact sound_exchange_tickSide hc side

theorem Sound.move {c : Cell σ} (hc : c.Sound) (m : Move σ) : (c.move m).Sound :=
  (sound_exchange hc m).1

theorem Sound.exchange {c : Cell σ} (hc : c.Sound) (m : Move σ) :
    Exchange c.bonds (c.move m).bonds := (sound_exchange hc m).2

theorem Reachable.sound {c : Cell σ} (h : c.Reachable) : c.Sound :=
  h.invariant sound_build fun _ m hc => hc.move m

end Cell

end TeachPendant
