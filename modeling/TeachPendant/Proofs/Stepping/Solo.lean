import TeachPendant.Proofs.Cell.CallProtocol
import TeachPendant.Proofs.Linking.Resolution
import TeachPendant.Proofs.Stepping.Full

namespace TeachPendant

namespace Device

variable {σ : Type}

/-- Has nothing to do: no report to give, no line to run, no move to see to the end, no call to
return from. -/
def resting (d : Device σ) : Bool :=
  d.abandoned.isNone &&
    match d.execution with
    | none => true
    | some x =>
      (d.library.get? x.program.index).isSome &&
        match x.status with
        | .running | .awaitingMotion _ => false
        | .done .endOfProgram => d.returnStack.isEmpty
        | .awaitingCall | .done _ | .fault _ => true

theorem resting_iff (d : Device σ) :
    d.resting ↔ d.abandoned = none ∧ ∀ x, d.execution = some x →
      (d.library.get? x.program.index).isSome ∧ (x.status = .awaitingCall ∨
        x.status.isTerminal = true ∧ (x.status = .done .endOfProgram → d.returnStack = [])) := by
  unfold resting
  cases hx : d.execution with
  | none => simp
  | some x =>
    cases hs : x.status with
    | running | awaitingMotion | awaitingCall | fault => simp [hs, Status.isTerminal]
    | done reason => cases reason <;> simp [hs, Status.isTerminal]

theorem status_of_resting {d : Device σ} (h : d.resting) : d.status? ≠ some .running := by
  intro hs
  obtain ⟨x, hx, hxs⟩ := Option.map_eq_some_iff.mp hs
  obtain ⟨-, hw | ⟨ht, -⟩⟩ := ((resting_iff d).mp h).2 x hx
  · exact absurd (hxs.symm.trans hw) nofun
  · rw [hxs] at ht
    cases ht

theorem tick_of_resting [MotionService σ] {d : Device σ} (h : d.resting) (registers : RegisterBank) :
    d.tick registers = { device := d, registers, event := .idle } := by
  obtain ⟨quiet, hrest⟩ := (resting_iff d).mp h
  unfold tick
  rw [quiet]
  cases hx : d.execution with
  | none => rfl
  | some x =>
    obtain ⟨hp, hs⟩ := hrest x hx
    obtain ⟨p, hp⟩ := Option.isSome_iff_exists.mp hp
    simp only [hp]
    rcases hs with hs | ⟨ht, hn⟩
    · rw [hs]
    · cases hs : x.status with
      | running | awaitingMotion | awaitingCall => simp [hs, Status.isTerminal] at ht
      | fault => rfl
      | done reason =>
        cases reason with
        | stepped | halted => rfl
        | endOfProgram => simp [returnFromCall, hn hs]

/-- Broken off, without callers. -/
def Failed (d : Device σ) : Prop :=
  d.returnStack = [] ∧ ∃ x cause, d.execution = some x ∧ x.status = .fault cause

theorem failed_fail {d : Device σ} {x : Execution} (hx : d.execution = some x) (cause : Error) :
    (d.fail cause).1.Failed :=
  ⟨returnStack_fail d cause, x.fail cause, cause, by simp [hx], rfl⟩

theorem resting_of_failed {d : Device σ} (h : d.Failed) (hf : d.Full) (quiet : d.abandoned = none) :
    d.resting := by
  obtain ⟨hstack, x, cause, hx, hs⟩ := h
  refine (resting_iff d).mpr ⟨quiet, fun y hy => ?_⟩
  obtain rfl : x = y := Option.some.inj (hx.symm.trans hy)
  exact ⟨(hf.run x hx).2, Or.inr ⟨by rw [hs]; rfl, fun _ => hstack⟩⟩

/-- A device of a full run that keeps its library, and reports only after it has failed. -/
structure Plain (d : Device σ) (l : Library) : Prop extends d.Full where
  library : d.library = l
  owing : d.abandoned ≠ none → d.Failed

namespace Plain

variable {d : Device σ} {l : Library}

theorem quiet_of_running (h : d.Plain l) (hs : d.status? = some .running) : d.abandoned = none := by
  apply Decidable.not_not.mp
  intro hn
  obtain ⟨-, x, cause, hx, hxs⟩ := h.owing hn
  rw [status?, hx, Option.map_some, hxs] at hs
  cases hs

theorem fail (h : d.Plain l) {x : Execution} (hx : d.execution = some x) (cause : Error) :
    (d.fail cause).1.Plain l :=
  ⟨h.toFull.fail cause, (library_fail d cause).trans h.library, fun _ => failed_fail hx cause⟩

theorem acceptCall (h : d.Plain l) (quiet : d.abandoned = none) {d' : Device σ}
    {target : CallTarget} {f : ReturnFrame} (hf : f.mode = .full) {trace : Trace}
    (ha : d.acceptCall target f = .ok (d', trace)) : d'.Plain l := by
  have hfull := h.toFull.acceptCall hf ha
  obtain ⟨-, ref, p, -, -, -, rfl⟩ := of_acceptCall ha
  refine ⟨hfull, ?_, fun hn => absurd ?_ hn⟩
  · rw [library_begin]
    exact h.library
  · rw [abandoned_begin]
    exact quiet

theorem resumeAfterCall (h : d.Plain l) (quiet : d.abandoned = none) :
    d.resumeAfterCall.Plain l :=
  ⟨h.toFull.resumeAfterCall, d.resumeAfterCall_kept.1.trans h.library,
    fun hn => absurd (d.resumeAfterCall_kept.2.trans quiet) hn⟩

end Plain

/-- What is left to a device that gives this event: a device that hands over rests. -/
def Yields (d : Device σ) : DeviceEvent → Prop
  | .idle => False
  | .busy => True
  | .crossCall _ frame => d.resting ∧ d.execution.isSome ∧ frame.mode = .full
  | .callFailed _ _ | .returned _ => d.resting

structure Turned [MotionService σ] (d : Device σ) (t : TickResult σ) : Prop where
  library : t.device.library = d.library
  owing : t.device.abandoned ≠ none → t.device.Failed
  yields : t.device.Yields t.event

/-- The turn of a device that has something to do. -/
theorem Plain.turned [MotionService σ] {d : Device σ} {side : Side} {l : Side → Library}
    (hf : d.Plain (l side)) (hs : d.Sound side) (hl : Linked l) (hr : ¬ d.resting)
    (registers : RegisterBank) : d.Turned (d.tick registers) := by
  have ht := d.ticked registers
  generalize d.tick registers = t at ht ⊢
  have hquiet {d' : Device σ} (quiet : d.abandoned = none) (he : d'.abandoned = d.abandoned) :
      d'.abandoned ≠ none → d'.Failed := fun h => absurd (he.trans quiet) h
  cases ht with
  | reported hreport =>
    have hfailed : ({ d with abandoned := none } : Device σ).Failed := hf.owing (by rw [hreport]; nofun)
    exact ⟨rfl, fun h => absurd rfl h, resting_of_failed hfailed ⟨hf.run, hf.frames⟩ rfl⟩
  | unstarted quiet hx => exact absurd ((resting_iff d).mpr ⟨quiet, by simp [hx]⟩) hr
  | lost _ hx hp =>
    have hpresent := (hf.run _ hx).2
    rw [hp] at hpresent
    cases hpresent
  | @faulted x p cause _ hx hp _ hstatus =>
    refine ⟨library_dropCallChain _ _, fun _ => ?_, trivial⟩
    rw [dropCallChain_eq]
    exact ⟨rfl, _, cause, rfl, hstatus⟩
  | advanced quiet => exact ⟨rfl, hquiet quiet rfl, trivial⟩
  | @calledOver x p target quiet hx hp hrun _ hcall _ =>
    have hfull := hf.toFull.afterLine registers hx hp
    refine ⟨rfl, hquiet quiet rfl, (resting_iff _).mpr ⟨quiet, fun y hy => ?_⟩, rfl, ?_⟩
    · refine ⟨(hfull.run y hy).2, Or.inl ?_⟩
      obtain rfl : (d.lineResult registers x p).execution = y := Option.some.inj hy
      cases hs.lineOutcome registers hx hp hrun with
      | faulted _ _ hn | moved _ _ hn | moving _ _ hn => exact absurd (hn.symm.trans hcall) nofun
      | calling _ _ he => rw [he]
    · exact (hfull.run _ rfl).1.mode
  | @calledHere x p target ref quiet _ _ _ _ _ _ _ called hcalled =>
    subst hcalled
    exact ⟨library_begin _ _ _ _, hquiet quiet (abandoned_begin _ _ _ _), trivial⟩
  | @refused x p target e _ hx hp _ _ hcall hdevice herror =>
    obtain ⟨i, effect, hi, he, hflow, hlink⟩ := Execution.call_of_step hcall
    rw [hf.library] at hp herror
    obtain ⟨ref, hok⟩ := hl side _ p _ i _ effect target hp hi he hflow hlink side
      (hdevice.trans hs.id_eq)
    exact absurd (herror.symm.trans hok) nofun
  | polled quiet => exact ⟨rfl, hquiet quiet rfl, trivial⟩
  | waiting quiet hx hp hstatus =>
    refine absurd ((resting_iff d).mpr ⟨quiet, fun y hy => ?_⟩) hr
    obtain rfl := Option.some.inj (hx.symm.trans hy)
    exact ⟨(hf.run _ hy).2, Or.inl hstatus⟩
  | stopped quiet hx hp hterminal hnothing =>
    refine absurd ((resting_iff d).mpr ⟨quiet, fun y hy => ?_⟩) hr
    obtain rfl := Option.some.inj (hx.symm.trans hy)
    exact ⟨(hf.run _ hy).2, Or.inr ⟨hterminal, hnothing⟩⟩
  | @returnedOver x p frame rest quiet hx hp hstatus hstack hdevice =>
    obtain ⟨-, rfl⟩ := hs.toFramed.rest_of_foreign hstack hdevice
    refine ⟨rfl, hquiet quiet rfl, (resting_iff _).mpr ⟨quiet, fun y hy => ?_⟩⟩
    obtain rfl := Option.some.inj (hx.symm.trans hy)
    exact ⟨(hf.run _ hy).2, Or.inr ⟨by rw [hstatus]; rfl, fun _ => rfl⟩⟩
  | @returnLost x p frame rest _ _ _ _ hstack hdevice hlost =>
    have hpresent := hs.present frame (by simp [hstack]) (hdevice.trans hs.id_eq)
    rw [hlost] at hpresent
    cases hpresent
  | returnedHere quiet => exact ⟨rfl, hquiet quiet rfl, trivial⟩

end Device

namespace Cell

variable {σ : Type}

/-- One program was started in full mode, and the libraries are linked. -/
structure Solo (l : Side → Library) (c : Cell σ) : Prop where
  sound : c.Sound
  coherent : Coherent c.bonds
  plain : ∀ s, (c.get s).Plain (l s)
  rests : ∃ s, (c.get s).resting

variable {l : Side → Library} {c : Cell σ}

theorem Solo.other_resting (h : c.Solo l) {t : Side} (hr : ¬ (c.get t).resting) :
    (c.get t.other).resting := by
  obtain ⟨s, hs⟩ := h.rests
  rcases t.eq_or_eq_other s with rfl | rfl
  · exact absurd hs hr
  · exact hs

theorem Solo.not_stepped (h : c.Solo l) (s : Side) : (c.get s).status? ≠ some (.done .stepped) := by
  intro hs
  obtain ⟨x, hx, hxs⟩ := Option.map_eq_some_iff.mp hs
  exact ((h.plain s).run x hx).1.unpaused hxs

/-- A device that rests although it has callers waits for a call of its own. -/
theorem Solo.awaiting_of_callers (h : c.Solo l) {s : Side} (hr : (c.get s).resting)
    (hs : (c.get s).returnStack ≠ []) : (c.get s).status? = some .awaitingCall := by
  obtain ⟨x, hx, hb⟩ := (h.sound s).unbroken hs
  obtain ⟨-, hw | ⟨ht, hn⟩⟩ := ((Device.resting_iff _).mp hr).2 x hx
  · simp [Device.status?, hx, hw]
  · have hstepped := ((h.plain s).run x hx).1.unpaused
    cases he : x.status with
    | running | awaitingMotion | awaitingCall => simp [he, Status.isTerminal] at ht
    | fault => simp [he, Status.broken] at hb
    | done reason =>
      cases reason with
      | endOfProgram => exact absurd (hn he) hs
      | stepped => exact absurd he hstepped
      | halted => simp [he, Status.broken] at hb

/-- When both devices rest the run is over: nobody waits for a call or has to return to a caller. -/
theorem Solo.over (h : c.Solo l) (hr : ∀ s, (c.get s).resting) (s : Side) :
    (c.get s).status? ≠ some .awaitingCall ∧ (c.get s).returnStack = [] := by
  have hfree (r : Side) : (c.get r).status? ≠ some .awaitingCall := by
    intro hw
    obtain ⟨f, hf⟩ : ∃ f, (c.bonds r).waits = some f :=
      Option.ne_none_iff_exists'.mp fun hn => (Device.waiting?_eq_none_iff _).mp hn hw
    have halone := h.coherent.alone r f hf
    rcases h.coherent.answered r f hf with hserves | ⟨reason, hreport⟩
    · have hstack : (c.get r.other).returnStack ≠ [] := by
        intro hn
        have hnone : (c.bonds r.other).serves = none := by simp [bonds, Device.bond, Device.caller?, hn]
        cases hnone.symm.trans hserves
      exact (Device.waiting?_eq_none_iff _).mp halone (h.awaiting_of_callers (hr r.other) hstack)
    · have hquiet := ((Device.resting_iff _).mp (hr r.other)).1
      cases hquiet.symm.trans hreport
  exact ⟨hfree s, Decidable.not_not.mp fun hs => hfree s (h.awaiting_of_callers (hr s) hs)⟩

theorem failSide_get (c : Cell σ) (s : Side) (cause : Error) :
    (c.failSide s cause).1.get s = ((c.get s).fail cause).1 ∧
      (c.failSide s cause).1.get s.other = c.get s.other :=
  ⟨get_put _ _ _, get_put_other _ _ _⟩

section Route

variable {c₁ : Cell σ} {t : Side}

/-- Both devices are what they are in a full run, and one of them rests. -/
def Settles (l : Side → Library) (c : Cell σ) : Prop :=
  (∀ s, (c.get s).Plain (l s)) ∧ ∃ s, (c.get s).resting

theorem Settles.of_fail {s : Side} (hd : (c₁.get s).Plain (l s))
    (ho : (c₁.get s.other).Plain (l s.other)) (hr : (c₁.get s.other).resting) {x : Execution}
    (hx : (c₁.get s).execution = some x) (cause : Error) :
    (c₁.failSide s cause).1.Settles l := by
  obtain ⟨hself, hother⟩ := failSide_get c₁ s cause
  constructor
  · refine Side.forall_of s ?_ ?_
    · exact hself ▸ hd.fail hx cause
    · exact hother ▸ ho
  · exact ⟨s.other, hother ▸ hr⟩

theorem Settles.routeCall (hd : (c₁.get t).Plain (l t)) (ho : (c₁.get t.other).Plain (l t.other))
    (hr : (c₁.get t.other).resting) {target : CallTarget} {frame : ReturnFrame}
    (ht : target.device ≠ t.id) (hy : (c₁.get t).Yields (.crossCall target frame)) :
    (c₁.routeCall t target frame).1.Settles l := by
  obtain ⟨hself, hx, hmode⟩ := hy
  obtain ⟨x, hx⟩ := Option.isSome_iff_exists.mp hx
  have hquiet := ((Device.resting_iff _).mp hr).1
  unfold Cell.routeCall
  split
  · exact .of_fail hd ho hr hx _
  · next callee hcallee =>
    obtain rfl : callee = t.other := Side.eq_other_of_ofId? hcallee ht
    split
    · next d trace haccept =>
      constructor
      · refine Side.forall_of t ?_ ?_
        · simpa using hd
        · simpa using ho.acceptCall hquiet hmode haccept
      · exact ⟨t, by simpa using hself⟩
    · exact .of_fail hd ho hr hx _

theorem Settles.routeFailure (hd : (c₁.get t).Plain (l t))
    (ho : (c₁.get t.other).Plain (l t.other)) (hself : (c₁.get t).resting) (reason : String) :
    (c₁.routeFailure t t.other.id reason).1.Settles l := by
  have hboth : c₁.Settles l := ⟨Side.forall_of t hd ho, t, hself⟩
  simp only [Cell.routeFailure, Side.ofId?_id]
  split_ifs with hs
  · obtain ⟨x, hx, -⟩ := Option.map_eq_some_iff.mp hs
    apply Settles.of_fail ho _ _ hx
    · simpa using hd
    · simpa using hself
  · exact hboth

theorem Settles.routeReturn (hd : (c₁.get t).Plain (l t))
    (ho : (c₁.get t.other).Plain (l t.other)) (hquiet : (c₁.get t.other).abandoned = none)
    (hself : (c₁.get t).resting) {frame : ReturnFrame} (hf : frame.device = t.other.id) :
    (c₁.routeReturn frame).1.Settles l := by
  simp only [Cell.routeReturn, hf, Side.ofId?_id]
  constructor
  · refine Side.forall_of t ?_ ?_
    · simpa using hd
    · simpa using ho.resumeAfterCall hquiet
  · exact ⟨t, by simpa using hself⟩

/-- The devices after a turn of the device `t`. -/
theorem Solo.settles_route (h : c.Solo l) (hr : ¬ (c.get t).resting) {e : DeviceEvent}
    (hd : (c₁.get t).Plain (l t)) (ho : c₁.get t.other = c.get t.other)
    (ha : (c.get t).Answers (c₁.get t) e) (hy : (c₁.get t).Yields e) :
    (c₁.route t e).1.Settles l := by
  have hrests := h.other_resting hr
  have hplain := h.plain t.other
  rw [← ho] at hrests hplain
  cases e with
  | idle => exact hy.elim
  | busy => exact ⟨Side.forall_of t hd hplain, t.other, hrests⟩
  | crossCall target frame =>
    exact .routeCall hd hplain hrests ((h.sound t).id_eq ▸ ha.1) hy
  | callFailed caller reason =>
    obtain rfl : caller = t.other.id := (h.sound t).report caller reason ha.1
    exact .routeFailure hd hplain hy reason
  | returned frame =>
    have hcaller : frame.device = t.other.id := (h.sound t).toFramed.device_of_caller ha.1
    exact .routeReturn hd hplain ((Device.resting_iff _).mp hrests).1 hy hcaller

end Route

variable [MotionService σ]

theorem tickSide_of_resting {s : Side} (h : (c.get s).resting) : c.tickSide s = (c, false, []) := by
  simp only [tickSide, Device.tick_of_resting h, route]
  cases s <;> rfl

theorem Solo.turned (hl : Linked l) (h : c.Solo l) {t : Side} (hr : ¬ (c.get t).resting) :
    (c.get t).Turned ((c.get t).tick c.registers) :=
  (h.plain t).turned (h.sound t) hl hr c.registers

/-- The device that has something to do is never idle. -/
theorem Solo.busy_iff (hl : Linked l) (h : c.Solo l) (t : Side) :
    (c.tickSide t).2.1 = false ↔ (c.get t).resting := by
  constructor
  · intro hb
    apply Decidable.not_not.mp
    intro hr
    have hy := (h.turned hl hr).yields
    rw [(busy_route _ _ _).mp hb] at hy
    exact hy
  · intro hr
    rw [tickSide_of_resting hr]

theorem Solo.tickSide (hl : Linked l) (h : c.Solo l) (t : Side) : (c.tickSide t).1.Solo l := by
  by_cases hr : (c.get t).resting
  · rw [tickSide_of_resting hr]
    exact h
  · have hturned := h.turned hl hr
    have hanswers := Device.answers_tick (h.sound t) c.registers
    have hfull := ((h.plain t).toFull.tick c.registers).1
    have hd : ((c.get t).tick c.registers).device.Plain (l t) :=
      ⟨hfull, hturned.library.trans (h.plain t).library, hturned.owing⟩
    obtain ⟨c₁, hc₁⟩ : ∃ c₁ : Cell σ, c₁ = { c.put t ((c.get t).tick c.registers).device with
      registers := ((c.get t).tick c.registers).registers } := ⟨_, rfl⟩
    have hself : c₁.get t = ((c.get t).tick c.registers).device := by
      rw [hc₁, get_registers, get_put]
    have hother : c₁.get t.other = c.get t.other := by
      rw [hc₁, get_registers, get_put_other]
    have hroute := h.settles_route hr (hself ▸ hd) hother (hself ▸ hanswers)
      (hself ▸ hturned.yields)
    rw [hc₁] at hroute
    exact ⟨h.sound.move (.tick t), h.coherent.exchange (h.sound.exchange (.tick t)),
      hroute.1, hroute.2⟩

/-- Nothing has been done yet. -/
structure Fresh (c : Cell σ) : Prop where
  sound : c.Sound
  coherent : Coherent c.bonds
  unstarted : ∀ s, (c.get s).execution = none
  uncalled : ∀ s, (c.get s).returnStack = []
  quiet : ∀ s, (c.get s).abandoned = none

omit [MotionService σ] in
theorem fresh_build (registers : RegisterBank) (first second : Library) (arm : Side → σ) :
    (build registers first second arm).1.Fresh where
  sound := sound_build registers first second arm
  coherent := coherent_build registers first second arm
  unstarted := by rintro (_ | _) <;> rfl
  uncalled := by rintro (_ | _) <;> rfl
  quiet := by rintro (_ | _) <;> rfl

omit [MotionService σ] in
theorem Fresh.not_busy (h : c.Fresh) (s : Side) : (c.get s).isBusy = false := by
  simp [Device.isBusy, Device.isActive, Device.status?, h.unstarted s, h.uncalled s]

omit [MotionService σ] in
/-- The libraries can be edited. -/
theorem Fresh.editLibrary {α : Type} (h : c.Fresh) {s : Side}
    {edit : Library → Except Error (Library × α)} {m : Library} {x : α}
    (hedit : edit (c.library s) = .ok (m, x)) :
    c.editLibrary s.id edit = .ok (c.put s { c.get s with library := m }, x) := by
  have hedit : edit (c.get s).library = .ok (m, x) := hedit
  simp [Cell.editLibrary, sideOf, h.not_busy s, hedit, bind, Except.bind]

theorem Fresh.withLibrary (h : c.Fresh) (s : Side) (m : Library) :
    (c.put s { c.get s with library := m }).Fresh := by
  have hmove : c.move (.edit s fun _ => m) = c.put s { c.get s with library := m } := by
    rw [move, if_neg (by simp [h.not_busy s])]
  refine ⟨hmove ▸ h.sound.move _, hmove ▸ h.coherent.exchange (h.sound.exchange _), ?_, ?_, ?_⟩ <;>
    refine Side.forall_of s ?_ ?_ <;> simp [h.unstarted, h.uncalled, h.quiet]

/-- One program started in a cell in which nothing has been done yet. -/
theorem Fresh.solo (h : c.Fresh) {t : Side} {program : String} {line : Nat} {d : Device σ}
    {trace : Trace} (hd : (c.get t).start program .full line = .ok (d, trace)) :
    (c.put t d).Solo c.library := by
  have hfull (s : Side) : (c.get s).Full := ⟨by simp [h.unstarted s], by simp [h.uncalled s]⟩
  have hmove : c.move (.start t program .full line) = c.put t d := by simp [move, hd]
  have hs := h.sound.move (.start t program .full line)
  have hb := h.coherent.exchange (h.sound.exchange (.start t program .full line))
  rw [hmove] at hs hb
  obtain ⟨-, index, p, hp, -, rfl⟩ := Device.of_start hd
  have hp : (c.get t).library.get? (⟨(c.get t).id, index⟩ : ProgramRef).index = some p := hp
  refine ⟨hs, hb, fun s => ?_, t.other, ?_⟩
  · rcases t.eq_or_eq_other s with rfl | rfl
    · rw [get_put]
      refine ⟨(hfull _).begin_full hp line, Device.library_begin _ _ _ _, fun hn => ?_⟩
      rw [Device.abandoned_begin] at hn
      exact absurd (h.quiet _) hn
    · rw [get_put_other]
      exact ⟨hfull _, rfl, fun hn => absurd (h.quiet _) hn⟩
  · rw [get_put_other, Device.resting_iff]
    exact ⟨h.quiet _, by simp [h.unstarted t.other]⟩

end Cell

end TeachPendant
