import TeachPendant.Arm.Instant
import TeachPendant.Proofs.Cell.Turn
import TeachPendant.Proofs.Linking.CallOutcome

namespace TeachPendant

/-- The faults of a transfer of control: a jump or a call that goes nowhere, a call to a device that
has something else to do, or one that did not come back. -/
inductive Error.Transfer : Error → Prop
  | label (number : UInt32) : Transfer (.unresolvedLabel number)
  | call (program : String) (device : UInt8) : Transfer (.unresolvedCall program device)
  | busy (device : UInt8) : Transfer (.busy device)
  | failed (device : UInt8) (reason : String) : Transfer (.callFailed device reason)

theorem Error.transfer_of_isFatal {e : Error} (h : e.isFatal = true) : e.Transfer := by
  cases e with
  | unresolvedLabel number => exact .label number
  | unresolvedCall program device => exact .call program device
  | busy device => exact .busy device
  | callFailed device reason => exact .failed device reason
  | malformed | incompatible | unsupportedOperator | divisionByZero | outOfRange | full
  | sequenceTooShort | mismatch | duplicateName | storage => cases h

namespace Execution

variable {x : Execution} {p : Program}

/-- The current line is a line of the program; the next one is too, or it is the end of the program,
or in backward mode the line above, which the first line does not have. -/
structure InBounds (x : Execution) (p : Program) : Prop where
  current : x.current < p.length
  forward : x.mode ≠ .backward → 0 ≤ x.next ∧ x.next ≤ p.length
  backward : x.mode = .backward → x.next = (x.current : Int) - 1

theorem OnLine.inBounds (h : x.OnLine p) : x.InBounds p := by
  have hlt := h.current_lt
  have hn := h.next_eq
  refine ⟨hlt, fun hm => ?_, fun hm => ?_⟩
  · cases hmode : x.mode with
    | backward => exact absurd hmode hm
    | full | singleStep =>
      simp only [hmode, following] at hn
      omega
  · simpa only [hm, following] using hn

theorem Settled.not_fault (h : x.Settled p) (cause : Error) : x.status ≠ .fault cause := by
  intro hs
  have hn := h.not_broken
  rw [hs] at hn
  cases hn

/-- A line leaves the run in its program. -/
theorem Outcome.program_eq {σ : Type} {s : StepResult σ} (h : Outcome x p s) :
    s.execution.program = x.program := by
  cases h with
  | moved _ hp => exact hp
  | faulted _ he => rw [he, fail]
  | moving _ he | calling _ _ he => rw [he]

variable {σ : Type} [MotionService σ]

theorem fatal_of_follow (hl : x.OnLine p) (hs : x.status = .running) {effect : Effect} {arm : σ}
    {cause : Error} (h : (x.follow p effect arm).execution.status = .fault cause) :
    cause.isFatal = true := by
  unfold follow at h
  cases hf : effect.flow with
  | next =>
    rw [hf] at h
    exact absurd h ((hl.settled_moveOn hs).not_fault cause)
  | jump label =>
    rw [hf] at h
    cases hj : p.findLabel label with
    | none =>
      simp only [hj] at h
      cases h
      rfl
    | some i =>
      have hm : (({ x with next := i } : Execution).moveOn p).Settled p :=
        settled_moveOn_of_lt hs rfl (findLabel_lt hj)
      simp only [hj] at h
      exact absurd h (hm.not_fault cause)
  | move m =>
    rw [hf] at h
    cases h
  | call target =>
    rw [hf] at h
    cases hk : target.link with
    | none =>
      simp only [hk] at h
      cases h
      rfl
    | some ref =>
      simp only [hk] at h
      cases h

/-- A line that breaks a run off does so by a transfer of control. -/
theorem fatal_of_step (hl : x.OnLine p) (hs : x.status = .running) {c : Context} {arm : σ}
    {cause : Error} (h : (x.step p c arm).execution.status = .fault cause) :
    cause.isFatal = true := by
  have hmove : (x.moveOn p).status ≠ .fault cause := (hl.settled_moveOn hs).not_fault cause
  have hstep := stepped x p c arm
  generalize x.step p c arm = s at hstep h
  cases hstep with
  | stopped hstopped => exact absurd hs hstopped
  | lost _ hi =>
    obtain ⟨i, hline⟩ := hl.exists_instruction
    exact absurd (hi.symm.trans hline) nofun
  | passed | skipped => exact absurd h hmove
  | followed => exact fatal_of_follow hl hs h
  | broken _ _ _ _ hfatal =>
    cases h
    exact hfatal

end Execution

namespace Device

variable {σ : Type} {d d' d'' : Device σ}

/-- The program of the run is in the library. -/
def Equipped (d : Device σ) : Prop :=
  ∀ x, d.execution = some x → (d.library.get? x.program.index).isSome

/-- The device stays equipped, and if it is broken off it was so before, or a transfer of control
failed. -/
structure Blames (d d' : Device σ) : Prop where
  equipped : d'.Equipped
  fault : ∀ cause, d'.status? = some (.fault cause) →
    d.status? = some (.fault cause) ∨ cause.isFatal = true

theorem equipped_of_run {x : Execution} (hx : d.execution = some x)
    (hp : (d.library.get? x.program.index).isSome) : d.Equipped := by
  intro y hy
  obtain rfl := Option.some.inj (hx.symm.trans hy)
  exact hp

/-- A caller goes on in its own program. -/
theorem returned_not_fault (frame : ReturnFrame) (q : Program) :
    (returned frame q).program = frame.program ∧
      ∀ cause, (returned frame q).status ≠ .fault cause := by
  unfold returned
  split_ifs with hend
  · exact ⟨rfl, by rintro cause ⟨⟩⟩
  · rw [Execution.start_of_lt _ _ (by omega)]
    exact ⟨rfl, by rintro cause ⟨⟩⟩
  · rw [Execution.paused, Execution.start_of_lt _ _ (by omega)]
    exact ⟨rfl, by rintro cause ⟨⟩⟩

namespace Blames

theorem trans (h : d.Blames d') (h' : d'.Blames d'') : d.Blames d'' := by
  refine ⟨h'.equipped, fun cause hs => ?_⟩
  rcases h'.fault cause hs with hs | hf
  · exact h.fault cause hs
  · exact Or.inr hf

theorem of_same (he : d.Equipped) (hl : d'.library = d.library) (hx : d'.execution = d.execution) :
    d.Blames d' := by
  constructor
  · rwa [Equipped, hl, hx]
  · intro cause hs
    rw [status?, hx] at hs
    exact Or.inl hs

theorem refl (he : d.Equipped) : d.Blames d := of_same he rfl rfl

/-- A run that is not broken off blames nothing. -/
theorem of_run {x : Execution} (hx : d'.execution = some x)
    (hp : (d'.library.get? x.program.index).isSome) (hs : ∀ cause, x.status ≠ .fault cause) :
    d.Blames d' := by
  refine ⟨equipped_of_run hx hp, fun cause hf => ?_⟩
  rw [status?, hx] at hf
  exact absurd (Option.some.inj hf) (hs cause)

theorem of_fatal (he : d'.Equipped) {cause : Error} (hc : cause.isFatal = true)
    (hs : ∀ status, d'.status? = some status → status = .fault cause) : d.Blames d' := by
  refine ⟨he, fun cause' hf => Or.inr ?_⟩
  cases hs _ hf
  exact hc

theorem fail (he : d.Equipped) {cause : Error} (hc : cause.isFatal = true) :
    d.Blames (d.fail cause).1 := by
  refine of_fatal ?_ hc fun status hs => ?_
  · intro y hy
    rw [execution_fail] at hy
    obtain ⟨x, hx, rfl⟩ := Option.map_eq_some_iff.mp hy
    rw [library_fail]
    exact he x hx
  · rw [status?_fail] at hs
    obtain ⟨-, -, rfl⟩ := Option.map_eq_some_iff.mp hs
    rfl

theorem of_begun {name : String} (h : d'.Begun d'' name) : d.Blames d'' := by
  obtain ⟨hlibrary, x, p, hx, hp, -, -, hs⟩ := h
  refine of_run hx ?_ fun cause hf => ?_
  · rw [hlibrary, hp]
    rfl
  · rw [hf] at hs
    split at hs <;> cases hs

theorem resumeAfterCall {side : Side} (h : d.Sound side) (he : d.Equipped) :
    d.Blames d.resumeAfterCall := by
  unfold Device.resumeAfterCall
  split
  · exact refl he
  · next x hx =>
    split
    · exact refl he
    · next p hp =>
      unfold Execution.resumeAfterCall
      split_ifs with hs
      · have hl := h.onLine hx hp (by simp [hs, Status.isTerminal])
        have hm := (hl.withStatus .running).settled_moveOn rfl
        exact of_run rfl (by simp [hp]) hm.not_fault
      · rw [← hx]
        exact refl he

variable [MotionService σ]

theorem afterLine {side : Side} (h : d.Sound side) (registers : RegisterBank) {x : Execution}
    {p : Program} (hx : d.execution = some x) (hp : d.library.get? x.program.index = some p)
    (hs : x.status = .running) : d.Blames (d.afterLine (d.lineResult registers x p)) := by
  have hl := h.onLine hx hp (by simp [hs, Status.isTerminal])
  have hprogram := (h.lineOutcome registers hx hp hs).program_eq
  refine ⟨equipped_of_run rfl ?_, fun cause hf => Or.inr ?_⟩
  · rw [hprogram, Device.afterLine, hp]
    rfl
  · exact Execution.fatal_of_step hl hs (Option.some.inj hf)

/-- The turn of an equipped device. -/
theorem tick {side : Side} (h : d.Sound side) (he : d.Equipped) (registers : RegisterBank) :
    d.Blames (d.tick registers).device := by
  have ht := d.ticked registers
  generalize d.tick registers = t at ht ⊢
  cases ht with
  | reported | unstarted | waiting | stopped | returnedOver => exact of_same he rfl rfl
  | lost _ hx hp =>
    have hpresent := he _ hx
    rw [hp] at hpresent
    cases hpresent
  | faulted _ hx hp hs =>
    have hline := afterLine h registers hx hp hs
    rw [dropCallChain_eq]
    exact ⟨hline.equipped, hline.fault⟩
  | advanced _ hx hp hs | calledOver _ hx hp hs => exact afterLine h registers hx hp hs
  | @calledHere x p target ref _ _ _ _ _ _ _ hr called hd mode =>
    obtain ⟨-, q, hq, -⟩ := Library.link_of_resolve hr
    have hpresent : called.library.get? ref.index = some q := by
      rw [hd]
      exact hq
    exact of_begun (begun_begin hpresent (by simp [hd]) mode)
  | refused _ hx hp hs _ _ _ hr =>
    have hline := afterLine h registers hx hp hs
    rw [Library.unresolved_of_resolve hr]
    exact hline.trans (fail hline.equipped rfl)
  | @polled x p handle _ hx hp hs =>
    have hl := h.onLine hx hp (by simp [hs, Status.isTerminal])
    rcases Execution.advance_cases hs d.arm (p := p) with hadv | hadv
    · exact of_run rfl (by simp [hadv, hp]) (by simp [hadv, hs])
    · have hm := (hl.withStatus .running).settled_moveOn rfl
      exact of_run rfl (by simp [hadv, hp]) (hadv ▸ hm.not_fault)
  | @returnLost x p frame rest _ _ _ _ hr hd hn =>
    have hpresent := h.present frame (by simp [hr]) (hd.trans h.id_eq)
    rw [hn] at hpresent
    cases hpresent
  | @returnedHere x p q frame rest _ _ _ _ hr hd hq =>
    obtain ⟨hprogram, hfault⟩ := returned_not_fault frame q
    exact of_run rfl (by rw [hprogram, hq]; rfl) hfault

end Blames

theorem Sound.equipped {side : Side} (h : d.Sound side) {x : Execution} (hx : d.execution = some x)
    (hs : x.status.isTerminal = false) : d.Equipped := by
  obtain ⟨p, hp, -⟩ := h.runs (isBusy_of_running hx hs) x hx
  exact equipped_of_run hx (by rw [hp]; rfl)

/-- Where a run in progress stands. -/
theorem Sound.inBounds {side : Side} (h : d.Sound side) {x : Execution} (hx : d.execution = some x)
    (hs : x.status.isTerminal = false) :
    ∃ p, d.library.get? x.program.index = some p ∧ x.InBounds p := by
  obtain ⟨p, hp, -⟩ := h.runs (isBusy_of_running hx hs) x hx
  exact ⟨p, hp, (h.onLine hx hp hs).inBounds⟩

end Device

namespace Cell

variable {σ : Type} [MotionService σ] {c : Cell σ}

/-- The turn of either device. -/
theorem Sound.blames_tickSide (hc : c.Sound) (s : Side) {t : Side} (ht : (c.get t).Equipped) :
    (c.get t).Blames ((c.tickSide s).1.get t) := by
  refine hc.forall_tickSide s (P := fun t d => (c.get t).Equipped → (c.get t).Blames d)
    ?_ ?_ ?_ ?_ ?_ ?_ t ht
  · exact fun he => .tick (hc s) he c.registers
  · intro cause hcause he
    have hown := Device.Blames.tick (hc s) he c.registers
    exact hown.trans (.fail hown.equipped hcause)
  · exact .refl
  · intro target frame d trace htaken _
    exact .of_begun (Device.begun_of_acceptCall htaken)
  · exact fun cause hcause he => .fail he hcause
  · exact .resumeAfterCall (hc s.other)

/-- Pointers of runs in progress never leave their programs, however a cell is operated. A run in
progress is broken off in a tick by a transfer of control alone, and by no error of an instruction. -/
theorem Reachable.pointers_inBounds (h : c.Reachable) :
    (∀ s x, (c.get s).execution = some x → x.status.isTerminal = false →
      ∃ p, (c.get s).library.get? x.program.index = some p ∧ x.InBounds p) ∧
    (∀ s x, (c.get s).execution = some x → x.status.isTerminal = false → ∀ cause,
      ((c.tickSide .first).1.get s).status? = some (.fault cause) ∨
        (c.tick.1.get s).status? = some (.fault cause) → cause.Transfer) ∧
    ∀ (i : Instruction) (context : Context) (table : PositionTable) (e : Error),
      i.execute context table = .error e → e.isFatal = false := by
  have hc := h.sound
  refine ⟨fun s x hx hs => (hc s).inBounds hx hs, fun s x hx hs cause hf => ?_,
    fun i context table => i.execute_fails context table⟩
  have hfirst := hc.blames_tickSide .first ((hc s).equipped hx hs)
  have hboth : (c.get s).Blames (c.tick.1.get s) :=
    hfirst.trans ((hc.move (.tick .first)).blames_tickSide .second hfirst.equipped)
  -- The run was in progress before the tick, so it was not broken off then.
  have hsound : (c.get s).status? ≠ some (.fault cause) := by
    intro hbroken
    rw [Device.status?, hx, Option.map_some, Option.some.injEq] at hbroken
    rw [hbroken] at hs
    cases hs
  have hfatal : cause.isFatal = true := by
    rcases hf with hf | hf
    · exact (hfirst.fault cause hf).resolve_left hsound
    · exact (hboth.fault cause hf).resolve_left hsound
  exact Error.transfer_of_isFatal hfatal

/-- The first device waits for `WORK` on the second one, which comes to a jump without a label. -/
def jumpsNowhere : Cell InstantArm :=
  (build (.ofSizes 0 0 0) ⟨[.written "MAIN" [.call { program := "WORK", device := 1 }]]⟩
    ⟨[.written "WORK" [.blank, .jump 7]]⟩ fun _ => {}).1.operate [.start 0 "MAIN" .full 0, .tick]

theorem pointers_inBounds_jumpsNowhere :
    (∃ p, jumpsNowhere.first.library.get? 0 = some p ∧
      (⟨⟨0, 0⟩, 0, 1, .full, .awaitingCall⟩ : Execution).InBounds p) ∧
    jumpsNowhere.tick.1.second.status? = some (.fault (.unresolvedLabel 7)) ∧
      Error.Transfer (.unresolvedLabel 7) := by
  have hc : jumpsNowhere.Reachable := ⟨_, _, _, _, _, rfl⟩
  obtain ⟨hbounds, hfaults, -⟩ := Reachable.pointers_inBounds hc
  have hbroken : jumpsNowhere.tick.1.second.status? = some (.fault (.unresolvedLabel 7)) := by decide
  refine ⟨hbounds .first ⟨⟨0, 0⟩, 0, 1, .full, .awaitingCall⟩ (by decide) rfl, hbroken, ?_⟩
  exact hfaults .second ⟨⟨1, 0⟩, 1, 2, .full, .running⟩ (by decide) rfl _ (Or.inr hbroken)

end Cell

end TeachPendant
