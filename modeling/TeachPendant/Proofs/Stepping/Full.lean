import TeachPendant.Proofs.Cell.Sound

namespace TeachPendant

namespace Execution

/-- A run of full mode, which does not pause. -/
structure Full (x : Execution) : Prop where
  mode : x.mode = .full
  unpaused : x.status ≠ .done .stepped

/-- Full runs stay full. -/
theorem Full.moveOn {x : Execution} (h : x.Full) (p : Program) : (x.moveOn p).Full := by
  refine ⟨by rw [moveOn_mode, h.mode], ?_⟩
  unfold Execution.moveOn
  split_ifs
  · nofun
  · nofun
  · exact h.unpaused
  · exact absurd h.mode ‹_›

theorem Full.withStatus {x : Execution} (h : x.Full) {s : Status} (hs : s ≠ .done .stepped) :
    ({ x with status := s } : Execution).Full := ⟨h.mode, hs⟩

variable {σ : Type} [MotionService σ]

theorem Full.follow {x : Execution} (h : x.Full) (p : Program) (effect : Effect) (arm : σ) :
    (x.follow p effect arm).execution.Full ∧
      (x.follow p effect arm).execution.program = x.program := by
  have hfail (e : Error) : (x.fail e).Full := h.withStatus nofun
  have hcall : ({ x with status := .awaitingCall } : Execution).Full := h.withStatus nofun
  unfold Execution.follow
  cases effect.flow with
  | next => exact ⟨h.moveOn p, moveOn_program x p⟩
  | jump label =>
    cases hl : p.findLabel label with
    | none => exact ⟨by simpa [hl] using hfail _, by simp [hl, fail]⟩
    | some i =>
      have hj : ({ x with next := i } : Execution).Full := ⟨h.mode, h.unpaused⟩
      exact ⟨by simpa [hl] using hj.moveOn p, by simp [hl]⟩
  | move m => exact ⟨h.withStatus nofun, rfl⟩
  | call target =>
    cases hk : target.link with
    | none => exact ⟨by simpa [hk] using hfail _, by simp [hk, fail]⟩
    | some ref => exact ⟨by simpa [hk] using hcall, by simp [hk]⟩

theorem Full.step {x : Execution} (h : x.Full) (p : Program) (c : Context) (arm : σ) :
    (x.step p c arm).execution.Full ∧ (x.step p c arm).execution.program = x.program := by
  have hfail (e : Error) : (x.fail e).Full ∧ (x.fail e).program = x.program :=
    ⟨h.withStatus nofun, rfl⟩
  have hmove : (x.moveOn p).Full ∧ (x.moveOn p).program = x.program :=
    ⟨h.moveOn p, moveOn_program x p⟩
  have hstep := stepped x p c arm
  generalize x.step p c arm = s at hstep ⊢
  cases hstep with
  | stopped => exact ⟨h, rfl⟩
  | lost | broken => exact hfail _
  | passed | skipped => exact hmove
  | followed => exact h.follow p _ arm

theorem Full.advance {x : Execution} (h : x.Full) (p : Program) (arm : σ) :
    (x.advance p arm).1.Full ∧ (x.advance p arm).1.program = x.program := by
  have hmove (s : Status) (hs : s ≠ .done .stepped) :
      (({ x with status := s } : Execution).moveOn p).Full ∧
        (({ x with status := s } : Execution).moveOn p).program = x.program :=
    ⟨(h.withStatus hs).moveOn p, moveOn_program _ p⟩
  unfold Execution.advance
  split
  · exact ⟨h, rfl⟩
  · exact ⟨h, rfl⟩
  · exact ⟨h, rfl⟩
  · dsimp only
    split_ifs
    · exact hmove .running nofun
    · exact ⟨h, rfl⟩
  · exact ⟨h.moveOn p, moveOn_program x p⟩

theorem Full.of_start (ref : ProgramRef) (p : Program) (i : Nat) : (start ref p .full i).Full := by
  unfold start
  split_ifs <;> exact ⟨rfl, nofun⟩

theorem Full.of_finished (ref : ProgramRef) (p : Program) : (finished ref p .full).Full :=
  ⟨rfl, nofun⟩

end Execution

namespace Device

variable {σ : Type}

structure Full (d : Device σ) : Prop where
  run : ∀ x, d.execution = some x → x.Full ∧ (d.library.get? x.program.index).isSome
  frames : ∀ f ∈ d.returnStack, f.mode = .full

namespace Full

variable {d : Device σ}

theorem withRun (h : d.Full) {x : Execution} (hx : x.Full)
    (hp : (d.library.get? x.program.index).isSome) (frames : Frames) (arm : σ) :
    ({ d with execution := some x, frames := frames, arm := arm } : Device σ).Full := by
  refine ⟨fun y hy => ?_, h.frames⟩
  cases hy
  exact ⟨hx, hp⟩

theorem push (h : d.Full) {f : ReturnFrame} (hf : f.mode = .full) :
    ({ d with returnStack := f :: d.returnStack } : Device σ).Full := by
  refine ⟨h.run, fun g hg => ?_⟩
  rcases List.mem_cons.mp hg with rfl | hg
  · exact hf
  · exact h.frames g hg

theorem pop (h : d.Full) {f : ReturnFrame} {rest : List ReturnFrame}
    (hs : d.returnStack = f :: rest) :
    ({ d with returnStack := rest } : Device σ).Full :=
  ⟨h.run, fun g hg => h.frames g (by simp [hs, hg])⟩

theorem dropCallChain (h : d.Full) (reason : String) : (d.dropCallChain reason).Full := by
  rw [dropCallChain_eq]
  exact ⟨h.run, by simp⟩

theorem fail (h : d.Full) (cause : Error) : (d.fail cause).1.Full := by
  have hfailed : ({ d with execution := d.execution.map fun x => x.fail cause } : Device σ).Full := by
    refine ⟨fun y hy => ?_, h.frames⟩
    obtain ⟨x, hx, rfl⟩ := Option.map_eq_some_iff.mp hy
    exact ⟨(h.run x hx).1.withStatus nofun, (h.run x hx).2⟩
  exact hfailed.dropCallChain _

theorem begin_full (h : d.Full) {ref : ProgramRef} {p : Program}
    (hp : d.library.get? ref.index = some p) (i : Nat) : (d.begin ref .full i).1.Full := by
  rw [begin_of_some hp]
  split_ifs
  · exact h.withRun (.of_finished ref p) (by simp [Execution.finished, hp]) d.frames d.arm
  · refine h.withRun (.of_start ref p i) ?_ d.frames d.arm
    unfold Execution.start
    split_ifs <;> simp [hp]

theorem acceptCall (h : d.Full) {d' : Device σ} {target : CallTarget} {f : ReturnFrame}
    (hf : f.mode = .full) {trace : Trace} (ha : d.acceptCall target f = .ok (d', trace)) :
    d'.Full := by
  obtain ⟨-, ref, p, -, hp, -, rfl⟩ := of_acceptCall ha
  rw [hf]
  exact (h.push hf).begin_full hp 0

theorem resumeAfterCall (h : d.Full) : d.resumeAfterCall.Full := by
  unfold Device.resumeAfterCall
  split
  · exact h
  · next x hx =>
    split
    · exact h
    · next p hp =>
      unfold Execution.resumeAfterCall
      split_ifs
      · have hfull := ((h.run x hx).1.withStatus (s := .running) nofun).moveOn p
        exact h.withRun hfull (by simp [hp]) d.frames d.arm
      · rw [← hx]
        exact h

theorem returned {frame : ReturnFrame} (hf : frame.mode = .full) (p : Program) :
    (returned frame p).Full ∧ (Device.returned frame p).program = frame.program := by
  unfold Device.returned
  rw [hf, if_pos rfl]
  split_ifs
  · exact ⟨.of_finished frame.program p, rfl⟩
  · refine ⟨.of_start frame.program p frame.resumeAt, ?_⟩
    unfold Execution.start
    split_ifs
    rfl

variable [MotionService σ]

theorem afterLine (h : d.Full) (registers : RegisterBank) {x : Execution} {p : Program}
    (hx : d.execution = some x) (hp : d.library.get? x.program.index = some p) :
    (d.afterLine (d.lineResult registers x p)).Full := by
  obtain ⟨hfull, hprogram⟩ := (h.run x hx).1.step p
    ⟨registers, d.frames, MotionService.pose d.arm, d.id⟩ d.arm
  exact h.withRun hfull (by rw [hprogram, hp]; rfl) _ _

/-- A tick of a device keeps its runs full, and so are the calls that it makes. -/
theorem tick (h : d.Full) (registers : RegisterBank) :
    (d.tick registers).device.Full ∧
      ∀ target frame, (d.tick registers).event = .crossCall target frame → frame.mode = .full := by
  have ht := d.ticked registers
  generalize d.tick registers = t at ht ⊢
  have hmode {x : Execution} {p : Program} (hx : d.execution = some x) :
      (d.lineResult registers x p).execution.mode = .full :=
    ((h.run x hx).1.step p ⟨registers, d.frames, MotionService.pose d.arm, d.id⟩ d.arm).1.mode
  cases ht with
  | reported => exact ⟨⟨h.run, h.frames⟩, nofun⟩
  | unstarted | waiting | stopped => exact ⟨h, nofun⟩
  | lost => exact ⟨h.fail _, nofun⟩
  | faulted _ hx hp => exact ⟨(h.afterLine registers hx hp).dropCallChain _, nofun⟩
  | advanced _ hx hp => exact ⟨h.afterLine registers hx hp, nofun⟩
  | @calledOver x p target _ hx hp =>
    refine ⟨h.afterLine registers hx hp, ?_⟩
    rintro _ _ ⟨rfl, rfl⟩
    exact hmode hx
  | @calledHere x p target ref _ hx hp _ _ _ _ hr called hd mode hm =>
    obtain ⟨-, q, hq, -⟩ := Library.link_of_resolve hr
    rw [hm, hmode hx, hd]
    exact ⟨((h.afterLine registers hx hp).push (hmode hx)).begin_full hq 0, nofun⟩
  | refused _ hx hp => exact ⟨(h.afterLine registers hx hp).fail _, nofun⟩
  | @polled x p handle _ hx hp =>
    obtain ⟨hfull, hprogram⟩ := (h.run x hx).1.advance p d.arm
    exact ⟨h.withRun hfull (by rw [hprogram, hp]; rfl) _ _, nofun⟩
  | returnedOver _ _ _ _ hs => exact ⟨h.pop hs, nofun⟩
  | returnLost _ _ _ _ hs => exact ⟨(h.pop hs).fail _, nofun⟩
  | @returnedHere x p q frame rest _ _ _ _ hs _ hq =>
    obtain ⟨hfull, hprogram⟩ := returned (h.frames frame (by simp [hs])) q
    exact ⟨(h.pop hs).withRun hfull (by rw [hprogram, hq]; rfl) _ _, nofun⟩

end Full

end Device

end TeachPendant
