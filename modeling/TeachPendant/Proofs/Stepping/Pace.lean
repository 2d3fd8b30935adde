import TeachPendant.Proofs.Stepping.Full

namespace TeachPendant

def ReturnFrame.paced (f : ReturnFrame) : ReturnFrame := { f with mode := .singleStep }

namespace Execution

/-- A full run made in steps; if it is running it may be held on its line. -/
def paced (held : Bool) (x : Execution) : Execution :=
  { x with
    mode := .singleStep
    status := if held ∧ x.status = .running then .done .stepped else x.status }

theorem paced_of_not_running {x : Execution} (h : x.status ≠ .running) (held : Bool) :
    x.paced held = { x with mode := .singleStep } := by
  simp [paced, h]

@[simp] theorem paced_false (x : Execution) : x.paced false = { x with mode := .singleStep } := by
  simp [paced]

theorem start_paced (ref : ProgramRef) (p : Program) (i : Nat) :
    (start ref p .full i).paced false = start ref p .singleStep i := by
  unfold start
  split_ifs <;> simp [following]

theorem finished_paced (ref : ProgramRef) (p : Program) (held : Bool) :
    (finished ref p .full).paced held = finished ref p .singleStep := by
  simp [finished, paced]

theorem paused_paced (ref : ProgramRef) {p : Program} {i : Nat} (h : i < p.length) :
    (start ref p .full i).paced true = paused ref p .singleStep i := by
  have hi : ¬ p.length ≤ i := by omega
  simp [start, paused, paced, hi, following]

theorem moveOn_paced {x : Execution} (hm : x.mode = .full) (hs : x.status = .running)
    (p : Program) : ({ x with mode := .singleStep } : Execution).moveOn p =
      (x.moveOn p).paced true := by
  unfold moveOn
  by_cases hend : x.next = p.length
  · simp [hend, paced]
  · by_cases hout : x.next < 0 ∨ (p.length : Int) < x.next
    · simp [hend, hout, hm, paced, fail]
    · simp [hend, hout, hm, hs, paced, following]

variable {σ : Type} [MotionService σ]

theorem follow_paced {x : Execution} (hm : x.mode = .full) (hs : x.status = .running) (p : Program)
    (effect : Effect) (arm : σ) :
    ({ x with mode := .singleStep } : Execution).follow p effect arm =
      { x.follow p effect arm with execution := (x.follow p effect arm).execution.paced true } := by
  unfold follow
  cases effect.flow with
  | next => simp [moveOn_paced hm hs]
  | jump label =>
    cases hl : p.findLabel label with
    | none => simp [hl, fail, paced]
    | some i =>
      have hj := moveOn_paced (x := { x with next := i }) hm hs p
      simp [hl, hj]
  | move m => simp [paced]
  | call target => cases hk : target.link <;> simp [hk, fail, paced]

/-- A line does the same in either mode; afterwards the run in steps is held. -/
theorem step_paced {x : Execution} (hm : x.mode = .full) (hs : x.status = .running) (p : Program)
    (c : Context) (arm : σ) :
    ({ x with mode := .singleStep } : Execution).step p c arm =
      { x.step p c arm with execution := (x.step p c arm).execution.paced true } := by
  have hmove := moveOn_paced hm hs p
  simp only [hs] at hmove
  unfold step
  cases hi : p.instruction? x.current with
  | none => simp [hs, fail, paced]
  | some i =>
    cases he : i.execute c p.positions with
    | ok effect =>
      have hfollow := follow_paced hm hs p effect arm
      simp only [hs] at hfollow
      simp [hs, hm, he, hfollow]
    | error e =>
      by_cases hf : e.isFatal
      · simp [hs, hm, he, hf, fail, paced]
      · simp [hs, hm, he, hf, hmove]

theorem advance_paced {x : Execution} (hm : x.mode = .full) {handle : Nat}
    (hs : x.status = .awaitingMotion handle) (p : Program) (arm : σ) :
    ({ x with mode := .singleStep } : Execution).advance p arm =
      ((x.advance p arm).1.paced true, (x.advance p arm).2.1, (x.advance p arm).2.2) := by
  have hmove := moveOn_paced (x := { x with status := .running }) hm rfl p
  unfold advance
  cases hc : (MotionService.poll arm handle).2 <;> simp [hs, hc, hmove, paced]

end Execution

def DeviceEvent.paced : DeviceEvent → DeviceEvent
  | .crossCall target frame => .crossCall target frame.paced
  | .returned frame => .returned frame.paced
  | .callFailed caller reason => .callFailed caller reason
  | .idle => .idle
  | .busy => .busy

namespace Device

variable {σ : Type}

def paced (held : Bool) (d : Device σ) : Device σ :=
  { d with
    execution := d.execution.map (·.paced held)
    returnStack := d.returnStack.map (·.paced) }

theorem paced_of_not_running {d : Device σ} (h : d.status? ≠ some .running) (b b' : Bool) :
    d.paced b = d.paced b' := by
  unfold paced
  cases hx : d.execution with
  | none => rfl
  | some x =>
    have hn : x.status ≠ .running := by simpa [status?, hx] using h
    simp [Execution.paced_of_not_running hn]

theorem dropCallChain_paced (d : Device σ) (reason : String) (held : Bool) :
    (d.paced held).dropCallChain reason = (d.dropCallChain reason).paced held := by
  have hcaller : (d.paced held).caller? = d.caller?.map (·.paced) :=
    foreign?_map (·.paced) (fun _ => rfl) d.id d.returnStack
  rw [dropCallChain_eq, dropCallChain_eq, hcaller]
  cases d.caller? <;> rfl

theorem fail_paced (d : Device σ) (cause : Error) (b b' : Bool) :
    (d.paced b).fail cause = ((d.fail cause).1.paced b', (d.fail cause).2) := by
  have hrun : (d.paced b).execution.map (fun x => x.fail cause) =
      (d.execution.map fun x => x.fail cause).map (·.paced b') := by
    cases hx : d.execution <;> simp [paced, hx, Execution.fail, Execution.paced]
  have hfailed : ({ d.paced b with
      execution := (d.paced b).execution.map fun x => x.fail cause } : Device σ) =
      ({ d with execution := d.execution.map fun x => x.fail cause } : Device σ).paced b' := by
    rw [hrun]
    rfl
  rw [fail, hfailed, dropCallChain_paced]
  rfl

theorem begin_paced {d : Device σ} {ref : ProgramRef} {p : Program}
    (hp : d.library.get? ref.index = some p) (i : Nat) (held : Bool) :
    (d.paced held).begin ref .singleStep i =
      ((d.begin ref .full i).1.paced false, (d.begin ref .full i).2) := by
  have hlib : (d.paced held).library.get? ref.index = some p := hp
  have hstack : (d.paced held).returnStack.isEmpty = d.returnStack.isEmpty := by
    simp [paced]
  unfold begin
  simp only [hp, hlib, hstack]
  split_ifs
  · rw [← Execution.finished_paced ref p false]
    rfl
  · rw [← Execution.start_paced]
    rfl

theorem returned_paced {frame : ReturnFrame} (hm : frame.mode = .full) (p : Program) :
    returned frame.paced p = (returned frame p).paced true := by
  unfold returned
  by_cases hend : p.length ≤ frame.resumeAt
  · simp [hend, ReturnFrame.paced, hm, Execution.finished_paced]
  · simp [hend, ReturnFrame.paced, hm, Execution.paused_paced frame.program (Nat.lt_of_not_le hend)]

end Device

def TickResult.paced {σ : Type} (held : Bool) (t : TickResult σ) : TickResult σ :=
  { t with device := t.device.paced held, event := t.event.paced }

namespace Device

variable {σ : Type}

theorem resumeAfterCall_paced {d : Device σ} (h : d.Full) (hs : d.status? = some .awaitingCall) :
    (d.paced false).resumeAfterCall = d.resumeAfterCall.paced true := by
  obtain ⟨x, hx, hxs⟩ := Option.map_eq_some_iff.mp hs
  obtain ⟨hfull, hp⟩ := h.run x hx
  obtain ⟨p, hp⟩ := Option.isSome_iff_exists.mp hp
  have hmove := Execution.moveOn_paced (x := { x with status := .running }) hfull.mode rfl p
  have hrun : (d.paced false).execution = some { x with mode := .singleStep } := by
    simp [paced, hx]
  have hlib : (d.paced false).library.get? x.program.index = some p := hp
  unfold resumeAfterCall
  simp only [hrun, hx, hp, hlib, Execution.resumeAfterCall, hxs, if_true, hmove]
  rfl

theorem acceptCall_paced (d : Device σ) (target : CallTarget) {f : ReturnFrame}
    (hf : f.mode = .full) :
    (d.paced false).acceptCall target f.paced =
      (d.acceptCall target f).map fun (d', trace) => (d'.paced false, trace) := by
  have hbusy : (d.paced false).isBusy = d.isBusy := by
    cases hx : d.execution <;> simp [isBusy, isActive, status?, paced, hx]
  unfold acceptCall
  rw [hbusy]
  split_ifs
  · rfl
  · have hlib : (d.paced false).library = d.library := rfl
    rw [hlib]
    cases hr : d.library.resolve target with
    | error e => rfl
    | ok ref =>
      obtain ⟨-, p, hp, -⟩ := Library.link_of_resolve hr
      have hbegin := begin_paced (d := { d with returnStack := f :: d.returnStack }) hp 0 false
      simp only [Except.map, hf]
      rw [← hbegin]
      rfl

theorem dispatchCall_paced (d : Device σ) {x : Execution} (hm : x.mode = .full)
    (target : CallTarget) :
    ∃ b, (d.paced true).dispatchCall (x.paced true) target =
      ((d.dispatchCall x target).1.paced b, (d.dispatchCall x target).2.1.paced,
        (d.dispatchCall x target).2.2) := by
  unfold dispatchCall
  dsimp only
  have hid : (d.paced true).id = d.id := rfl
  have hlib : (d.paced true).library = d.library := rfl
  rw [hid, hlib]
  by_cases hd : target.device = d.id
  · rw [if_neg (by simpa using hd), if_neg (by simpa using hd)]
    cases hr : d.library.resolve target with
    | error e =>
      refine ⟨true, ?_⟩
      simp only [fail_paced d e true true]
      rfl
    | ok ref =>
      obtain ⟨-, p, hp, -⟩ := Library.link_of_resolve hr
      have hbegin := begin_paced
        (d := { d with returnStack := ⟨d.id, x.program, x.current + 1, x.mode⟩ :: d.returnStack })
        hp 0 true
      refine ⟨false, ?_⟩
      simp only [hm] at hbegin ⊢
      exact congrArg (fun r => (r.1, DeviceEvent.busy, r.2)) hbegin
  · rw [if_pos hd, if_pos hd]
    exact ⟨true, rfl⟩

theorem returnFromCall_paced {d : Device σ} (h : d.Full) :
    ∃ b, (d.paced false).returnFromCall =
      (d.returnFromCall.1.paced b, d.returnFromCall.2.1.paced, d.returnFromCall.2.2) := by
  cases hr : d.returnStack with
  | nil =>
    have hrp : (d.paced false).returnStack = [] := by simp [paced, hr]
    exact ⟨false, by simp [returnFromCall, hr, hrp, DeviceEvent.paced]⟩
  | cons frame rest =>
    have hrp : (d.paced false).returnStack = frame.paced :: rest.map (·.paced) := by
      simp [paced, hr]
    have hid : (d.paced false).id = d.id := rfl
    have hlib : (d.paced false).library = d.library := rfl
    unfold returnFromCall
    simp only [hr, hrp, hid, hlib]
    by_cases hd : frame.device = d.id
    · have hdp : frame.paced.device = d.id := hd
      rw [if_neg (by simpa using hdp), if_neg (by simpa using hd)]
      have hprogram : frame.paced.program = frame.program := rfl
      rw [hprogram]
      cases d.library.get? frame.program.index with
      | none =>
        refine ⟨true, ?_⟩
        have hfail := fail_paced ({ d with returnStack := rest } : Device σ)
          (.outside "program" frame.program.index d.library.length) false true
        exact congrArg (fun r => (r.1, DeviceEvent.idle, r.2)) hfail
      | some p =>
        refine ⟨true, ?_⟩
        dsimp only
        rw [returned_paced (h.frames frame (by simp [hr]))]
        rfl
    · rw [if_pos (show frame.paced.device ≠ d.id from hd), if_pos hd]
      exact ⟨false, rfl⟩

variable [MotionService σ]

theorem tickRunning_paced {d : Device σ} {x : Execution} (hx : x.Full) (hs : x.status = .running)
    (p : Program) (registers : RegisterBank) :
    ∃ b, (d.paced false).tickRunning registers { x with mode := .singleStep } p =
      (d.tickRunning registers x p).paced b := by
  have hline : (d.paced false).lineResult registers { x with mode := .singleStep } p =
      { d.lineResult registers x p with
        execution := (d.lineResult registers x p).execution.paced true } :=
    Execution.step_paced hx.mode hs p _ d.arm
  have hmode : (d.lineResult registers x p).execution.mode = .full := (hx.step p _ _).1.mode
  have hafter : (d.paced false).afterLine
      { d.lineResult registers x p with
        execution := (d.lineResult registers x p).execution.paced true } =
      (d.afterLine (d.lineResult registers x p)).paced true := rfl
  by_cases hf : ∃ cause, (d.lineResult registers x p).execution.status = .fault cause
  · obtain ⟨cause, hf⟩ := hf
    have hfp : ((d.paced false).lineResult registers { x with mode := .singleStep } p).execution.status =
        .fault cause := by
      rw [hline]
      simp [Execution.paced, hf]
    refine ⟨true, ?_⟩
    rw [tickRunning_of_fault hf, tickRunning_of_fault hfp, hline, hafter, dropCallChain_paced]
    rfl
  · have hf (cause : Error) : (d.lineResult registers x p).execution.status ≠ .fault cause :=
      fun h => hf ⟨cause, h⟩
    have hfp (cause : Error) :
        ((d.paced false).lineResult registers { x with mode := .singleStep } p).execution.status ≠
          .fault cause := by
      rw [hline]
      unfold Execution.paced
      dsimp only
      split_ifs
      · nofun
      · exact hf cause
    rw [tickRunning_of_ok hf, tickRunning_of_ok hfp, hline, hafter]
    dsimp only
    cases (d.lineResult registers x p).call with
    | none => exact ⟨true, rfl⟩
    | some target =>
      obtain ⟨b, hb⟩ := dispatchCall_paced (d.afterLine (d.lineResult registers x p)) hmode target
      refine ⟨b, ?_⟩
      dsimp only
      rw [hb]
      rfl

/-- A full run and a run in steps do the same in a tick, as long as the latter is not held. -/
theorem tick_paced {d : Device σ} (h : d.Full) (registers : RegisterBank) :
    ∃ b, (d.paced false).tick registers = (d.tick registers).paced b := by
  have hquiet : (d.paced false).abandoned = d.abandoned := rfl
  have hlib : (d.paced false).library = d.library := rfl
  unfold tick
  rw [hquiet, hlib]
  cases d.abandoned with
  | some report => exact ⟨false, rfl⟩
  | none =>
    cases hx : d.execution with
    | none =>
      have hxp : (d.paced false).execution = none := by simp [paced, hx]
      rw [hxp]
      exact ⟨false, rfl⟩
    | some x =>
      have hxp : (d.paced false).execution = some { x with mode := .singleStep } := by
        simp [paced, hx]
      obtain ⟨hfull, hp⟩ := h.run x hx
      obtain ⟨p, hp⟩ := Option.isSome_iff_exists.mp hp
      simp only [hxp, hp]
      cases hs : x.status with
      | running =>
        obtain ⟨b, hb⟩ := tickRunning_paced (d := d) hfull hs p registers
        simp only [hs] at hb
        exact ⟨b, hb⟩
      | awaitingMotion handle =>
        have harm : (d.paced false).arm = d.arm := rfl
        have hadvance := Execution.advance_paced hfull.mode hs p d.arm
        simp only [hs] at hadvance
        refine ⟨true, ?_⟩
        dsimp only
        rw [harm, hadvance]
        rfl
      | awaitingCall => exact ⟨false, rfl⟩
      | fault cause => exact ⟨false, rfl⟩
      | done reason =>
        cases reason with
        | stepped | halted => exact ⟨false, rfl⟩
        | endOfProgram =>
          obtain ⟨b, hb⟩ := returnFromCall_paced h
          refine ⟨b, ?_⟩
          dsimp only
          rw [hb]
          rfl

end Device

end TeachPendant
