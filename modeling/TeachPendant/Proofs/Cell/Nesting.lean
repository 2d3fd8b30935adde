import TeachPendant.Arm.Instant
import TeachPendant.Proofs.Cell.Turn
import TeachPendant.Proofs.Linking.CallOutcome

namespace TeachPendant

namespace Execution

/-- A run that is done, in another mode than backward, has run past the last line. -/
def AtEnd (x : Execution) (p : Program) : Prop :=
  x.status = .done .endOfProgram → x.mode ≠ .backward → x.next = p.length

/-- A later state of the same run of the program `p`. -/
structure Later (x : Execution) (p : Program) (y : Execution) : Prop where
  program : y.program = x.program
  mode : y.mode = x.mode
  atEnd : y.AtEnd p

theorem atEnd_of_ne {x : Execution} (p : Program) (h : x.status ≠ .done .endOfProgram) :
    x.AtEnd p := fun hs => absurd hs h

theorem atEnd_finished (ref : ProgramRef) (p : Program) (mode : RunMode) :
    (finished ref p mode).AtEnd p := fun _ _ => rfl

theorem atEnd_start (ref : ProgramRef) (p : Program) (mode : RunMode) (i : Nat) :
    (start ref p mode i).AtEnd p := by
  apply atEnd_of_ne
  unfold start
  split_ifs <;> nofun

section Later

variable {x : Execution} {p : Program}

theorem later_withStatus (x : Execution) (p : Program) {status : Status}
    (h : status ≠ .done .endOfProgram) : x.Later p { x with status := status } :=
  ⟨rfl, rfl, atEnd_of_ne p h⟩

theorem later_moveOn (h : x.status ≠ .done .endOfProgram) : x.Later p (x.moveOn p) := by
  refine ⟨moveOn_program x p, moveOn_mode x p, ?_⟩
  unfold moveOn
  split_ifs with hend
  · rintro - hmode
    exact hend.resolve_right fun hb => hmode hb.2
  · exact atEnd_of_ne p nofun
  · exact atEnd_of_ne p h
  · exact atEnd_of_ne p nofun

variable {σ : Type} [MotionService σ]

theorem later_follow (h : x.status ≠ .done .endOfProgram) (effect : Effect) (arm : σ) :
    x.Later p (x.follow p effect arm).execution := by
  unfold follow
  cases effect.flow with
  | next => exact later_moveOn h
  | jump label =>
    dsimp only
    split
    · next i _ =>
      have hm := later_moveOn (x := { x with next := (i : Int) }) (p := p) h
      exact ⟨hm.program, hm.mode, hm.atEnd⟩
    · exact later_withStatus x p nofun
  | move m => exact later_withStatus x p nofun
  | call target =>
    dsimp only
    split <;> exact later_withStatus x p nofun

theorem later_step (h : x.status = .running) (c : Context) (arm : σ) :
    x.Later p (x.step p c arm).execution := by
  have hne : x.status ≠ .done .endOfProgram := by
    rw [h]
    rintro ⟨⟩
  have hstep := stepped x p c arm
  generalize x.step p c arm = s at hstep ⊢
  cases hstep with
  | stopped hstopped => exact absurd h hstopped
  | lost | broken => exact later_withStatus x p (by rintro ⟨⟩)
  | passed | skipped => exact later_moveOn hne
  | followed => exact later_follow hne _ arm

theorem later_advance {handle : Nat} (h : x.status = .awaitingMotion handle) (arm : σ) :
    x.Later p (x.advance p arm).1 := by
  rcases advance_cases h arm (p := p) with he | he
  · rw [he]
    exact ⟨rfl, rfl, atEnd_of_ne p (by rw [h]; nofun)⟩
  · rw [he]
    have hm := later_moveOn (x := { x with status := .running }) (p := p) nofun
    exact ⟨hm.program, hm.mode, hm.atEnd⟩

end Later

/-- Backward only motions are run, so no call is made. -/
theorem mode_of_call? {x : Execution} {p : Program} {c : Context} {target : CallTarget}
    (h : x.call? p c = some target) : x.mode ≠ .backward := by
  intro hm
  obtain ⟨-, ⟨action, commented⟩, effect, -, hb, he, hf⟩ := of_call? h
  have hmotion : (Instruction.mk action commented).isMotion = true := by
    simpa [hm] using hb
  cases action with
  | motion m =>
    simp only [Instruction.execute, Action.execute, bind, Except.bind] at he
    split_ifs at he
    · cases he
      cases hf
    · split at he <;> cases he
      cases hf
  | _ => cases hmotion

end Execution

/-- A call that a device makes to itself: the run that makes it, what was on the return stack by
then, the program that it begins, and the library of the time. -/
structure OwnCall where
  device : UInt8
  caller : Execution
  below : List ReturnFrame
  callee : ProgramRef
  library : Library

/-- Where the call comes back to. -/
def OwnCall.frame (k : OwnCall) : ReturnFrame := k.caller.callFrame k.device

namespace Device

variable {σ : Type}

/-- The call is under way: `inner` are the calls made since that have not come back yet. -/
structure Inside (d : Device σ) (k : OwnCall) (inner : List ReturnFrame) (y : Execution) : Prop where
  execution : d.execution = some y
  stack : d.returnStack = inner ++ k.frame :: k.below
  /-- The lowest of the programs above the frame of the call is the one that was called. -/
  callee : (y.program :: inner.map (·.program)).getLast? = some k.callee
  mode : y.mode = k.caller.mode
  modes : ∀ f ∈ inner, f.mode = k.caller.mode
  atEnd : ∀ p, d.library.get? y.program.index = some p → y.AtEnd p
  lengths : ∀ i, (d.library.get? i).map (·.length) = (k.library.get? i).map (·.length)

/-- The call comes back. The program it called has run past its end, with no other call open; the
stack is what it was before, and the caller goes on behind the line of the call in its old mode. -/
structure ComesBack (d d' : Device σ) (k : OwnCall) : Prop where
  stack : d.returnStack = k.frame :: k.below
  callee : ∃ y p, d.execution = some y ∧ y.program = k.callee ∧
    d.library.get? k.callee.index = some p ∧ y.status = .done .endOfProgram ∧ y.next = p.length
  restored : d'.returnStack = k.below
  caller : ∃ z p, d'.execution = some z ∧ z.program = k.caller.program ∧ z.mode = k.caller.mode ∧
    k.library.get? k.caller.program.index = some p ∧
    if p.length ≤ k.caller.current + 1 then z.status = .done .endOfProgram
    else z.current = k.caller.current + 1 ∧
      z.status = if k.caller.mode = .full then .running else .done .stepped

/-- Halted or failed, with all frames gone. -/
def BrokenOff (d : Device σ) : Prop :=
  d.returnStack = [] ∧ ∃ status, d.status? = some status ∧ status.broken = true

/-- In its next turn the device makes a call to itself that is taken. -/
structure CallsItself [MotionService σ] (d : Device σ) (registers : RegisterBank)
    (k : OwnCall) : Prop where
  device : k.device = d.id
  execution : d.execution = some k.caller
  below : k.below = d.returnStack
  library : k.library = d.library
  call : ∃ target, d.nextCall? registers = some target ∧ target.device = d.id ∧
    d.library.resolve target = .ok k.callee

theorem brokenOff_fail {d : Device σ} {x : Execution} (h : d.execution = some x) (cause : Error) :
    (d.fail cause).1.BrokenOff :=
  ⟨returnStack_fail d cause, .fault cause, by rw [status?_fail, status?, h]; rfl, rfl⟩

theorem BrokenOff.fail {d : Device σ} (h : d.BrokenOff) (cause : Error) :
    (d.fail cause).1.BrokenOff := by
  obtain ⟨-, status, hs, -⟩ := h
  obtain ⟨x, hx, -⟩ := Option.map_eq_some_iff.mp hs
  exact brokenOff_fail hx cause

theorem brokenOff_halt [MotionService σ] {d : Device σ} {x : Execution}
    (h : d.execution = some x) : d.halt.1.BrokenOff := by
  have hx : (x.halt d.arm).1.status = .done .halted := by
    unfold Execution.halt
    split <;> rfl
  simp only [Device.halt, h, dropCallChain_eq]
  exact ⟨rfl, .done .halted, congrArg some hx, rfl⟩

/-- A run that has just begun. -/
theorem begin_run {d : Device σ} {ref : ProgramRef} {p : Program}
    (hp : d.library.get? ref.index = some p) (mode : RunMode) (i : Nat) :
    ∃ y, (d.begin ref mode i).1 = { d with execution := some y } ∧ y.program = ref ∧
      y.mode = mode ∧ y.AtEnd p := by
  refine ⟨_, begin_of_some hp mode i, ?_⟩
  split_ifs
  · exact ⟨rfl, rfl, Execution.atEnd_finished ref p mode⟩
  · refine ⟨?_, ?_, Execution.atEnd_start ref p mode i⟩ <;>
      (unfold Execution.start; split_ifs <;> rfl)

/-- The run to which a call comes back. -/
theorem returned_run (frame : ReturnFrame) (q : Program) :
    (returned frame q).program = frame.program ∧ (returned frame q).mode = frame.mode ∧
      (returned frame q).AtEnd q ∧
      if q.length ≤ frame.resumeAt then (returned frame q).status = .done .endOfProgram
      else (returned frame q).current = frame.resumeAt ∧
        (returned frame q).status = if frame.mode = .full then .running else .done .stepped := by
  unfold returned
  split_ifs with hend hmode
  · exact ⟨rfl, rfl, Execution.atEnd_finished _ _ _, rfl⟩
  · rw [Execution.start_of_lt _ _ (by omega)]
    exact ⟨rfl, rfl, Execution.atEnd_of_ne q (by rintro ⟨⟩), rfl, rfl⟩
  · rw [Execution.paused, Execution.start_of_lt _ _ (by omega)]
    exact ⟨rfl, rfl, Execution.atEnd_of_ne q (by rintro ⟨⟩), rfl, rfl⟩

namespace Inside

variable {d : Device σ} {k : OwnCall} {inner : List ReturnFrame} {y : Execution}

theorem suffix (h : d.Inside k inner y) : k.frame :: k.below <:+ d.returnStack :=
  ⟨inner, h.stack.symm⟩

theorem isBusy (h : d.Inside k inner y) : d.isBusy = true := by
  have hs : d.returnStack ≠ [] := by simp [h.stack]
  simp [Device.isBusy, hs]

/-- The run goes on. -/
theorem later (h : d.Inside k inner y) {p : Program}
    (hp : d.library.get? y.program.index = some p) {z : Execution} (hz : y.Later p z)
    (frames : Frames) (arm : σ) :
    ({ d with execution := some z, frames := frames, arm := arm } : Device σ).Inside k inner z where
  execution := rfl
  stack := h.stack
  callee := by rw [hz.program]; exact h.callee
  mode := hz.mode.trans h.mode
  modes := h.modes
  atEnd := by
    intro q hq
    rw [hz.program, hp] at hq
    exact Option.some.inj hq ▸ hz.atEnd
  lengths := h.lengths

theorem relink (h : d.Inside k inner y) (f : CallTarget → CallTarget) :
    ({ d with library := d.library.mapCalls f } : Device σ).Inside k inner y where
  execution := h.execution
  stack := h.stack
  callee := h.callee
  mode := h.mode
  modes := h.modes
  atEnd := by
    intro q hq
    obtain ⟨p, hp, rfl⟩ := Option.map_eq_some_iff.mp ((Library.get?_mapCalls _ _ _).symm.trans hq)
    have he := h.atEnd p hp
    unfold Execution.AtEnd at he ⊢
    rwa [Program.length_mapCalls]
  lengths := by
    intro i
    rw [← h.lengths i, Library.get?_mapCalls, Option.map_map]
    congr 1
    funext p
    exact p.length_mapCalls f

/-- The run begins anew on the line it stands on. -/
theorem resume (h : d.Inside k inner y) {d' : Device σ} {trace : Trace}
    (hr : d.resume = .ok (d', trace)) : ∃ z, d'.Inside k inner z := by
  obtain rfl | ⟨x, p, hx, -, hp, rfl⟩ := of_resume hr
  · exact ⟨y, h⟩
  · obtain rfl := Option.some.inj (h.execution.symm.trans hx)
    obtain ⟨z, hz, hprogram, hmode, hend⟩ := begin_run hp y.mode y.current
    exact ⟨z, hz ▸ h.later hp ⟨hprogram, hmode, hend⟩ d.frames d.arm⟩

theorem resumeAfterCall (h : d.Inside k inner y) : ∃ z, d.resumeAfterCall.Inside k inner z := by
  cases hp : d.library.get? y.program.index with
  | none => exact ⟨y, by simpa only [Device.resumeAfterCall, h.execution, hp] using h⟩
  | some p =>
    simp only [Device.resumeAfterCall, h.execution, hp, Execution.resumeAfterCall]
    split_ifs with hw
    · have hm := Execution.later_moveOn (x := { y with status := .running }) (p := p) (by rintro ⟨⟩)
      exact ⟨_, h.later hp ⟨hm.program, hm.mode, hm.atEnd⟩ d.frames d.arm⟩
    · exact ⟨y, h.later hp ⟨rfl, rfl, h.atEnd p hp⟩ d.frames d.arm⟩

/-- Another call is made. -/
theorem push (h : d.Inside k inner y) {frame : ReturnFrame} (hf : frame.program = y.program)
    (hm : frame.mode = k.caller.mode) {ref : ProgramRef} {p : Program}
    (hp : d.library.get? ref.index = some p) (i : Nat) :
    ∃ z, (({ d with returnStack := frame :: d.returnStack } : Device σ).begin ref frame.mode i).1.Inside
      k (frame :: inner) z := by
  obtain ⟨z, hz, hprogram, hmode, hend⟩ :=
    begin_run (d := { d with returnStack := frame :: d.returnStack }) hp frame.mode i
  rw [hz]
  refine ⟨z, rfl, ?_, ?_, hmode.trans hm, ?_, ?_, h.lengths⟩
  · rw [h.stack]
    rfl
  · rw [List.map_cons, List.getLast?_cons_cons, hf]
    exact h.callee
  · rintro g hg
    rcases List.mem_cons.mp hg with rfl | hg
    · exact hm
    · exact h.modes g hg
  · intro q hq
    rw [hprogram, hp] at hq
    exact Option.some.inj hq ▸ hend

/-- The innermost call comes back. -/
theorem pop {frame : ReturnFrame} (h : d.Inside k (frame :: inner) y) {q : Program}
    (hq : d.library.get? frame.program.index = some q) :
    ({ d with returnStack := inner ++ k.frame :: k.below, execution := some (returned frame q) } :
      Device σ).Inside k inner (returned frame q) := by
  obtain ⟨hprogram, hmode, hend, -⟩ := returned_run frame q
  obtain ⟨hm, hms⟩ := List.forall_mem_cons.mp h.modes
  refine ⟨rfl, rfl, ?_, hmode.trans hm, hms, ?_, h.lengths⟩
  · rw [hprogram]
    have hc := h.callee
    rwa [List.map_cons, List.getLast?_cons_cons] at hc
  · intro p hp
    rw [hprogram, hq] at hp
    exact Option.some.inj hp ▸ hend

theorem comesBack (h : d.Inside k [] y) (hm : k.caller.mode ≠ .backward) {p q : Program}
    (hp : d.library.get? y.program.index = some p) (hs : y.status = .done .endOfProgram)
    (hq : d.library.get? k.frame.program.index = some q) :
    d.ComesBack { d with returnStack := k.below, execution := some (returned k.frame q) } k := by
  have hcallee : y.program = k.callee := Option.some.inj h.callee
  obtain ⟨hprogram, hmode, -, hgoesOn⟩ := returned_run k.frame q
  have hlength := h.lengths k.caller.program.index
  rw [show d.library.get? k.caller.program.index = some q from hq, Option.map_some] at hlength
  obtain ⟨r, hr, hrl⟩ := Option.map_eq_some_iff.mp hlength.symm
  refine ⟨h.stack, ⟨y, p, h.execution, hcallee, hcallee ▸ hp, hs, ?_⟩, rfl, ?_⟩
  · exact h.atEnd p hp hs (by rw [h.mode]; exact hm)
  · refine ⟨_, r, rfl, hprogram, hmode, hr, ?_⟩
    rw [hrl]
    exact hgoesOn

variable [MotionService σ]

theorem afterLine (h : d.Inside k inner y) (registers : RegisterBank) {p : Program}
    (hp : d.library.get? y.program.index = some p) (hs : y.status = .running) :
    (d.afterLine (d.lineResult registers y p)).Inside k inner
      (d.lineResult registers y p).execution :=
  h.later hp (Execution.later_step hs _ _) _ _

/-- The turn of the device itself. -/
theorem tick {side : Side} (hd : d.Sound side) (hk : k.device = side.id)
    (hm : k.caller.mode ≠ .backward) (h : d.Inside k inner y) (registers : RegisterBank) :
    (∃ inner y, (d.tick registers).device.Inside k inner y) ∨
      d.ComesBack (d.tick registers).device k ∧ (d.tick registers).event = .busy ∨
      (d.tick registers).device.BrokenOff := by
  have ht := d.ticked registers
  generalize d.tick registers = t at ht ⊢
  have same {x : Execution} (hx : d.execution = some x) : x = y :=
    Option.some.inj (hx.symm.trans h.execution)
  cases ht with
  | reported =>
    exact Or.inl ⟨inner, y, h.execution, h.stack, h.callee, h.mode, h.modes, h.atEnd, h.lengths⟩
  | unstarted _ hx => cases hx.symm.trans h.execution
  | lost => exact Or.inr (Or.inr (brokenOff_fail h.execution _))
  | @faulted x p cause _ _ _ _ hf =>
    refine Or.inr (Or.inr ⟨by rw [dropCallChain_eq], .fault cause, ?_, rfl⟩)
    rw [dropCallChain_eq]
    exact congrArg some hf
  | advanced _ hx hp hs | calledOver _ hx hp hs =>
    obtain rfl := same hx
    exact Or.inl ⟨inner, _, h.afterLine registers hp hs⟩
  | @calledHere x p target ref _ hx hp hs _ _ _ hr called hcalled mode hmode =>
    obtain rfl := same hx
    subst hcalled hmode
    obtain ⟨-, q, hq, -⟩ := Library.link_of_resolve hr
    have hline := h.afterLine registers hp hs
    have hprogram : ((d.lineResult registers x p).execution.callFrame d.id).program =
        (d.lineResult registers x p).execution.program := rfl
    obtain ⟨z, hz⟩ := hline.push hprogram hline.mode hq 0
    exact Or.inl ⟨_, z, hz⟩
  | refused => exact Or.inr (Or.inr (brokenOff_fail rfl _))
  | polled _ hx hp hs =>
    obtain rfl := same hx
    exact Or.inl ⟨inner, _, h.later hp (Execution.later_advance hs d.arm) _ _⟩
  | waiting | stopped => exact Or.inl ⟨inner, y, h⟩
  | @returnedOver x p frame rest _ _ _ _ hstack hdevice =>
    -- A frame of the other device is the only one, and the frame of the call is not one.
    obtain ⟨-, hrest⟩ := hd.toFramed.rest_of_foreign hstack hdevice
    have hone : inner ++ k.frame :: k.below = [frame] := by rw [← h.stack, hstack, hrest]
    have hframe : k.frame ∈ [frame] := hone ▸ by simp
    rw [← List.mem_singleton.mp hframe] at hdevice
    exact absurd (hk.trans hd.id_eq.symm) hdevice
  | @returnLost x p frame rest =>
    exact Or.inr (Or.inr (brokenOff_fail (d := { d with returnStack := rest }) h.execution _))
  | @returnedHere x p q frame rest _ hx hp hs hstack _ hq =>
    obtain rfl := same hx
    rw [h.stack] at hstack
    cases inner with
    | nil =>
      obtain ⟨rfl, rfl⟩ := List.cons.inj hstack
      exact Or.inr (Or.inl ⟨h.comesBack hm hp hs hq, rfl⟩)
    | cons f inner =>
      obtain ⟨rfl, rfl⟩ := List.cons.inj hstack
      exact Or.inl ⟨inner, _, h.pop hq⟩

end Inside

theorem dispatchCall_here {d : Device σ} {target : CallTarget} {ref : ProgramRef}
    (h : target.device = d.id) (hr : d.library.resolve target = .ok ref) (x : Execution) :
    (d.dispatchCall x target).1 = (({ d with returnStack := x.callFrame d.id :: d.returnStack } :
        Device σ).begin ref x.mode 0).1 ∧ (d.dispatchCall x target).2.1 = .busy := by
  simp only [dispatchCall, h, ne_eq, not_true_eq_false, if_false, hr, and_true]
  rfl

/-- The turn in which the call is made. -/
theorem CallsItself.inside [MotionService σ] {d : Device σ} {registers : RegisterBank}
    {k : OwnCall} (h : d.CallsItself registers k) : k.caller.mode ≠ .backward ∧
      (d.tick registers).event = .busy ∧ ∃ z, (d.tick registers).device.Inside k [] z := by
  obtain ⟨target, hcall, hd, hr⟩ := h.call
  obtain ⟨x, p, hx, htick, hline⟩ := tick_of_nextCall? hcall
  obtain rfl : k.caller = x := Option.some.inj (h.execution.symm.trans hx)
  obtain ⟨hlink, q, hq, -⟩ := Library.link_of_resolve hr
  obtain ⟨hrun, htarget⟩ := Execution.step_linked hline (by simp [hlink]) d.arm
  have hrun : (d.lineResult registers k.caller p).execution = k.caller.awaiting := hrun
  have htarget : (d.lineResult registers k.caller p).call = some target := htarget
  have hok (cause : Error) :
      (d.lineResult registers k.caller p).execution.status ≠ .fault cause := by
    rw [hrun]
    nofun
  rw [htick, tickRunning_of_ok hok, htarget, hrun]
  obtain ⟨hbegun, hbusy⟩ :=
    dispatchCall_here (d := d.afterLine (d.lineResult registers k.caller p)) hd hr k.caller.awaiting
  refine ⟨Execution.mode_of_call? hline, hbusy, ?_⟩
  obtain ⟨z, hz, hprogram, hmode, hend⟩ :=
    begin_run (d := { d.afterLine (d.lineResult registers k.caller p) with
      returnStack := k.caller.awaiting.callFrame d.id :: d.returnStack }) hq k.caller.mode 0
  refine ⟨z, ?_⟩
  dsimp only
  rw [hbegun.trans hz]
  refine ⟨rfl, ?_, ?_, hmode, by simp, ?_, ?_⟩
  · rw [h.below, OwnCall.frame, h.device]
    rfl
  · exact congrArg some hprogram
  · intro r hr
    rw [hprogram] at hr
    exact Option.some.inj (hq.symm.trans hr) ▸ hend
  · intro i
    rw [h.library]
    rfl

end Device

namespace Cell

variable {σ : Type}

/-- How a call of the device `s` to itself fares while the cell is operated: as long as it neither
comes back nor is broken off, its frame and those below it stay as they are. -/
inductive CallCourse [MotionService σ] (s : Side) (k : OwnCall) : Cell σ → List (Move σ) → Prop
  | underWay {c : Cell σ} (frames : k.frame :: k.below <:+ (c.get s).returnStack) :
      CallCourse s k c []
  | goesOn {c : Cell σ} {m : Move σ} {ms : List (Move σ)}
      (frames : k.frame :: k.below <:+ (c.get s).returnStack)
      (course : CallCourse s k (c.move m) ms) : CallCourse s k c (m :: ms)
  | comesBack {c : Cell σ} {ms : List (Move σ)}
      (back : (c.get s).ComesBack ((c.move (.tick s)).get s) k) :
      CallCourse s k c (.tick s :: ms)
  | brokenOff {c : Cell σ} {m : Move σ} {ms : List (Move σ)}
      (frames : k.frame :: k.below <:+ (c.get s).returnStack)
      (broken : ((c.move m).get s).BrokenOff) : CallCourse s k c (m :: ms)

variable [MotionService σ] {c : Cell σ} {s : Side} {k : OwnCall} {inner : List ReturnFrame}
  {y : Execution}

theorem inside_tickSide (hc : c.Sound) (hk : k.device = s.id) (hm : k.caller.mode ≠ .backward)
    (h : (c.get s).Inside k inner y) :
    (∃ inner y, ((c.tickSide s).1.get s).Inside k inner y) ∨
      (c.get s).ComesBack ((c.tickSide s).1.get s) k ∨ ((c.tickSide s).1.get s).BrokenOff := by
  have hturn := h.tick (hc s) hk hm c.registers
  rcases hc.get_tickSide s with hs | ⟨target, frame, cause, he, hs⟩
  · rw [hs]
    rcases hturn with hi | ⟨hb, -⟩ | hb
    · exact Or.inl hi
    · exact Or.inr (Or.inl hb)
    · exact Or.inr (Or.inr hb)
  · rw [hs]
    refine Or.inr (Or.inr ?_)
    rcases hturn with ⟨_, z, hi⟩ | ⟨-, hbusy⟩ | hb
    · exact Device.brokenOff_fail hi.execution cause
    · cases he.symm.trans hbusy
    · exact hb.fail cause

/-- The other device can only be told that a call failed or came back; it takes no call. -/
theorem inside_tickSide_other (hc : c.Sound) (h : (c.get s).Inside k inner y) :
    (∃ inner y, ((c.tickSide s.other).1.get s).Inside k inner y) ∨
      ((c.tickSide s.other).1.get s).BrokenOff := by
  have hr := hc.reached_tickSide_other s
  generalize (c.tickSide s.other).1.get s = d at hr ⊢
  cases hr with
  | untouched => exact Or.inl ⟨inner, y, h⟩
  | called _ taken => cases h.isBusy.symm.trans (Device.of_acceptCall taken).1
  | failed _ cause => exact Or.inr (Device.brokenOff_fail h.execution cause)
  | resumed =>
    obtain ⟨z, hz⟩ := h.resumeAfterCall
    exact Or.inl ⟨inner, z, hz⟩

theorem inside_move (hc : c.Sound) (hk : k.device = s.id) (hm : k.caller.mode ≠ .backward)
    (h : (c.get s).Inside k inner y) (m : Move σ) :
    (∃ inner y, ((c.move m).get s).Inside k inner y) ∨
      m = .tick s ∧ (c.get s).ComesBack ((c.move m).get s) k ∨ ((c.move m).get s).BrokenOff := by
  have hsame : ∃ inner y, (c.get s).Inside k inner y := ⟨inner, y, h⟩
  cases m with
  | start side program mode line =>
    refine Or.inl ?_
    rcases s.eq_or_eq_other side with rfl | rfl
    · rwa [move, Device.start, if_pos h.isBusy]
    · simp only [move]
      split
      · rwa [get_other_put]
      · exact hsame
  | resume side =>
    refine Or.inl ?_
    rcases s.eq_or_eq_other side with rfl | rfl
    · simp only [move]
      split
      · next d trace hr =>
        obtain ⟨z, hz⟩ := h.resume hr
        exact ⟨inner, z, by rwa [get_put]⟩
      · exact hsame
    · simp only [move]
      split
      · rwa [get_other_put]
      · exact hsame
  | halt side =>
    rcases s.eq_or_eq_other side with rfl | rfl
    · rw [move, get_put]
      exact Or.inr (Or.inr (Device.brokenOff_halt h.execution))
    · rw [move, get_other_put]
      exact Or.inl hsame
  | relink =>
    rw [move, get_relink]
    exact Or.inl ⟨inner, y, h.relink _⟩
  | write registers =>
    rw [move, get_registers]
    exact Or.inl hsame
  | edit side change =>
    refine Or.inl ?_
    rcases s.eq_or_eq_other side with rfl | rfl
    · rwa [move, if_pos h.isBusy]
    · simp only [move]
      split_ifs
      · exact hsame
      · rwa [get_other_put]
  | drift side arm =>
    refine Or.inl ?_
    rcases s.eq_or_eq_other side with rfl | rfl
    · rw [move, get_put]
      exact ⟨inner, y, h.execution, h.stack, h.callee, h.mode, h.modes, h.atEnd, h.lengths⟩
    · rwa [move, get_other_put]
  | tick side =>
    rcases s.eq_or_eq_other side with rfl | rfl
    · rcases inside_tickSide hc hk hm h with hi | hb | hb
      · exact Or.inl hi
      · exact Or.inr (Or.inl ⟨rfl, hb⟩)
      · exact Or.inr (Or.inr hb)
    · rcases inside_tickSide_other hc h with hi | hb
      · exact Or.inl hi
      · exact Or.inr (Or.inr hb)

theorem callCourse_of_inside (hc : c.Sound) (hk : k.device = s.id)
    (hm : k.caller.mode ≠ .backward) (h : (c.get s).Inside k inner y) (ms : List (Move σ)) :
    c.CallCourse s k ms := by
  induction ms generalizing c inner y with
  | nil => exact .underWay h.suffix
  | cons m ms ih =>
    rcases inside_move hc hk hm h m with ⟨inner', y', hi⟩ | ⟨rfl, hb⟩ | hb
    · exact .goesOn h.suffix (ih (hc.move m) hi)
    · exact .comesBack hb
    · exact .brokenOff h.suffix hb

theorem inside_of_callsItself (hc : c.Sound) (h : (c.get s).CallsItself c.registers k) :
    ∃ z, ((c.tickSide s).1.get s).Inside k [] z := by
  obtain ⟨-, hbusy, hz⟩ := h.inside
  rcases hc.get_tickSide s with hs | ⟨target, frame, cause, he, -⟩
  · rwa [hs]
  · cases he.symm.trans hbusy

/-- In every state that can be reached, and between the two turns of a tick too: a call of a device
to itself lies over the frames that were there before, and keeps to its course whatever happens
next; and a device that was halted or has failed has no frame left. -/
theorem Reachable.calls_nest (h : c.Reachable) (ms : List (Move σ)) (s : Side) :
    (∀ k, ((ms.foldl move c).get s).CallsItself (ms.foldl move c).registers k →
      (((ms.foldl move c).move (.tick s)).get s).returnStack = k.frame :: k.below ∧
        ∀ later, ((ms.foldl move c).move (.tick s)).CallCourse s k later) ∧
      ∀ status, ((ms.foldl move c).get s).status? = some status → status.broken = true →
        ((ms.foldl move c).get s).returnStack = [] := by
  have hc := foldl_move_of_invariant (P := Sound) (fun _ m hc => hc.move m) h.sound ms
  constructor
  · intro k hk
    obtain ⟨z, hz⟩ := inside_of_callsItself hc hk
    have hdevice : k.device = s.id := hk.device.trans (hc s).id_eq
    exact ⟨hz.stack, callCourse_of_inside (hc.move (.tick s)) hdevice hk.inside.1 hz⟩
  · intro status hs hb
    refine Decidable.byContradiction fun hstack => ?_
    obtain ⟨x, hx, hx'⟩ := (hc s).unbroken hstack
    rw [Device.status?, hx, Option.map_some, Option.some.injEq] at hs
    cases hb.symm.trans (hs ▸ hx')

/-- `MAIN` calls `WORK` on its last line, and `WORK` calls `SUB` on its last line. -/
def calledTwice : Cell InstantArm :=
  (build (.ofSizes 0 0 0)
    ⟨[.written "MAIN" [.call { program := "WORK", device := 0 }],
      .written "WORK" [.blank, .call { program := "SUB", device := 0 }],
      .written "SUB" [.blank]]⟩ ⟨[]⟩ fun _ => {}).1.operate [.start 0 "MAIN" .singleStep 0]

/-- The call of `WORK`. -/
def calledTwiceOuter : OwnCall where
  device := 0
  caller := ⟨⟨0, 0⟩, 0, 1, .singleStep, .running⟩
  below := []
  callee := ⟨0, 1⟩
  library := (calledTwice.get .first).library

theorem calls_nest_calledTwice :
    let turns : List (Move InstantArm) :=
      [.tick .first, .resume .first, .tick .first, .tick .first, .tick .first, .tick .first]
    (calledTwice.get .first).CallsItself calledTwice.registers calledTwiceOuter ∧
      (calledTwice.move (.tick .first)).CallCourse .first calledTwiceOuter turns ∧
      ((turns.foldl move (calledTwice.move (.tick .first))).get .first).returnStack = [] ∧
      ((turns.foldl move (calledTwice.move (.tick .first))).get .first).status? =
        some (.done .endOfProgram) := by
  intro turns
  have hc : calledTwice.Reachable := ⟨_, _, _, _, _, rfl⟩
  have hcall : (calledTwice.get .first).CallsItself calledTwice.registers calledTwiceOuter := by
    exact ⟨by decide, by decide, by decide, rfl, ⟨"WORK", 0, some ⟨0, 1⟩⟩, by decide, rfl, rfl⟩
  exact ⟨hcall, ((Reachable.calls_nest hc [] .first).1 _ hcall).2 turns, by decide, by decide⟩

end Cell

end TeachPendant
