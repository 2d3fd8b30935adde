import TeachPendant.Arm.Instant
import TeachPendant.Proofs.Cell.Exchange
import TeachPendant.Proofs.Cell.Tick
import TeachPendant.Proofs.Linking.Calls

namespace TeachPendant

namespace Execution

/-- Waiting for the call of its current line. -/
def awaiting (x : Execution) : Execution := { x with status := .awaitingCall }

@[simp] theorem fail_awaiting (x : Execution) (cause : Error) :
    x.awaiting.fail cause = x.fail cause := rfl

variable {σ : Type} [MotionService σ] {x : Execution} {p : Program} {c : Context}
  {target : CallTarget}

theorem step_unlinked (h : x.call? p c = some target) (hk : target.link = none) (arm : σ) :
    (x.step p c arm).execution = x.fail (.unresolvedCall target.program target.device) := by
  obtain ⟨effect, hf, hstep⟩ := step_of_call? h arm
  simp only [hstep, follow, hf, hk]

theorem step_linked (h : x.call? p c = some target) (hk : target.link ≠ none) (arm : σ) :
    (x.step p c arm).execution = x.awaiting ∧ (x.step p c arm).call = some target := by
  obtain ⟨effect, hf, hstep⟩ := step_of_call? h arm
  obtain ⟨ref, hk⟩ := Option.ne_none_iff_exists'.mp hk
  refine ⟨by simp only [hstep, follow, hf, hk, awaiting], ?_⟩
  rw [call_step, h]
  simp [Option.filter, hk]

end Execution

namespace Device

variable {σ : Type}

/-- A program of this name begins on its first line; an empty one is over at once. -/
structure Begun (d d' : Device σ) (name : String) : Prop where
  library : d'.library = d.library
  program : ∃ x p, d'.execution = some x ∧ d.library.get? x.program.index = some p ∧
    p.name = name ∧ x.current = 0 ∧ x.status = if p.isEmpty then .done .endOfProgram else .running

theorem Begun.of_library {d d' d'' : Device σ} {name : String} (h : d'.Begun d'' name)
    (hl : d'.library = d.library) : d.Begun d'' name where
  library := h.library.trans hl
  program := by
    rw [← hl]
    exact h.program

theorem begun_begin {d : Device σ} {ref : ProgramRef} {p : Program}
    (hp : d.library.get? ref.index = some p) (hs : d.returnStack ≠ []) (mode : RunMode) :
    d.Begun (d.begin ref mode 0).1 p.name := by
  refine ⟨library_begin d ref mode 0, ?_⟩
  rw [begin_of_some hp]
  cases he : p.isEmpty with
  | true =>
    have hlength : p.length = 0 := by simpa [Program.isEmpty, Program.length] using he
    exact ⟨.finished ref p mode, p, by simp [hs], hp, rfl, hlength,
      by simp [he, Execution.finished]⟩
  | false =>
    have hlength : 0 < p.length := by
      simpa [Program.isEmpty, Program.length, List.length_pos_iff] using he
    refine ⟨.start ref p mode 0, p, by simp, ?_⟩
    rw [Execution.start_of_lt ref mode hlength]
    exact ⟨hp, rfl, rfl, by simp [he]⟩

/-- A called program begins with its caller on the return stack. -/
theorem begun_push {d : Device σ} {ref : ProgramRef} {p : Program}
    (hp : d.library.get? ref.index = some p) (frame : ReturnFrame) (mode : RunMode) :
    d.Begun (({ d with returnStack := frame :: d.returnStack } : Device σ).begin ref mode 0).1
      p.name := by
  have hpushed := begun_begin (d := { d with returnStack := frame :: d.returnStack }) hp
    (List.cons_ne_nil frame d.returnStack) mode
  exact hpushed.of_library rfl

theorem begun_of_acceptCall {d d' : Device σ} {target : CallTarget} {frame : ReturnFrame}
    {trace : Trace} (h : d.acceptCall target frame = .ok (d', trace)) :
    d.Begun d' target.program := by
  obtain ⟨-, ref, p, -, hp, hname, rfl⟩ := of_acceptCall h
  rw [← hname]
  exact begun_push hp frame frame.mode

theorem dispatchCall_over {d : Device σ} {target : CallTarget} (h : target.device ≠ d.id)
    (x : Execution) : d.dispatchCall x target = (d, .crossCall target (x.callFrame d.id), []) := by
  rw [dispatchCall, if_pos h]
  rfl

theorem dispatchCall_begun {d : Device σ} {target : CallTarget} {ref : ProgramRef}
    (h : target.device = d.id) (hr : d.library.resolve target = .ok ref) (x : Execution) :
    d.Begun (d.dispatchCall x target).1 target.program ∧ (d.dispatchCall x target).2.1 = .busy := by
  obtain ⟨-, p, hp, hname⟩ := Library.link_of_resolve hr
  simp only [dispatchCall, h, ne_eq, not_true_eq_false, if_false, hr, and_true]
  rw [← hname]
  exact begun_push hp _ x.mode

theorem dispatchCall_refused {d : Device σ} {target : CallTarget} {e : Error}
    (h : target.device = d.id) (hr : d.library.resolve target = .error e) (x : Execution) :
    (d.dispatchCall x target).1 = (d.fail e).1 ∧ (d.dispatchCall x target).2.1 = .idle := by
  simp only [dispatchCall, h, ne_eq, not_true_eq_false, if_false, hr, and_self]

variable [MotionService σ]

/-- The call that a device makes in its next turn, with a link or without. A device that has a
failure to report does not come to its line in that turn. -/
def nextCall? (d : Device σ) (registers : RegisterBank) : Option CallTarget :=
  match d.abandoned, d.execution with
  | none, some x =>
    match d.library.get? x.program.index with
    | some p => x.call? p ⟨registers, d.frames, MotionService.pose d.arm, d.id⟩
    | none => none
  | _, _ => none

variable {d : Device σ} {registers : RegisterBank} {target : CallTarget}

theorem tick_of_nextCall? (h : d.nextCall? registers = some target) :
    ∃ x p, d.execution = some x ∧ d.tick registers = d.tickRunning registers x p ∧
      x.call? p ⟨registers, d.frames, MotionService.pose d.arm, d.id⟩ = some target := by
  unfold nextCall? at h
  split at h
  · next x quiet hx =>
    cases hp : d.library.get? x.program.index with
    | none => simp [hp] at h
    | some p =>
      simp only [hp] at h
      refine ⟨x, p, hx, ?_, h⟩
      simp only [tick, quiet, hx, hp, (Execution.of_call? h).1]
  · cases h

/-- A call without a link is a fault at once. -/
theorem tick_of_unlinked (h : d.nextCall? registers = some target) (hk : target.link = none) :
    (d.tick registers).event = .busy ∧ (d.tick registers).device.execution =
      d.execution.map (·.fail (.unresolvedCall target.program target.device)) := by
  obtain ⟨x, p, hx, htick, hcall⟩ := tick_of_nextCall? h
  have hline : (d.lineResult registers x p).execution =
      x.fail (.unresolvedCall target.program target.device) :=
    Execution.step_unlinked hcall hk d.arm
  have hfault : (d.lineResult registers x p).execution.status =
      .fault (.unresolvedCall target.program target.device) := by
    rw [hline]
    rfl
  rw [htick, tickRunning_of_fault hfault, hx, dropCallChain_eq]
  exact ⟨rfl, congrArg some hline⟩

/-- A call with a link is dispatched, and the caller waits. -/
theorem tick_of_linked (h : d.nextCall? registers = some target) (hk : target.link ≠ none) :
    ∃ (x : Execution) (d' : Device σ), d.execution = some x ∧ d'.id = d.id ∧
      d'.library = d.library ∧ d'.execution = some x.awaiting ∧
      (d.tick registers).device = (d'.dispatchCall x.awaiting target).1 ∧
      (d.tick registers).event = (d'.dispatchCall x.awaiting target).2.1 := by
  obtain ⟨x, p, hx, htick, hcall⟩ := tick_of_nextCall? h
  obtain ⟨hrun, htarget⟩ := Execution.step_linked hcall hk d.arm
  have hrun : (d.lineResult registers x p).execution = x.awaiting := hrun
  have htarget : (d.lineResult registers x p).call = some target := htarget
  have hok (cause : Error) : (d.lineResult registers x p).execution.status ≠ .fault cause := by
    rw [hrun]
    nofun
  refine ⟨x, d.afterLine (d.lineResult registers x p), hx, rfl, rfl, congrArg some hrun, ?_⟩
  rw [htick, tickRunning_of_ok hok, htarget, hrun]
  exact ⟨rfl, rfl⟩

end Device

namespace Cell

variable {σ : Type}

/-- Why a call is not taken: its link does not lead to the program that it names, or the other
device is busy. -/
inductive Refusal (c : Cell σ) (s : Side) (target : CallTarget) : Error → Prop
  | unresolved (stale : ∀ r : Side, target.device = r.id →
      ∀ ref, (c.get r).library.resolve target ≠ .ok ref) :
      Refusal c s target (.unresolvedCall target.program target.device)
  | busy (device : target.device = s.other.id) (busy : (c.get s.other).isBusy = true) :
      Refusal c s target (.busy s.other.id)

/-- What the turn that leads from `c` to `c'` makes of a call of the device on side `s`. -/
inductive CallOutcome (c c' : Cell σ) (s : Side) (target : CallTarget) : Prop
  | begunHere (device : target.device = s.id) (begun : (c.get s).Begun (c'.get s) target.program)
      (other : c'.get s.other = c.get s.other)
  | begunOver (device : target.device = s.other.id)
      (begun : (c.get s.other).Begun (c'.get s.other) target.program)
      (waits : (c'.get s).execution = (c.get s).execution.map (·.awaiting))
  | refused (cause : Error) (refusal : c.Refusal s target cause)
      (fault : (c'.get s).execution = (c.get s).execution.map (·.fail cause))
      (other : c'.get s.other = c.get s.other)

section Outcome

variable {c c₁ : Cell σ} {s : Side} {target : CallTarget} {x : Execution}

theorem Refusal.of_resolve {r : Side} (hr : target.device = r.id) {e : Error}
    (h : (c.get r).library.resolve target = .error e) : c.Refusal s target e := by
  rw [Library.unresolved_of_resolve h]
  refine .unresolved fun r' hr' ref hok => ?_
  obtain rfl : r' = r := Side.id_injective (hr'.symm.trans hr)
  exact absurd (h.symm.trans hok) nofun

/-- The caller, which waits by then, is failed. -/
theorem outcome_failSide (hx : (c.get s).execution = some x)
    (hw : (c₁.get s).execution = some x.awaiting)
    (ho : c₁.get s.other = c.get s.other) {cause : Error} (h : c.Refusal s target cause) :
    c.CallOutcome (c₁.failSide s cause).1 s target := by
  refine .refused cause h ?_ ?_
  · simp only [failSide, get_put, Device.execution_fail, hw, hx, Option.map_some,
      Execution.fail_awaiting]
  · simp only [failSide, get_put_other, ho]

theorem outcome_routeCall (hc : c.Sound) (hx : (c.get s).execution = some x)
    (hw : (c₁.get s).execution = some x.awaiting)
    (ho : c₁.get s.other = c.get s.other) (hd : target.device ≠ s.id) (frame : ReturnFrame) :
    c.CallOutcome (c₁.routeCall s target frame).1 s target := by
  cases hcallee : Side.ofId? target.device with
  | none =>
    simp only [routeCall, hcallee]
    refine outcome_failSide hx hw ho (.unresolved fun r hr => ?_)
    rw [hr, Side.ofId?_id] at hcallee
    cases hcallee
  | some callee =>
    obtain rfl := Side.eq_other_of_ofId? hcallee hd
    have hdevice := Side.eq_of_ofId? hcallee
    cases ha : (c₁.get s.other).acceptCall target frame with
    | ok accepted =>
      simp only [routeCall, hcallee, ha]
      have hbegun := Device.begun_of_acceptCall ha
      rw [ho] at hbegun
      refine .begunOver hdevice ?_ ?_
      · rwa [get_put]
      · rw [get_other_put, hw, hx]
        rfl
    | error e =>
      simp only [routeCall, hcallee, ha]
      refine outcome_failSide hx hw ho ?_
      rw [ho] at ha
      rcases Device.of_acceptCall_error ha with ⟨hbusy, rfl⟩ | hr
      · rw [(hc s.other).id_eq]
        exact .busy hdevice hbusy
      · exact .of_resolve hdevice hr

/-- A call of the device to itself. -/
theorem outcome_dispatchCall {d : Device σ} (registers : RegisterBank)
    (hx : (c.get s).execution = some x) (hl : d.library = (c.get s).library)
    (hw : d.execution = some x.awaiting) (hid : target.device = d.id) (hd : target.device = s.id) :
    c.CallOutcome
      (({ c.put s (d.dispatchCall x.awaiting target).1 with registers } : Cell σ).route s
        (d.dispatchCall x.awaiting target).2.1).1 s target := by
  cases hr : d.library.resolve target with
  | ok ref =>
    obtain ⟨hbegun, hbusy⟩ := Device.dispatchCall_begun hid hr x.awaiting
    rw [hbusy]
    refine .begunHere hd ?_ ?_
    · simpa [route] using hbegun.of_library hl
    · simp [route]
  | error e =>
    obtain ⟨hfailed, hidle⟩ := Device.dispatchCall_refused hid hr x.awaiting
    rw [hidle, hfailed]
    rw [hl] at hr
    refine .refused e (.of_resolve hd hr) ?_ ?_
    · simp [route, hw, hx]
    · simp [route]

end Outcome

variable [MotionService σ] {c : Cell σ} {s : Side} {target : CallTarget}

theorem Sound.outcome_tickSide (hc : c.Sound) (h : (c.get s).nextCall? c.registers = some target) :
    c.CallOutcome (c.tickSide s).1 s target := by
  unfold tickSide
  dsimp only
  cases hk : target.link with
  | none =>
    obtain ⟨hevent, hfault⟩ := Device.tick_of_unlinked h hk
    rw [hevent]
    have hnowhere : c.Refusal s target (.unresolvedCall target.program target.device) := by
      refine .unresolved fun r hr ref hok => ?_
      rw [(Library.link_of_resolve hok).1] at hk
      cases hk
    refine .refused _ hnowhere ?_ ?_
    · simpa [route] using hfault
    · simp [route]
  | some ref =>
    obtain ⟨x, d, hx, hid, hl, hw, hturn, hevent⟩ :=
      Device.tick_of_linked h (by simp [hk])
    have hid : d.id = s.id := hid.trans (hc s).id_eq
    rw [hevent, hturn]
    by_cases hd : target.device = s.id
    · exact outcome_dispatchCall _ hx hl hw (hd.trans hid.symm) hd
    · have hover : target.device ≠ d.id := by rwa [hid]
      rw [Device.dispatchCall_over hover]
      exact outcome_routeCall hc hx (by simpa using hw) (by simp) hd _

/-- However stale the links are, in every state that can be reached, and between the two turns of a
tick too, a call begins the program that it names, or no program begins and the caller fails. -/
theorem Reachable.callOutcome (h : c.Reachable) (ms : List (Move σ))
    (hcall : ((ms.foldl move c).get s).nextCall? (ms.foldl move c).registers = some target) :
    (ms.foldl move c).CallOutcome ((ms.foldl move c).move (.tick s)) s target := by
  have hs := foldl_move_of_invariant (P := Sound) (fun _ m hc => hc.move m) h.sound ms
  exact hs.outcome_tickSide hcall

/-- The link of the call leads to the place of `OTHER`, which was put in front of `WORK` later. -/
def shiftedCallee : Cell InstantArm :=
  (build (.ofSizes 0 0 0) ⟨[.written "MAIN" [.call { program := "WORK", device := 1 }]]⟩
    ⟨[.written "WORK" [.blank]]⟩ fun _ => {}).1.operate
      [.edit 1 fun l => ⟨.written "OTHER" [.blank] :: l.programs⟩, .start 0 "MAIN" .full 0]

theorem callOutcome_shiftedCallee :
    let target : CallTarget := { program := "WORK", device := 1, link := some ⟨1, 0⟩ }
    (shiftedCallee.get .first).nextCall? shiftedCallee.registers = some target ∧
      shiftedCallee.CallOutcome (shiftedCallee.move (.tick .first)) .first target ∧
      (shiftedCallee.move (.tick .first)).first.status? =
        some (.fault (.unresolvedCall "WORK" 1)) := by
  intro target
  have hreachable : shiftedCallee.Reachable := ⟨_, _, _, _, _, rfl⟩
  have hcall : (shiftedCallee.get .first).nextCall? shiftedCallee.registers = some target := by
    decide
  exact ⟨hcall, Reachable.callOutcome hreachable [] hcall, by decide⟩

end Cell

end TeachPendant
