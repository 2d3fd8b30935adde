import TeachPendant.Proofs.Cell.CallProtocol

namespace TeachPendant

namespace Device

variable {σ : Type}

theorem fail_of_fault {d : Device σ} {cause : Error}
    (hx : ∀ x, d.execution = some x → x.status = .fault cause) (hs : d.returnStack = []) :
    (d.fail cause).1 = d := by
  obtain ⟨id, library, execution, stack, frames, arm, abandoned⟩ := d
  obtain rfl : stack = [] := hs
  cases execution with
  | none => rfl
  | some x =>
    have hxf : x.fail cause = x := by rw [Execution.fail, ← hx x rfl]
    simp [fail, dropCallChain_eq, caller?, hxf]

variable [MotionService σ]

/-- Ticks find nothing to do and change nothing, whatever the registers hold. -/
def Still (d : Device σ) : Prop :=
  ∀ registers, (d.tick registers).device = d ∧ (d.tick registers).registers = registers ∧
    (d.tick registers).event = .idle

theorem still_of_ended {d : Device σ} {x : Execution} {p : Program} (quiet : d.abandoned = none)
    (hx : d.execution = some x) (hp : d.library.get? x.program.index = some p)
    (hs : x.status.isTerminal = true) (hn : x.status = .done .endOfProgram → d.returnStack = []) :
    d.Still := by
  intro registers
  simp only [tick, quiet, hx, hp]
  cases he : x.status with
  | running | awaitingMotion | awaitingCall => simp [he, Status.isTerminal] at hs
  | fault => exact ⟨rfl, rfl, rfl⟩
  | done reason =>
    cases reason with
    | stepped | halted => exact ⟨rfl, rfl, rfl⟩
    | endOfProgram => simp [returnFromCall, hn he]

theorem still_fail {d : Device σ} {x : Execution} {p : Program} {cause : Error}
    (hx : d.execution = some x) (hp : d.library.get? x.program.index = some p)
    (hq : (d.fail cause).1.abandoned = none) : (d.fail cause).1.Still := by
  have hf : (d.fail cause).1.execution = some (x.fail cause) := by simp [hx]
  exact still_of_ended hq hf (by rw [library_fail]; exact hp) rfl (fun _ => returnStack_fail d cause)

/-- A device without the program it runs fails in the same way again and again. -/
theorem still_fail_lost {d : Device σ} {x : Execution} (hx : d.execution = some x)
    (hp : d.library.get? x.program.index = none)
    (hq : (d.fail (.outside "program" x.program.index d.library.length)).1.abandoned = none) :
    (d.fail (.outside "program" x.program.index d.library.length)).1.Still := by
  have hlibrary := library_fail d (.outside "program" x.program.index d.library.length)
  have hexecution := execution_fail d (.outside "program" x.program.index d.library.length)
  have hstack := returnStack_fail d (.outside "program" x.program.index d.library.length)
  rw [hx, Option.map_some] at hexecution
  generalize (d.fail (.outside "program" x.program.index d.library.length)).1 = d' at *
  have hagain : (d'.fail (.outside "program" x.program.index d.library.length)).1 = d' := by
    refine fail_of_fault (fun y hy => ?_) hstack
    rw [hexecution] at hy
    exact Option.some.inj hy ▸ rfl
  intro registers
  simp only [tick, hq, hexecution, hlibrary, Execution.fail, hp]
  exact ⟨hagain, trivial, trivial⟩

/-- A device is still after an idle tick if it has no report to give. -/
theorem still_tick {d : Device σ} {side : Side} (h : d.Sound side) {registers : RegisterBank}
    (hi : (d.tick registers).event = .idle) (hq : (d.tick registers).device.abandoned = none) :
    (d.tick registers).device.Still := by
  have ht := d.ticked registers
  generalize d.tick registers = t at ht hi hq ⊢
  cases ht with
  | reported | faulted | advanced | calledOver | calledHere | polled | returnedOver
  | returnedHere => cases hi
  | unstarted quiet hx =>
    intro bank
    simp [tick, quiet, hx]
  | lost _ hx hp => exact still_fail_lost hx hp hq
  | @refused x p target e _ hx hp hr hs hc =>
    have hprogram : (d.lineResult registers x p).execution.program = x.program := by
      cases h.lineOutcome registers hx hp hr with
      | faulted _ he =>
        rw [he]
        rfl
      | moving _ he | calling _ _ he => rw [he]
      | moved _ he => exact he
    exact still_fail (d := d.afterLine (d.lineResult registers x p)) rfl
      (by rw [hprogram]; exact hp) hq
  | waiting quiet hx hp hs =>
    intro bank
    simp [tick, quiet, hx, hp, hs]
  | returnLost _ hx hp => exact still_fail hx hp hq
  | stopped quiet hx hp hs hn => exact still_of_ended quiet hx hp hs hn

/-- An idle tick leaves a report only if a device that works for the other one was refused a call
to itself. -/
theorem report_of_idle_iff {d : Device σ} {side : Side} (h : d.Sound side)
    {registers : RegisterBank} (hi : (d.tick registers).event = .idle) :
    (d.tick registers).device.abandoned ≠ none ↔
      d.status? = some .running ∧ d.caller? ≠ none := by
  have ht := d.ticked registers
  generalize d.tick registers = t at ht hi ⊢
  have hstatus {x : Execution} (hx : d.execution = some x) : d.status? = some x.status := by
    simp [status?, hx]
  cases ht with
  | reported | faulted | advanced | calledOver | calledHere | polled | returnedOver
  | returnedHere => cases hi
  | unstarted quiet hx => simp [quiet, status?, hx]
  | @lost x quiet hx hp =>
    have hb : d.isBusy = false := by
      apply Bool.eq_false_iff.mpr
      intro hb
      obtain ⟨p, hq, -⟩ := h.runs hb x hx
      cases hp.symm.trans hq
    simp [abandoned_fail, caller?_of_not_busy hb, quiet]
  | @refused x p target e quiet hx hp hr =>
    have hcaller : (d.afterLine (d.lineResult registers x p)).caller? = d.caller? := rfl
    have hquiet : (d.afterLine (d.lineResult registers x p)).abandoned = none := quiet
    rw [abandoned_fail, hcaller, hquiet, hstatus hx, hr]
    cases d.caller? <;> simp
  | waiting quiet hx hp hs => simp [quiet, hstatus hx, hs]
  | @returnLost x p frame rest quiet hx hp hs hstack hd hlost =>
    have hpresent := h.present frame (by simp [hstack]) (hd.trans h.id_eq)
    simp [hlost] at hpresent
  | @stopped x p quiet hx hp hs =>
    have hr : x.status ≠ .running := by
      intro hr
      simp [hr, Status.isTerminal] at hs
    simp [quiet, hstatus hx, hr]

theorem waits_of_idle_iff {d : Device σ} {side : Side} (h : d.Sound side)
    {registers : RegisterBank} (hi : (d.tick registers).event = .idle) :
    (d.tick registers).device.status? = some .awaitingCall ↔ d.status? = some .awaitingCall := by
  refine ⟨fun hw => ?_, fun hw => (h.tick_of_waiting registers hw).1⟩
  have ht := d.ticked registers
  generalize d.tick registers = t at ht hi hw
  cases ht with
  | reported | faulted | advanced | calledOver | calledHere | polled | returnedOver
  | returnedHere => cases hi
  | unstarted | waiting | stopped => exact hw
  | lost | refused | returnLost =>
    -- A device that has just failed waits for nothing.
    rw [status?_fail] at hw
    obtain ⟨status, -, he⟩ := Option.map_eq_some_iff.mp hw
    cases he

end Device

namespace Cell

variable {σ : Type} [MotionService σ]

def ticks (c : Cell σ) : Nat → Cell σ
  | 0 => c
  | n + 1 => (c.ticks n).tick.1

theorem ticks_succ (c : Cell σ) (n : Nat) : c.ticks (n + 1) = c.tick.1.ticks n := by
  induction n with
  | zero => rfl
  | succ n ih =>
    rw [ticks, ih]
    rfl

theorem Reachable.ticks {c : Cell σ} (h : c.Reachable) (n : Nat) : (c.ticks n).Reachable := by
  induction n with
  | zero => exact h
  | succ n ih => exact ih.operate [.tick]

/-- A tick is idle if both devices find nothing to do, the second one after the first. -/
theorem tick_idle_iff (c : Cell σ) :
    c.tick.2.1 = false ↔ (c.first.tick c.registers).event = .idle ∧
      (c.second.tick (c.first.tick c.registers).registers).event = .idle := by
  simp only [tick, tickSide, Bool.or_eq_false_iff, busy_route]
  apply and_congr_right
  intro hi
  rw [show (c.get .first).tick c.registers = c.first.tick c.registers from rfl] at hi
  simp [hi, route, get, put]

theorem tick_of_idle {c : Cell σ} (hi : c.tick.2.1 = false) :
    c.tick.1 =
      { registers := (c.second.tick (c.first.tick c.registers).registers).registers
        first := (c.first.tick c.registers).device
        second := (c.second.tick (c.first.tick c.registers).registers).device } := by
  obtain ⟨hfirst, hsecond⟩ := (tick_idle_iff c).mp hi
  simp [tick, tickSide, route, get, put, hfirst, hsecond]

/-- An idle tick lets each device tick by itself. -/
theorem get_tick_of_idle {c : Cell σ} (hi : c.tick.2.1 = false) (s : Side) :
    ∃ registers, ((c.get s).tick registers).event = .idle ∧
      c.tick.1.get s = ((c.get s).tick registers).device := by
  obtain ⟨hfirst, hsecond⟩ := (tick_idle_iff c).mp hi
  rw [tick_of_idle hi]
  cases s with
  | first => exact ⟨_, hfirst, rfl⟩
  | second => exact ⟨_, hsecond, rfl⟩

theorem tick_of_still {c : Cell σ} (h : ∀ s, (c.get s).Still) :
    c.tick.2.1 = false ∧ c.tick.1 = c := by
  obtain ⟨hd, hr, he⟩ := h .first c.registers
  obtain ⟨hd', hr', he'⟩ := h .second c.registers
  simp only [get] at hd hr he hd' hr' he'
  have hi : c.tick.2.1 = false := (tick_idle_iff c).mpr ⟨he, by rw [hr]; exact he'⟩
  refine ⟨hi, ?_⟩
  rw [tick_of_idle hi, hr, hd, hr', hd']

theorem tick_of_report {c : Cell σ} {s : Side} (hr : (c.get s).abandoned ≠ none) :
    c.tick.2.1 ≠ false := by
  intro hi
  obtain ⟨registers, he, -⟩ := get_tick_of_idle hi s
  obtain ⟨⟨caller, reason⟩, hs⟩ := Option.ne_none_iff_exists'.mp hr
  simp [Device.tick, hs] at he

/-- Any number of ticks find no work and change nothing. -/
def Quiescent (c : Cell σ) : Prop := ∀ n, (c.ticks n).tick.2.1 = false ∧ c.ticks n = c

theorem quiescent_of_tick {c : Cell σ} (hi : c.tick.2.1 = false) (hc : c.tick.1 = c) :
    c.Quiescent := by
  have hticks (n : Nat) : c.ticks n = c := by
    induction n with
    | zero => rfl
    | succ n ih => rw [ticks, ih, hc]
  exact fun n => ⟨by rw [hticks n]; exact hi, hticks n⟩

/-- The device `s` is running for the other one. -/
def RunsForOther (c : Cell σ) (s : Side) : Prop :=
  (c.get s).status? = some .running ∧ (c.get s).caller? ≠ none

/-- The failure of a call has still to be reported to a caller that waits for it. -/
def OwesReport (c : Cell σ) (s : Side) : Prop :=
  (c.get s.other).status? = some .awaitingCall ∧
    ∃ reason, (c.get s).abandoned = some (s.other.id, reason)

theorem Sound.report_tick_iff {c : Cell σ} (h : c.Sound) (hi : c.tick.2.1 = false) (s : Side) :
    (c.tick.1.get s).abandoned ≠ none ↔ c.RunsForOther s := by
  obtain ⟨registers, he, hs⟩ := get_tick_of_idle hi s
  rw [hs]
  exact Device.report_of_idle_iff (h s) he

theorem Sound.quiescent_tick_iff {c : Cell σ} (h : c.Sound) (hi : c.tick.2.1 = false) :
    c.tick.1.Quiescent ↔ ∀ s, ¬ c.RunsForOther s := by
  constructor
  · intro hq s hs
    exact tick_of_report ((h.report_tick_iff hi s).mpr hs) (hq 0).1
  · intro hn
    have hstill (s : Side) : (c.tick.1.get s).Still := by
      obtain ⟨registers, he, hs⟩ := get_tick_of_idle hi s
      have hquiet : (c.tick.1.get s).abandoned = none :=
        Decidable.not_not.mp fun hr => hn s ((h.report_tick_iff hi s).mp hr)
      rw [hs] at hquiet ⊢
      exact Device.still_tick (h s) he hquiet
    obtain ⟨hi', hc'⟩ := tick_of_still hstill
    exact quiescent_of_tick hi' hc'

theorem Sound.owesReport_tick_iff {c : Cell σ} (h : c.Sound) (hs : c.tick.1.Sound)
    (hi : c.tick.2.1 = false) (s : Side) :
    c.tick.1.OwesReport s ↔ c.RunsForOther s ∧ (c.get s.other).status? = some .awaitingCall := by
  have hwaits : (c.tick.1.get s.other).status? = some .awaitingCall ↔
      (c.get s.other).status? = some .awaitingCall := by
    obtain ⟨registers, he, hd⟩ := get_tick_of_idle hi s.other
    rw [hd]
    exact Device.waits_of_idle_iff (h s.other) he
  rw [OwesReport, hwaits, and_comm, ← h.report_tick_iff hi s]
  refine and_congr_left fun _ => ⟨?_, fun hr => ?_⟩
  · rintro ⟨reason, hr⟩
    rw [hr]
    nofun
  · obtain ⟨⟨caller, reason⟩, hr⟩ := Option.ne_none_iff_exists'.mp hr
    exact ⟨reason, by rw [hr, (hs s).report caller reason hr]⟩

theorem runLoop_of_idle {c : Cell σ} {k fuel : Nat} (n : Nat) (trace : Trace)
    (busy : ∀ j < k, (c.ticks j).tick.2.1 = true) (idle : (c.ticks k).tick.2.1 = false)
    (hk : k < fuel) :
    (runLoop fuel n c trace).1 = (c.ticks k).tick.1 ∧ (runLoop fuel n c trace).2.1 = n + k + 1 := by
  induction k generalizing c fuel n trace with
  | zero =>
    obtain ⟨fuel, rfl⟩ : ∃ m, fuel = m + 1 := ⟨fuel - 1, by omega⟩
    have hi : c.tick.2.1 = false := idle
    simp [runLoop, hi, ticks]
  | succ k ih =>
    obtain ⟨fuel, rfl⟩ : ∃ m, fuel = m + 1 := ⟨fuel - 1, by omega⟩
    have hb : c.tick.2.1 = true := busy 0 (by omega)
    have hbusy (j : Nat) (hj : j < k) : (c.tick.1.ticks j).tick.2.1 = true := by
      rw [← ticks_succ]
      exact busy (j + 1) (by omega)
    rw [ticks_succ] at idle ⊢
    obtain ⟨hc, hn⟩ := ih (n + 1) (c.tick.2.2.reverse ++ trace) hbusy idle (show k < fuel by omega)
    simp only [runLoop, hb, if_true]
    exact ⟨hc, hn.trans (by omega)⟩

/-- After an idle tick the cell stands still, unless a device that ran for the other one was refused
a call. A run until idle stops at the first idle tick, and a caller still waits to be told of a
failure exactly if its call was lost in that tick. -/
theorem Reachable.quiescent_iff {c : Cell σ} (h : c.Reachable) :
    (c.tick.2.1 = false → (c.tick.1.Quiescent ↔ ∀ s, ¬ c.RunsForOther s)) ∧
      ∀ limit k, k < limit → (∀ j < k, (c.ticks j).tick.2.1 = true) →
        (c.ticks k).tick.2.1 = false →
        (c.runUntilIdle limit).1 = (c.ticks k).tick.1 ∧ (c.runUntilIdle limit).2.1 = k + 1 ∧
          ∀ s, (c.runUntilIdle limit).1.OwesReport s ↔
            (c.ticks k).RunsForOther s ∧ ((c.ticks k).get s.other).status? = some .awaitingCall := by
  refine ⟨h.sound.quiescent_tick_iff, fun limit k hk busy idle => ?_⟩
  obtain ⟨hc, hn⟩ := runLoop_of_idle 0 [] busy idle hk
  have hc : (c.runUntilIdle limit).1 = (c.ticks k).tick.1 := hc
  have hn : (c.runUntilIdle limit).2.1 = k + 1 := hn.trans (by omega)
  refine ⟨hc, hn, fun s => ?_⟩
  rw [hc]
  exact (h.ticks k).sound.owesReport_tick_iff (h.ticks (k + 1)).sound idle s

/-- A call that comes back: the run is over with the fifth tick. -/
theorem quiescent_iff_oneCall :
    let c := oneCall.operate [.start 0 "MAIN" .full 0]
    (c.ticks 4).tick.1.Quiescent ∧ (c.runUntilIdle 100).2.1 = 5 ∧
      (c.runUntilIdle 100).1 = (c.ticks 4).tick.1 ∧ ∀ s, ¬ (c.runUntilIdle 100).1.OwesReport s := by
  intro c
  have hc : c.Reachable := ⟨_, _, _, _, _, rfl⟩
  have hidle : (c.ticks 4).tick.2.1 = false := by decide
  have hruns (s : Side) : ¬ (c.ticks 4).RunsForOther s := by
    have hs : ((c.ticks 4).get s).status? ≠ some .running := by cases s <;> decide
    exact fun hr => hs hr.1
  obtain ⟨hcell, hcount, howes⟩ :=
    (Reachable.quiescent_iff hc).2 100 4 (by decide) (by decide) hidle
  refine ⟨((Reachable.quiescent_iff (hc.ticks 4)).1 hidle).mpr hruns, hcount, hcell, fun s ho => ?_⟩
  exact hruns s ((howes s).mp ho).1

/-- The program `WORK` calls `SUB`, which has another name by then; so the call is refused in the
next tick, while `MAIN` on the first device waits for `WORK`. -/
def staleLink : Cell InstantArm :=
  (build (.ofSizes 0 0 0) ⟨[.written "MAIN" [.call { program := "WORK", device := 1 }]]⟩
    ⟨[.written "WORK" [.blank, .call { program := "SUB", device := 1 }], .written "SUB" [.blank]]⟩
    fun _ => {}).1.operate
      [.edit 1 fun l => ⟨l.programs.set 1 (.written "OTHER" [.blank])⟩, .start 0 "MAIN" .full 0, .tick]

/-- The tick counts as idle, the run stops there, and yet the next tick has work to do. -/
theorem not_quiescent_staleLink :
    staleLink.Reachable ∧ staleLink.tick.2.1 = false ∧ staleLink.tick.1.tick.2.1 = true ∧
      (staleLink.runUntilIdle 100).2.1 = 1 ∧ (staleLink.runUntilIdle 100).1.OwesReport .second ∧
      staleLink.tick.1.tick.1.first.status? ≠ staleLink.tick.1.first.status? := by
  refine ⟨⟨_, _, _, _, _, rfl⟩, by decide, by decide, by decide, ⟨by decide, ?_⟩, by decide⟩
  exact ⟨"unresolved call to SUB on device 1", by decide⟩

end Cell

end TeachPendant
