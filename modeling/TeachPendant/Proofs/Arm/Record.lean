import TeachPendant.Proofs.Cell.Exchange

namespace TeachPendant

/-- A request to an arm, with the answer. -/
inductive ArmCall
  | dispatch (m : Move) (handle : Nat)
  | poll (handle : Nat) (complete : Bool)
  | cancel (handle : Nat)
  deriving DecidableEq

namespace ArmCall

def dispatched? : ArmCall → Option Nat
  | .dispatch _ handle => some handle
  | .poll _ _ | .cancel _ => none

/-- The handle of the last move that was asked for. -/
def latest? (calls : List ArmCall) : Option Nat := (calls.filterMap dispatched?).getLast?

/-- Every move was reported complete or cancelled after it was asked for. -/
def Settled : List ArmCall → Prop
  | [] => True
  | .dispatch _ handle :: later =>
    (.poll handle true ∈ later ∨ .cancel handle ∈ later) ∧ Settled later
  | .poll _ _ :: later | .cancel _ :: later => Settled later

/-- At most one move in flight at any time, and requests about that one only. -/
inductive Orderly : List ArmCall → Prop
  | nil : Orderly []
  | dispatch {calls : List ArmCall} (orderly : Orderly calls) (settled : Settled calls) (m : Move)
      (handle : Nat) : Orderly (calls ++ [.dispatch m handle])
  | poll {calls : List ArmCall} {handle : Nat} (orderly : Orderly calls)
      (latest : latest? calls = some handle) (complete : Bool) :
      Orderly (calls ++ [.poll handle complete])
  | cancel {calls : List ArmCall} {handle : Nat} (orderly : Orderly calls)
      (latest : latest? calls = some handle) : Orderly (calls ++ [.cancel handle])

/-- The move of this handle was the last to be asked for, and those before it are settled. -/
def InFlight (handle : Nat) (calls : List ArmCall) : Prop :=
  ∃ before m after, calls = before ++ .dispatch m handle :: after ∧ Settled before ∧
    ∀ a ∈ after, a.dispatched? = none

theorem inFlight_dispatch {calls : List ArmCall} (h : Settled calls) (m : Move) (handle : Nat) :
    InFlight handle (calls ++ [.dispatch m handle]) :=
  ⟨calls, m, [], rfl, h, by simp⟩

namespace InFlight

variable {handle : Nat} {calls : List ArmCall}

theorem latest (h : InFlight handle calls) : latest? calls = some handle := by
  obtain ⟨before, m, after, rfl, -, hafter⟩ := h
  have hnone : after.filterMap dispatched? = [] := List.filterMap_eq_nil_iff.mpr hafter
  rw [latest?, List.filterMap_append, List.filterMap_cons]
  simp [dispatched?, hnone]

theorem poll (h : InFlight handle calls) (other : Nat) (complete : Bool) :
    InFlight handle (calls ++ [.poll other complete]) := by
  obtain ⟨before, m, after, rfl, hbefore, hafter⟩ := h
  refine ⟨before, m, after ++ [.poll other complete], by simp, hbefore, ?_⟩
  intro a ha
  rcases List.mem_append.mp ha with ha | ha
  · exact hafter a ha
  · rw [List.mem_singleton.mp ha]
    rfl

/-- The end of the move settles the record. -/
theorem settled (h : InFlight handle calls) {a : ArmCall}
    (ha : a = .poll handle true ∨ a = .cancel handle) : Settled (calls ++ [a]) := by
  have hquiet : ∀ after : List ArmCall, (∀ b ∈ after, b.dispatched? = none) → Settled after := by
    intro after hafter
    induction after with
    | nil => trivial
    | cons b after ih =>
      have hrest := ih fun b hb => hafter b (List.mem_cons_of_mem _ hb)
      cases b with
      | dispatch m handle => exact absurd (hafter _ List.mem_cons_self) nofun
      | poll | cancel => exact hrest
  obtain ⟨before, m, after, rfl, hbefore, hafter⟩ := h
  rw [List.append_assoc, List.cons_append]
  induction before with
  | nil =>
    refine ⟨?_, hquiet _ ?_⟩
    · rcases ha with rfl | rfl <;> simp
    · intro b hb
      rcases List.mem_append.mp hb with hb | hb
      · exact hafter b hb
      · rw [List.mem_singleton.mp hb]
        rcases ha with rfl | rfl <;> rfl
  | cons b before ih =>
    cases b with
    | dispatch m' handle' =>
      obtain ⟨hended, hrest⟩ := hbefore
      refine ⟨?_, ih hrest⟩
      rcases hended with hmem | hmem
      · exact Or.inl (List.mem_append_left _ hmem)
      · exact Or.inr (List.mem_append_left _ hmem)
    | poll | cancel => exact ih hbefore

end InFlight

end ArmCall

/-- An arm together with the record of everything asked of it. -/
structure Recording (σ : Type) where
  arm : σ
  calls : List ArmCall := []

instance {σ : Type} [MotionService σ] : MotionService (Recording σ) where
  dispatch a m :=
    let (arm, handle) := MotionService.dispatch a.arm m
    (⟨arm, a.calls ++ [.dispatch m handle]⟩, handle)
  poll a handle :=
    let (arm, complete) := MotionService.poll a.arm handle
    (⟨arm, a.calls ++ [.poll handle complete]⟩, complete)
  pose a := MotionService.pose a.arm
  cancel a handle := ⟨MotionService.cancel a.arm handle, a.calls ++ [.cancel handle]⟩

/-- The handle of the move that a run waits for. -/
def Execution.moving? (x : Execution) : Option Nat :=
  match x.status with
  | .awaitingMotion handle => some handle
  | _ => none

namespace Execution

theorem moving?_of_ne {x : Execution} (h : ∀ handle, x.status ≠ .awaitingMotion handle) :
    x.moving? = none := by
  unfold moving?
  split
  · next handle hs => exact absurd hs (h handle)
  · rfl

theorem moving?_moveOn {x : Execution} (p : Program) (h : x.moving? = none) :
    (x.moveOn p).moving? = none := by
  unfold moveOn
  split_ifs
  · rfl
  · rfl
  · exact h
  · rfl

variable {σ : Type} [MotionService σ]

/-- What a line asks of the arm: nothing, or one move, for which the run then waits. -/
inductive Asks (arm : σ) (s : StepResult σ) : Prop
  | nothing (kept : s.arm = arm) (moving : s.execution.moving? = none)
  | move (m : Move) (dispatched : s.arm = (MotionService.dispatch arm m).1)
      (moving : s.execution.moving? = some (MotionService.dispatch arm m).2) (call : s.call = none)

theorem follow_asks {x : Execution} (p : Program) (effect : Effect) (arm : σ)
    (h : x.moving? = none) : Asks arm (x.follow p effect arm) := by
  unfold follow
  split
  · exact .nothing rfl (moving?_moveOn p h)
  · split
    · exact .nothing rfl (moving?_moveOn p h)
    · exact .nothing rfl rfl
  · next m _ => exact .move m rfl rfl rfl
  · split
    · exact .nothing rfl rfl
    · exact .nothing rfl rfl

theorem step_asks {x : Execution} (p : Program) (c : Context) (arm : σ) (h : x.status = .running) :
    Asks arm (x.step p c arm) := by
  have hmoving : x.moving? = none := by simp [moving?, h]
  have hstep := stepped x p c arm
  generalize x.step p c arm = s at hstep ⊢
  cases hstep with
  | stopped hstopped => exact absurd h hstopped
  | lost | broken => exact .nothing rfl rfl
  | passed | skipped => exact .nothing rfl (moving?_moveOn p hmoving)
  | followed => exact follow_asks p _ arm hmoving

/-- A run that waits for a move asks whether it is complete, and goes on if it is. -/
theorem advance_asks {x : Execution} (p : Program) (arm : σ) {handle : Nat}
    (h : x.status = .awaitingMotion handle) :
    (x.advance p arm).2.1 = (MotionService.poll arm handle).1 ∧
      ((MotionService.poll arm handle).2 = true ∧ (x.advance p arm).1.moving? = none ∨
        (MotionService.poll arm handle).2 = false ∧ (x.advance p arm).1 = x) := by
  unfold advance
  rw [h]
  dsimp only
  split_ifs with hcomplete
  · exact ⟨rfl, Or.inl ⟨hcomplete, moving?_moveOn p rfl⟩⟩
  · exact ⟨rfl, Or.inr ⟨by simpa using hcomplete, rfl⟩⟩

theorem halt_asks (x : Execution) (arm : σ) :
    (x.halt arm).1.moving? = none ∧ (x.halt arm).2.1 = match x.moving? with
      | some handle => MotionService.cancel arm handle
      | none => arm := by
  cases hs : x.status <;> simp [halt, moving?, hs]

end Execution

namespace Device

variable {σ : Type}

def moving? (d : Device σ) : Option Nat := d.execution.bind Execution.moving?

theorem moving?_of_not_busy {d : Device σ} (h : d.isBusy = false) : d.moving? = none := by
  cases hx : d.execution with
  | none => simp [moving?, hx]
  | some x =>
    have hterminal := terminal_of_not_busy h hx
    simp only [moving?, hx, Option.bind_some]
    apply Execution.moving?_of_ne
    intro handle hs
    simp [hs, Status.isTerminal] at hterminal

/-- A run that has just begun asks nothing of the arm. -/
theorem begin_arm (d : Device σ) (ref : ProgramRef) (mode : RunMode) (i : Nat)
    (h : d.moving? = none) :
    (d.begin ref mode i).1.arm = d.arm ∧ (d.begin ref mode i).1.moving? = none := by
  unfold begin
  split
  · exact ⟨rfl, h⟩
  · split_ifs
    · exact ⟨rfl, rfl⟩
    · refine ⟨rfl, Execution.moving?_of_ne ?_⟩
      unfold Execution.start
      split_ifs <;> simp

theorem moving?_returned (frame : ReturnFrame) (p : Program) :
    (returned frame p).moving? = none := by
  apply Execution.moving?_of_ne
  unfold returned Execution.finished Execution.paused Execution.start
  intro handle
  split_ifs <;> simp_all

/-- A line that makes a call asks nothing of the arm. -/
theorem moving?_afterLine [MotionService σ] {d : Device σ} {registers : RegisterBank}
    {x : Execution} {p : Program} {target : CallTarget} (hs : x.status = .running)
    (hc : (d.lineResult registers x p).call = some target) :
    (d.afterLine (d.lineResult registers x p)).moving? = none := by
  cases Execution.step_asks p ⟨registers, d.frames, MotionService.pose d.arm, d.id⟩ d.arm hs with
  | nothing kept moving => exact moving
  | move m dispatched moving call => exact absurd (hc.symm.trans call) nofun

theorem dropCallChain_arm (d : Device σ) (reason : String) :
    (d.dropCallChain reason).arm = d.arm ∧ (d.dropCallChain reason).moving? = d.moving? := by
  rw [dropCallChain_eq]
  exact ⟨rfl, rfl⟩

theorem fail_arm (d : Device σ) (cause : Error) :
    (d.fail cause).1.arm = d.arm ∧ (d.fail cause).1.moving? = none := by
  refine ⟨(dropCallChain_arm _ _).1, ?_⟩
  rw [moving?, execution_fail]
  cases d.execution <;> rfl

theorem resumeAfterCall_arm {d : Device σ} (h : d.moving? = none) :
    d.resumeAfterCall.arm = d.arm ∧ d.resumeAfterCall.moving? = none := by
  unfold resumeAfterCall
  split
  · exact ⟨rfl, h⟩
  · next x hx =>
    split
    · exact ⟨rfl, h⟩
    · next p hp =>
      have hmoving : x.moving? = none := by simpa [moving?, hx] using h
      refine ⟨rfl, ?_⟩
      simp only [moving?, Option.bind_some, Execution.resumeAfterCall]
      split_ifs
      · exact Execution.moving?_moveOn p rfl
      · exact hmoving

end Device

section Recorded

variable {σ : Type}

/-- The record of the arm is in order, and a move is in flight exactly when the run waits for one. -/
structure Device.Tended (d : Device (Recording σ)) : Prop where
  orderly : ArmCall.Orderly d.arm.calls
  settled : d.moving? = none → ArmCall.Settled d.arm.calls
  inFlight : ∀ handle, d.moving? = some handle → ArmCall.InFlight handle d.arm.calls

namespace Device

variable {d d' : Device (Recording σ)}

/-- Nothing was asked of the arm, which had no move in flight. -/
theorem Tended.still (h : d.Tended) (hd : d.moving? = none)
    (hd' : d'.arm = d.arm ∧ d'.moving? = none) : d'.Tended := by
  obtain ⟨harm, hmoving⟩ := hd'
  refine ⟨harm ▸ h.orderly, fun _ => harm ▸ h.settled hd, ?_⟩
  intro handle hh
  rw [hmoving] at hh
  cases hh

theorem Tended.congr (h : d.Tended) (harm : d'.arm.calls = d.arm.calls)
    (hmoving : d'.moving? = d.moving?) : d'.Tended := by
  refine ⟨?_, ?_, ?_⟩
  · rw [harm]
    exact h.orderly
  · rw [harm, hmoving]
    exact h.settled
  · rw [harm, hmoving]
    exact h.inFlight

theorem Tended.resumeAfterCall (h : d.Tended) : d.resumeAfterCall.Tended := by
  cases hd : d.moving? with
  | none => exact h.still hd (resumeAfterCall_arm hd)
  | some handle =>
    -- A run that waits for a move does not wait for a call.
    obtain ⟨x, hx, hm⟩ := Option.bind_eq_some_iff.mp hd
    have hne : x.status ≠ .awaitingCall := by
      intro hs
      simp [Execution.moving?, hs] at hm
    unfold Device.resumeAfterCall
    rw [hx]
    dsimp only
    split
    · exact h
    · next p hp =>
      rw [Execution.resumeAfterCall, if_neg hne]
      exact h.congr rfl (by rw [moving?, moving?, hx])

/-- The move in flight was reported complete or cancelled. -/
theorem Tended.ended {handle : Nat} {a : ArmCall} (h : d.Tended) (hd : d.moving? = some handle)
    (ha : a = .poll handle true ∨ a = .cancel handle) (harm : d'.arm.calls = d.arm.calls ++ [a])
    (hd' : d'.moving? = none) : d'.Tended := by
  have hinFlight := h.inFlight handle hd
  refine ⟨?_, fun _ => ?_, ?_⟩
  · rw [harm]
    rcases ha with rfl | rfl
    · exact h.orderly.poll hinFlight.latest true
    · exact h.orderly.cancel hinFlight.latest
  · rw [harm]
    exact hinFlight.settled ha
  · intro other hother
    rw [hd'] at hother
    cases hother

variable [MotionService σ]

theorem Tended.afterLine {registers : RegisterBank} {x : Execution} {p : Program} (h : d.Tended)
    (hx : d.execution = some x) (hs : x.status = .running) :
    (d.afterLine (d.lineResult registers x p)).Tended := by
  have hd : d.moving? = none := by simp [moving?, hx, Execution.moving?, hs]
  have hline : (d.afterLine (d.lineResult registers x p)).moving? =
    (d.lineResult registers x p).execution.moving? := rfl
  cases Execution.step_asks p ⟨registers, d.frames, MotionService.pose d.arm, d.id⟩ d.arm hs with
  | nothing kept moving => exact h.still hd ⟨kept, moving⟩
  | move m dispatched moving _ =>
    have hcalls : (d.afterLine (d.lineResult registers x p)).arm.calls =
        d.arm.calls ++ [.dispatch m (MotionService.dispatch d.arm.arm m).2] :=
      congrArg Recording.calls dispatched
    have hinFlight := ArmCall.inFlight_dispatch (h.settled hd) m
      (MotionService.dispatch d.arm.arm m).2
    refine ⟨?_, ?_, ?_⟩
    · rw [hcalls]
      exact h.orderly.dispatch (h.settled hd) m _
    · intro hnone
      rw [hline] at hnone
      rw [lineResult, moving] at hnone
      cases hnone
    · intro handle hh
      rw [hline] at hh
      rw [lineResult, moving] at hh
      cases hh
      rw [hcalls]
      exact hinFlight

theorem Tended.polled {x : Execution} (p : Program) {handle : Nat} (h : d.Tended)
    (hx : d.execution = some x) (hs : x.status = .awaitingMotion handle) :
    ({ d with execution := some (x.advance p d.arm).1, arm := (x.advance p d.arm).2.1 } :
      Device (Recording σ)).Tended := by
  have hmoving : d.moving? = some handle := by simp [moving?, hx, Execution.moving?, hs]
  obtain ⟨harm, ⟨hcomplete, hend⟩ | ⟨hcomplete, hsame⟩⟩ := x.advance_asks p d.arm hs
  · refine h.ended hmoving (Or.inl rfl) ?_ hend
    rw [harm, ← hcomplete]
    rfl
  · have hinFlight := h.inFlight handle hmoving
    have hcalls : (x.advance p d.arm).2.1.calls = d.arm.calls ++ [.poll handle false] := by
      rw [harm, ← hcomplete]
      rfl
    have hkept : (some (x.advance p d.arm).1).bind Execution.moving? = some handle := by
      rw [hsame, ← hx]
      exact hmoving
    refine ⟨?_, ?_, ?_⟩
    · rw [hcalls]
      exact h.orderly.poll hinFlight.latest false
    · intro hnone
      cases hnone.symm.trans hkept
    · intro other hother
      obtain rfl : handle = other := Option.some.inj (hkept.symm.trans hother)
      rw [hcalls]
      exact hinFlight.poll handle false

theorem Tended.halt (h : d.Tended) : d.halt.1.Tended := by
  unfold Device.halt
  split
  · exact h.congr (congrArg Recording.calls (dropCallChain_arm _ _).1) (dropCallChain_arm _ _).2
  · next x hx =>
    obtain ⟨hend, harm⟩ := x.halt_asks d.arm
    have hkept := dropCallChain_arm
      ({ d with execution := some (x.halt d.arm).1, arm := (x.halt d.arm).2.1 } :
        Device (Recording σ)) "halted"
    have hd : d.moving? = x.moving? := by rw [moving?, hx, Option.bind_some]
    cases hm : x.moving? with
    | none =>
      rw [hm] at harm hd
      exact h.still hd ⟨hkept.1.trans harm, hkept.2.trans hend⟩
    | some handle =>
      rw [hm] at harm hd
      refine h.ended hd (Or.inr rfl) ?_ (hkept.2.trans hend)
      exact (congrArg Recording.calls (hkept.1.trans harm)).trans rfl

/-- A device that hands a call to the cell waits for no move. -/
theorem moving?_of_crossCall {σ : Type} [MotionService σ] {d : Device σ} {registers : RegisterBank}
    {target : CallTarget} {frame : ReturnFrame}
    (h : (d.tick registers).event = .crossCall target frame) :
    (d.tick registers).device.moving? = none := by
  have ht := d.ticked registers
  generalize d.tick registers = t at ht h ⊢
  cases ht with
  | calledOver _ _ _ hr _ hc => exact moving?_afterLine hr hc
  | reported | unstarted | lost | faulted | advanced | calledHere | refused | polled | waiting
  | returnedOver | returnLost | returnedHere | stopped => cases h

theorem Tended.tick {side : Side} (h : d.Tended) (hs : d.Sound side) (registers : RegisterBank) :
    (d.tick registers).device.Tended := by
  have hstill {x : Execution} (hx : d.execution = some x)
      (hne : ∀ handle, x.status ≠ .awaitingMotion handle) : d.moving? = none := by
    rw [moving?, hx]
    exact Execution.moving?_of_ne hne
  have ht := d.ticked registers
  generalize d.tick registers = t at ht ⊢
  cases ht with
  | reported _ => exact h.congr rfl rfl
  | unstarted | waiting | stopped => exact h
  | @lost x _ hx hp =>
    refine h.still (hstill hx ?_) (fail_arm d _)
    intro handle hm
    obtain ⟨p, hq, -⟩ := hs.runs (isBusy_of_running hx (by simp [hm, Status.isTerminal])) x hx
    rw [hp] at hq
    cases hq
  | faulted _ hx hp hr hf =>
    exact (h.afterLine hx hr).congr (congrArg Recording.calls (dropCallChain_arm _ _).1)
      (dropCallChain_arm _ _).2
  | advanced _ hx hp hr hf => exact h.afterLine hx hr
  | calledOver _ hx hp hr hf => exact h.afterLine hx hr
  | calledHere _ hx hp hr hf hc _ hresolve hd =>
    have hcalled := moving?_afterLine hr hc
    subst hd
    exact ((h.afterLine hx hr).congr rfl rfl).still hcalled (begin_arm _ _ _ _ hcalled)
  | refused _ hx hp hr hf hc =>
    exact (h.afterLine hx hr).still (moving?_afterLine hr hc) (fail_arm _ _)
  | polled _ hx _ hr => exact h.polled _ hx hr
  | returnedOver _ hx _ hr => exact h.congr rfl rfl
  | returnLost _ hx _ hr =>
    exact h.still (hstill hx (by simp [hr])) (fail_arm _ _)
  | returnedHere _ hx _ hr =>
    exact h.still (hstill hx (by simp [hr])) ⟨rfl, moving?_returned _ _⟩

end Device

end Recorded

end TeachPendant
