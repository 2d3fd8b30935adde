import TeachPendant.Proofs.Cell.Sound

namespace TeachPendant

/-- `serves` and `waits` are the frames to which the call that a device works for, and the call that
it made itself, will return. -/
structure Bond where
  serves : Option ReturnFrame
  report : Option (UInt8 × String)
  waits : Option ReturnFrame

namespace Bond

/-- Every caller is let go of; a report is left for the one on the other device. -/
def drop (b : Bond) (reason : String) : Bond where
  serves := none
  report := match b.serves with
    | some f => some (f.device, reason)
    | none => b.report
  waits := none

/-- What one device does to its own ties without an answer to the other one. -/
inductive LetsGo (b : Bond) : Bond → Prop
  | same : LetsGo b b
  | free : LetsGo b { b with waits := none }
  | drop (reason : String) : LetsGo b (b.drop reason)

theorem LetsGo.of_free {b b' : Bond} (h : b' = { b with waits := none }) : b.LetsGo b' := h ▸ .free

theorem LetsGo.of_drop {b b' : Bond} {reason : String} (h : b' = b.drop reason) : b.LetsGo b' :=
  h ▸ .drop reason

end Bond

/-- How a move changes the ties of the two devices. -/
inductive Exchange (b b' : Side → Bond) : Prop
  | apart (letsGo : ∀ s, (b s).LetsGo (b' s))
  /-- The device `s` calls the other one, which had nothing to do. -/
  | taken (s : Side) (frame : ReturnFrame) (device : frame.device = s.id)
      (caller : (b s).waits = none) (callee : (b s.other).serves = none ∧ (b s.other).waits = none)
      (calls : b' s = { b s with waits := some frame })
      (takes : b' s.other = { b s.other with serves := some frame })
  /-- The device `s` tells the other one of a failed call; if that one waits, it stops waiting. -/
  | told (s : Side) (reason : String) (report : (b s).report = some (s.other.id, reason))
      (tells : b' s = { b s with report := none })
      (hears : (b s.other).LetsGo (b' s.other)) (free : (b' s.other).waits = none)
  /-- The device `s` has come to the end of the call it works for. -/
  | returned (s : Side) (frame : ReturnFrame) (serves : (b s).serves = some frame)
      (report : (b s).report = none) (returns : b' s = { b s with serves := none })
      (goesOn : b' s.other = { b s.other with waits := none })

namespace Exchange

/-- A move of one device that does not reach the other. -/
theorem apart_of_one {b b' : Side → Bond} (s : Side) (hs : (b s).LetsGo (b' s))
    (ho : b' s.other = b s.other) : Exchange b b' := by
  apply Exchange.apart
  intro t
  rcases s.eq_or_eq_other t with rfl | rfl
  · exact hs
  · rw [ho]
    exact .same

end Exchange

namespace Device

variable {σ : Type}

/-- Where the call returns that this device waits for. -/
def waiting? (d : Device σ) : Option ReturnFrame :=
  d.execution.bind fun x => if x.status = .awaitingCall then some (x.callFrame d.id) else none

def bond (d : Device σ) : Bond := ⟨d.caller?, d.abandoned, d.waiting?⟩

theorem waiting?_of_status {d : Device σ} (h : ∀ x, d.execution = some x → x.status ≠ .awaitingCall) :
    d.waiting? = none := by
  cases hx : d.execution with
  | none => simp [waiting?, hx]
  | some x => simp [waiting?, hx, h x hx]

theorem waiting?_of_not_busy {d : Device σ} (h : d.isBusy = false) : d.waiting? = none := by
  apply waiting?_of_status
  intro x hx hs
  have ht := terminal_of_not_busy h hx
  simp [hs, Status.isTerminal] at ht

theorem caller?_of_not_busy {d : Device σ} (h : d.isBusy = false) : d.caller? = none := by
  simp [caller?, returnStack_of_not_busy h]

theorem bond_dropCallChain {d : Device σ} (hw : d.waiting? = none) (reason : String) :
    (d.dropCallChain reason).bond = d.bond.drop reason := by
  rw [dropCallChain_eq]
  exact congrArg (Bond.mk _ _) hw

/-- A device whose run ends lets go of its callers. -/
theorem bond_drop {d : Device σ} (x : Option Execution) (frames : Frames) (arm : σ)
    (hx : ∀ y, x = some y → y.status ≠ .awaitingCall) (reason : String) :
    (({ d with execution := x, frames := frames, arm := arm } : Device σ).dropCallChain reason).bond =
      d.bond.drop reason := by
  rw [bond_dropCallChain (waiting?_of_status hx)]
  rfl

theorem bond_fail (d : Device σ) (cause : Error) :
    (d.fail cause).1.bond = d.bond.drop cause.message := by
  refine bond_drop _ d.frames d.arm ?_ _
  intro y hy
  obtain ⟨x, -, rfl⟩ := Option.map_eq_some_iff.mp hy
  nofun

/-- A device that takes up a run keeps its callers. -/
theorem bond_withRun {d : Device σ} (x : Execution) (frames : Frames) (arm : σ)
    (hx : x.status ≠ .awaitingCall) :
    ({ d with execution := some x, frames := frames, arm := arm } : Device σ).bond =
      { d.bond with waits := none } := by
  have hw : ({ d with execution := some x, frames := frames, arm := arm } : Device σ).waiting? = none :=
    waiting?_of_status fun y hy => Option.some.inj hy ▸ hx
  exact congrArg (Bond.mk _ _) hw

theorem bond_begin {d : Device σ} {ref : ProgramRef} {p : Program}
    (hp : d.library.get? ref.index = some p) (mode : RunMode) (i : Nat) :
    (d.begin ref mode i).1.bond = { d.bond with waits := none } := by
  rw [begin_of_some hp]
  refine bond_withRun _ d.frames d.arm ?_
  unfold Execution.finished Execution.start
  split_ifs <;> nofun

theorem letsGo_start {d d' : Device σ} {program : String} {mode : RunMode} {i : Nat} {trace : Trace}
    (h : d.start program mode i = .ok (d', trace)) : d.bond.LetsGo d'.bond := by
  obtain ⟨-, index, p, hp, -, rfl⟩ := of_start h
  have hp : d.library.get? (⟨d.id, index⟩ : ProgramRef).index = some p := hp
  rw [bond_begin hp]
  exact .free

theorem letsGo_resume {d d' : Device σ} {trace : Trace} (h : d.resume = .ok (d', trace)) :
    d.bond.LetsGo d'.bond := by
  obtain rfl | ⟨x, p, hx, -, hp, rfl⟩ := of_resume h
  · exact .same
  · rw [bond_begin hp]
    exact .free

theorem letsGo_halt [MotionService σ] (d : Device σ) : d.bond.LetsGo d.halt.1.bond := by
  obtain ⟨x, arm, he, hx⟩ := d.halt_eq
  rw [he, bond_drop x d.frames arm (fun y hy => by rw [hx y hy]; nofun)]
  exact .drop _

/-- The ties of a device before and after a tick with this event. -/
def Answers (d d' : Device σ) : DeviceEvent → Prop
  | .idle | .busy => d.bond.LetsGo d'.bond
  | .crossCall target frame => target.device ≠ d.id ∧ frame.device = d.id ∧ d.bond.waits = none ∧
      d'.bond = { d.bond with waits := some frame }
  | .callFailed caller reason => d.bond.report = some (caller, reason) ∧
      d'.bond = { d.bond with report := none }
  | .returned frame => d.bond.serves = some frame ∧ d.bond.report = none ∧
      d'.bond = { d.bond with serves := none }

theorem waiting?_of_running {d : Device σ} {x : Execution} (hx : d.execution = some x)
    (hs : x.status ≠ .awaitingCall) : d.waiting? = none :=
  waiting?_of_status fun _ hy => Option.some.inj (hx.symm.trans hy) ▸ hs

/-- A frame of the device itself above the others changes no tie. -/
theorem bond_pop {d : Device σ} {f : ReturnFrame} {rest : List ReturnFrame}
    (hs : d.returnStack = f :: rest) (hf : f.device = d.id) :
    d.bond = ({ d with returnStack := rest } : Device σ).bond := by
  have hc : d.caller? = foreign? d.id rest := by rw [caller?, hs, foreign?_cons_own hf]
  rw [bond, hc]
  rfl

variable [MotionService σ]

theorem answers_afterLine {d : Device σ} {side : Side} (h : d.Sound side)
    (registers : RegisterBank) {x : Execution} {p : Program} (hx : d.execution = some x)
    (hp : d.library.get? x.program.index = some p) (hs : x.status = .running) :
    ((d.lineResult registers x p).call = none →
      d.bond.LetsGo (d.afterLine (d.lineResult registers x p)).bond) ∧
    ∀ target, (d.lineResult registers x p).call = some target →
      (d.afterLine (d.lineResult registers x p)).bond = { d.bond with
        waits := some ((d.lineResult registers x p).execution.callFrame d.id) } := by
  have hafter : (d.lineResult registers x p).execution.status ≠ .awaitingCall →
      d.bond.LetsGo (d.afterLine (d.lineResult registers x p)).bond := by
    intro hn
    have hb := bond_withRun (d := d) _ (d.lineResult registers x p).frames
      (d.lineResult registers x p).arm hn
    exact .of_free hb
  cases h.lineOutcome registers hx hp hs with
  | faulted cause he hn => exact ⟨fun _ => hafter (by rw [he]; nofun), by simp [hn]⟩
  | moved hm _ hn =>
    refine ⟨fun _ => hafter fun ha => ?_, by simp [hn]⟩
    rcases hm with he | ⟨-, he | he⟩ <;> simp [he] at ha
  | moving handle he hn => exact ⟨fun _ => hafter (by rw [he]; nofun), by simp [hn]⟩
  | calling target _ he hn =>
    refine ⟨by simp [hn], fun _ _ => ?_⟩
    have hw : (d.afterLine (d.lineResult registers x p)).waiting? =
        some ((d.lineResult registers x p).execution.callFrame d.id) := by
      simp [waiting?, afterLine, he]
    exact congrArg (Bond.mk _ _) hw

theorem answers_tick {d : Device σ} {side : Side} (h : d.Sound side) (registers : RegisterBank) :
    d.Answers (d.tick registers).device (d.tick registers).event := by
  have ht := d.ticked registers
  generalize d.tick registers = t at ht ⊢
  cases ht with
  | reported hr => exact ⟨hr, rfl⟩
  | unstarted | waiting | stopped => exact .same
  | lost => exact Bond.LetsGo.of_drop (bond_fail d _)
  | @faulted x p cause _ _ _ _ hf =>
    exact Bond.LetsGo.of_drop
      (bond_dropCallChain (waiting?_of_running rfl (by rw [hf]; nofun)) cause.message)
  | advanced _ hx hp hs _ hc => exact (answers_afterLine h registers hx hp hs).1 hc
  | @calledOver x p target _ hx hp hs _ hc hd =>
    exact ⟨hd, rfl, waiting?_of_running hx (by rw [hs]; nofun),
      (answers_afterLine h registers hx hp hs).2 target hc⟩
  | @calledHere x p target ref _ hx hp hs _ hc _ hr called hd mode _ =>
    obtain ⟨-, q, hq, -⟩ := Library.link_of_resolve hr
    have hb := (answers_afterLine h registers hx hp hs).2 target hc
    have hcalled : called.bond = (d.afterLine (d.lineResult registers x p)).bond := by
      rw [bond_pop (d := called) (by rw [hd]) (by rw [hd]; rfl), hd]
      rfl
    have hbegin := bond_begin (d := called) (by rw [hd]; exact hq) mode 0
    rw [hcalled, hb] at hbegin
    exact Bond.LetsGo.of_free hbegin
  | @refused x p target e =>
    exact Bond.LetsGo.of_drop (bond_fail (d.afterLine (d.lineResult registers x p)) e)
  | @polled x p handle _ hx hp hs =>
    have hn : (x.advance p d.arm).1.status ≠ .awaitingCall := by
      rcases Execution.advance_cases hs d.arm (p := p) with he | he
      · rw [he, hs]
        nofun
      · rw [he]
        exact Execution.moveOn_ne_awaitingCall p nofun
    exact Bond.LetsGo.of_free (bond_withRun _ d.frames (x.advance p d.arm).2.1 hn)
  | @returnedOver x p frame rest hq hx _ hs hr hd =>
    obtain ⟨-, rfl⟩ := h.toFramed.rest_of_foreign hr hd
    refine ⟨?_, hq, rfl⟩
    change d.caller? = some frame
    rw [caller?, hr, foreign?_singleton hd]
  | @returnLost x p frame rest _ _ _ _ hr hd =>
    have hb := bond_fail { d with returnStack := rest }
      (.outside "program" frame.program.index d.library.length)
    rw [← bond_pop hr hd] at hb
    exact Bond.LetsGo.of_drop hb
  | @returnedHere x p q frame rest _ _ _ _ hr hd =>
    have hn : (returned frame q).status ≠ .awaitingCall := by
      unfold returned Execution.finished Execution.paused Execution.start
      split_ifs <;> simp_all
    have hb := bond_withRun (d := { d with returnStack := rest }) _ d.frames d.arm hn
    rw [← bond_pop hr hd] at hb
    exact Bond.LetsGo.of_free hb

end Device

end TeachPendant
