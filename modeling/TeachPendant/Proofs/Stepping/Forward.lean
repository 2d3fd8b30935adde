import TeachPendant.Arm.Instant
import TeachPendant.Proofs.Linking.CallGraph
import TeachPendant.Proofs.Stepping.SameRun

namespace TeachPendant

namespace Execution

/-- What the lines that the run has still to do cost. While the arm moves, a part of the line is paid;
the line that waits for a call is. -/
def due (l : Library) (cost : Nat → Nat) (x : Execution) : Nat :=
  match x.status with
  | .running => l.costFrom cost x.program.index x.current
  | .awaitingMotion _ => l.costFrom cost x.program.index x.current - 1
  | .awaitingCall => l.costFrom cost x.program.index (x.current + 1)
  | .done _ | .fault _ => 0

section Due

variable {l : Library} (cost : Nat → Nat) {x : Execution} {p : Program}

theorem due_of_terminal (h : x.status.isTerminal = true) : x.due l cost = 0 := by
  unfold due
  cases hs : x.status with
  | running | awaitingMotion | awaitingCall => simp [hs, Status.isTerminal] at h
  | done | fault => rfl

theorem due_of_running (hs : x.status = .running) :
    x.due l cost = l.costFrom cost x.program.index x.current := by
  simp only [due, hs]

theorem due_of_awaitingCall (hs : x.status = .awaitingCall) :
    x.due l cost = l.costFrom cost x.program.index (x.current + 1) := by
  simp only [due, hs]

/-- A line is paid for when it has been run. -/
theorem costFrom_current (hp : l.get? x.program.index = some p) (hl : x.OnLine p) :
    l.costFrom cost x.program.index x.current =
      l.costFrom cost x.program.index (x.current + 1) + cost x.program.index := by
  have hlt := hl.current_lt
  have hleft : p.length - x.current = p.length - (x.current + 1) + 1 := by omega
  rw [Library.costFrom_of_some hp, Library.costFrom_of_some hp, hleft, Nat.succ_mul]

theorem costFrom_le {k i j : Nat} (hij : i ≤ j) :
    l.costFrom cost k j ≤ l.costFrom cost k i := by
  unfold Library.costFrom
  split
  · exact Nat.le_refl 0
  · exact Nat.mul_le_mul_right _ (Nat.sub_le_sub_left hij _)

/-- Going to a line, or to the end. -/
theorem due_moveOn (hp : l.get? x.program.index = some p) (hm : x.mode = .full)
    (hs : x.status = .running) {i : Nat} (hn : x.next = i) (hi : i ≤ p.length) :
    (x.moveOn p).due l cost = l.costFrom cost x.program.index i := by
  rcases Nat.eq_or_lt_of_le hi with rfl | hlt
  · rw [moveOn_of_end (Or.inl hn), Library.costFrom_of_some hp, Nat.sub_self, Nat.zero_mul]
    rfl
  · rw [moveOn_of_lt hn hlt]
    simp only [hm, hs, if_true, due]

theorem OnLine.due_moveOn (hl : x.OnLine p) (hp : l.get? x.program.index = some p)
    (hm : x.mode = .full) (hs : x.status = .running) :
    (x.moveOn p).due l cost = l.costFrom cost x.program.index (x.current + 1) := by
  have hn : x.next = ((x.current + 1 : Nat) : Int) := by
    rw [hl.next_eq, hm, following]
    omega
  exact Execution.due_moveOn cost hp hm hs hn hl.current_lt

/-- What a line leaves costs less than the line did; the price of a line that calls is left over for
the call. -/
structure Pays {σ : Type} (l : Library) (cost : Nat → Nat) (x : Execution) (p : Program)
    (s : StepResult σ) : Prop where
  spent : s.call = none → s.execution.due l cost < x.due l cost
  calls : ∀ target, s.call = some target → s.execution.status = .awaitingCall ∧
    p.Transfers x.current (.call target) ∧
    s.execution.due l cost + cost x.program.index = x.due l cost

variable {cost} {σ : Type}

theorem Pays.of_lt {s : StepResult σ} (hcall : s.call = none)
    (h : s.execution.due l cost < x.due l cost) : Pays l cost x p s :=
  ⟨fun _ => h, fun _ ht => absurd (hcall.symm.trans ht) nofun⟩

/-- A line that faults calls nothing. -/
theorem Pays.call_eq_none {s : StepResult σ} (h : Pays l cost x p s) {cause : Error}
    (hs : s.execution.status = .fault cause) : s.call = none := by
  cases hcall : s.call with
  | none => rfl
  | some target => cases hs.symm.trans (h.calls target hcall).1

variable [MotionService σ]

theorem pays_follow (hp : l.get? x.program.index = some p) (hl : x.OnLine p) (hm : x.mode = .full)
    (hs : x.status = .running) (hcost : 2 ≤ cost x.program.index) (hahead : p.JumpsAhead)
    {effect : Effect} (ht : effect.flow.isTransfer = true → p.Transfers x.current effect.flow)
    (arm : σ) : Pays l cost x p (x.follow p effect arm) := by
  have hdue : x.due l cost = l.costFrom cost x.program.index (x.current + 1) +
      cost x.program.index := by rw [due_of_running cost hs, costFrom_current cost hp hl]
  unfold follow
  cases hf : effect.flow with
  | next =>
    refine .of_lt rfl ?_
    simp only [hl.due_moveOn cost hp hm hs]
    omega
  | jump label =>
    rw [hf] at ht
    cases hj : p.findLabel label with
    | none =>
      simp only [hj]
      exact .of_lt rfl (by rw [due_of_terminal cost rfl]; omega)
    | some k =>
      simp only [hj]
      refine .of_lt rfl ?_
      have hlater : x.current + 1 ≤ k := hahead _ label k (ht rfl) hj
      have hmove := Execution.due_moveOn (l := l) cost (x := { x with next := k }) hp hm hs
        rfl (Nat.le_of_lt (findLabel_lt hj))
      have hle := costFrom_le (l := l) cost (k := x.program.index) hlater
      dsimp only at hmove ⊢
      rw [hmove, hdue]
      omega
  | move m =>
    refine .of_lt rfl ?_
    show l.costFrom cost x.program.index x.current - 1 < x.due l cost
    rw [due_of_running cost hs] at hdue ⊢
    omega
  | call target =>
    rw [hf] at ht
    cases hk : target.link with
    | none =>
      simp only [hk]
      exact .of_lt rfl (by rw [due_of_terminal cost rfl]; omega)
    | some ref =>
      simp only [hk]
      refine ⟨nofun, fun target' htarget => ?_⟩
      obtain rfl : target = target' := Option.some.inj htarget
      exact ⟨rfl, ht rfl, hdue.symm⟩

theorem pays_step (hp : l.get? x.program.index = some p) (hl : x.OnLine p) (hm : x.mode = .full)
    (hs : x.status = .running) (hcost : 2 ≤ cost x.program.index) (hahead : p.JumpsAhead)
    (c : Context) (arm : σ) : Pays l cost x p (x.step p c arm) := by
  have hdue : x.due l cost = l.costFrom cost x.program.index (x.current + 1) +
      cost x.program.index := by rw [due_of_running cost hs, costFrom_current cost hp hl]
  have hmove : (x.moveOn p).due l cost < x.due l cost := by
    rw [hl.due_moveOn cost hp hm hs]
    omega
  have hfail (e : Error) : (x.fail e).due l cost < x.due l cost := by
    rw [due_of_terminal cost rfl]
    omega
  have hstep := stepped x p c arm
  generalize x.step p c arm = s at hstep ⊢
  cases hstep with
  | stopped hstopped => exact absurd hs hstopped
  | lost | broken => exact .of_lt rfl (hfail _)
  | passed | skipped => exact .of_lt rfl hmove
  | followed _ hi _ he =>
    exact pays_follow hp hl hm hs hcost hahead
      (fun ht => ⟨_, hi, Instruction.transfer_mem _ he ht⟩) arm

end Due

end Execution

/-- What going back to a caller costs. The lines of a caller on another device are priced there. -/
def ReturnFrame.due (l : Library) (cost : Nat → Nat) (id : UInt8) (f : ReturnFrame) : Nat :=
  if f.device = id then l.costFrom cost f.program.index f.resumeAt + 1 else 1

theorem ReturnFrame.due_pos (l : Library) (cost : Nat → Nat) (id : UInt8) (f : ReturnFrame) :
    0 < f.due l cost id := by
  unfold due
  split_ifs <;> omega

/-- What the call of an event costs on the other device. -/
def DeviceEvent.toll (l : Side → Library) (cost : Side → Nat → Nat) : DeviceEvent → Nat
  | .crossCall target _ => callCost l cost target + 1
  | .idle | .busy | .returned _ | .callFailed _ _ => 0

namespace Device

variable {σ : Type} (cost : Nat → Nat)

/-- What the callers and a report cost. -/
def owed (cost : Nat → Nat) (d : Device σ) : Nat :=
  (d.returnStack.map (·.due d.library cost d.id)).sum + if d.abandoned.isSome then 1 else 0

def dueWith (cost : Nat → Nat) (d : Device σ) : Nat :=
  d.execution.elim 0 (·.due d.library cost) + d.owed cost

theorem dueWith_of_execution {d : Device σ} {x : Execution} (h : d.execution = some x) :
    d.dueWith cost = x.due d.library cost + d.owed cost := by
  rw [dueWith, h, Option.elim_some]

theorem owed_push (d : Device σ) (f : ReturnFrame) :
    ({ d with returnStack := f :: d.returnStack } : Device σ).owed cost =
      f.due d.library cost d.id + d.owed cost := by
  simp only [owed, List.map_cons, List.sum_cons, Nat.add_assoc]

theorem owed_pop {d : Device σ} {f : ReturnFrame} {rest : List ReturnFrame}
    (hs : d.returnStack = f :: rest) : d.owed cost =
      f.due d.library cost d.id + ({ d with returnStack := rest } : Device σ).owed cost := by
  simp only [owed, hs, List.map_cons, List.sum_cons, Nat.add_assoc]

/-- A caller goes on with the lines after its call. -/
theorem due_returned {l : Library} {frame : ReturnFrame} {q : Program}
    (hq : l.get? frame.program.index = some q) (hm : frame.mode = .full) :
    (returned frame q).due l cost = l.costFrom cost frame.program.index frame.resumeAt := by
  unfold returned
  rw [hm, if_pos rfl]
  split_ifs with hend
  · rw [Library.costFrom_of_some hq, Nat.sub_eq_zero_of_le hend, Nat.zero_mul]
    rfl
  · rw [Execution.start_of_lt _ _ (Nat.lt_of_not_le hend)]
    rfl

theorem execution_dropCallChain (d : Device σ) (reason : String) :
    (d.dropCallChain reason).execution = d.execution := by
  rw [dropCallChain_eq]

/-- A caller that is dropped is worth the report to it. -/
theorem owed_dropCallChain_le (d : Device σ) (reason : String) :
    (d.dropCallChain reason).owed cost ≤ d.owed cost := by
  rw [dropCallChain_eq]
  unfold owed
  cases hc : d.caller? with
  | none => simp
  | some f =>
    have hmem : f ∈ d.returnStack := List.mem_reverse.mp (List.mem_of_find?_eq_some hc)
    have hle : f.due d.library cost d.id ≤ (d.returnStack.map (·.due d.library cost d.id)).sum :=
      List.single_le_sum (by simp) _ (List.mem_map_of_mem hmem)
    have hpos := f.due_pos d.library cost d.id
    simp only [List.map_nil, List.sum_nil, Option.isSome_some, if_true]
    omega

theorem dueWith_dropCallChain_le (d : Device σ) (reason : String) :
    (d.dropCallChain reason).dueWith cost ≤ d.dueWith cost := by
  have howed := owed_dropCallChain_le cost d reason
  rw [dueWith, library_dropCallChain, execution_dropCallChain]
  exact Nat.add_le_add_left howed _

theorem dueWith_fail_le (d : Device σ) (cause : Error) :
    (d.fail cause).1.dueWith cost ≤ d.owed cost := by
  have howed := owed_dropCallChain_le cost
    ({ d with execution := d.execution.map fun x => x.fail cause } : Device σ) cause.message
  have hrun : (d.fail cause).1.execution.elim 0 (·.due (d.fail cause).1.library cost) = 0 := by
    rw [execution_fail]
    cases d.execution with
    | none => rfl
    | some x => exact Execution.due_of_terminal (l := d.library) cost (x := x.fail cause) rfl
  rw [dueWith, hrun, Nat.zero_add]
  exact howed

theorem dueWith_begin_le {d : Device σ} {ref : ProgramRef} {p : Program}
    (hp : d.library.get? ref.index = some p) :
    (d.begin ref .full 0).1.dueWith cost ≤ d.library.costFrom cost ref.index 0 + d.owed cost := by
  rw [begin_of_some hp]
  refine Nat.add_le_add_right ?_ (d.owed cost)
  rw [Option.elim_some]
  split_ifs
  · exact Nat.zero_le _
  · by_cases hlength : 0 < p.length
    · rw [Execution.start_of_lt ref .full hlength]
      exact Nat.le_refl _
    · rw [Execution.start_of_le ref .full (Nat.le_of_not_lt hlength)]
      exact Nat.zero_le _

theorem dueWith_begin_push_le {d : Device σ} {ref : ProgramRef} {p : Program}
    (hp : d.library.get? ref.index = some p) (f : ReturnFrame) :
    (({ d with returnStack := f :: d.returnStack } : Device σ).begin ref .full 0).1.dueWith cost ≤
      d.library.costFrom cost ref.index 0 + f.due d.library cost d.id + d.owed cost := by
  have hbegin := dueWith_begin_le cost (d := { d with returnStack := f :: d.returnStack }) hp
  rwa [owed_push, ← Nat.add_assoc] at hbegin

theorem dueWith_of_not_busy {d : Device σ} (h : d.isBusy = false) : d.dueWith cost = d.owed cost := by
  rw [dueWith]
  cases hx : d.execution with
  | none => exact Nat.zero_add _
  | some x =>
    rw [Option.elim_some, Execution.due_of_terminal cost (terminal_of_not_busy h hx), Nat.zero_add]

/-- A call that is taken costs what the called program does, and the way back to the caller. -/
theorem dueWith_acceptCall_le {d d' : Device σ} {l : Side → Library} {price : Side → Nat → Nat}
    {side : Side} (hlibrary : d.library = l side) {target : CallTarget}
    (hside : Side.ofId? target.device = some side) {f : ReturnFrame} (hf : f.mode = .full)
    (hforeign : f.device ≠ d.id) {trace : Trace} (h : d.acceptCall target f = .ok (d', trace)) :
    d'.dueWith (price side) ≤
      d.dueWith (price side) + callCost l price target + 1 := by
  unfold acceptCall at h
  split_ifs at h with hb
  cases hresolve : d.library.resolve target with
  | error e =>
    rw [hresolve] at h
    cases h
  | ok ref =>
    simp only [hresolve, hf] at h
    obtain rfl : _ = d' := congrArg Prod.fst (Except.ok.inj h)
    obtain ⟨-, p, hp, -⟩ := Library.link_of_resolve hresolve
    have hbegin := dueWith_begin_push_le (price side) hp f
    have hcost : callCost l price target = d.library.costFrom (price side) ref.index 0 := by
      rw [hlibrary] at hresolve ⊢
      rw [callCost, callee?_of_resolve (Side.eq_of_ofId? hside) hresolve]
    have hframe : f.due d.library (price side) d.id = 1 := if_neg hforeign
    have hfree := dueWith_of_not_busy (price side) (by simpa using hb)
    rw [hframe] at hbegin
    omega

theorem dueWith_resumeAfterCall_le {d : Device σ} {side : Side} (hs : d.Sound side) (hf : d.Full) :
    d.resumeAfterCall.dueWith cost ≤ d.dueWith cost := by
  by_cases hw : d.status? = some .awaitingCall
  · obtain ⟨x, hx, hxs⟩ := Option.map_eq_some_iff.mp hw
    have hb := isBusy_of_running hx (by simp [hxs, Status.isTerminal])
    obtain ⟨p, hp, hline⟩ := hs.runs hb x hx
    have hl := (hline (by simp [hxs, Status.standing])).withStatus .running
    have hmove := hl.due_moveOn cost hp (hf.run x hx).1.mode rfl
    have hresume : d.resumeAfterCall =
        { d with execution := some (({ x with status := .running } : Execution).moveOn p) } := by
      simp only [resumeAfterCall, hx, hp, Execution.resumeAfterCall, hxs, if_true]
    rw [hresume, dueWith_of_execution cost rfl, dueWith_of_execution cost hx, hmove,
      Execution.due_of_awaitingCall cost hxs]
    exact Nat.le_refl _
  · rw [resumeAfterCall_of_not_waiting hw]

theorem dueWith_reported_lt {d : Device σ} (h : d.abandoned.isSome) :
    ({ d with abandoned := none } : Device σ).dueWith cost < d.dueWith cost := by
  simp [dueWith, owed, h]

section Turn

variable {d : Device InstantArm} {side : Side} {l : Side → Library} {price : Side → Nat → Nat}
  {registers : RegisterBank} {x : Execution} {p : Program}

/-- Whatever a line does, it is paid for by the line. -/
theorem Plain.pays_lineResult (hf : d.Plain (l side)) (hs : d.Sound side)
    (hprice : Affordable l price) (hahead : ∀ s k p, (l s).get? k = some p → p.JumpsAhead)
    (registers : RegisterBank) (hx : d.execution = some x)
    (hp : d.library.get? x.program.index = some p) (hrun : x.status = .running) :
    x.Pays d.library (price side) p (d.lineResult registers x p) := by
  have hline := hs.onLine hx hp (by simp [hrun, Status.isTerminal])
  have hj := hahead side _ p (hf.library ▸ hp)
  exact Execution.pays_step hp hline (hf.run x hx).1.mode hrun (hprice.two_le _ _) hj _ _

theorem dueWith_afterLine (d : Device InstantArm) (registers : RegisterBank) (x : Execution)
    (p : Program) : (d.afterLine (d.lineResult registers x p)).dueWith cost =
      (d.lineResult registers x p).execution.due d.library cost + d.owed cost := rfl

theorem dueWith_advanced_lt (hpays : x.Pays d.library cost p (d.lineResult registers x p))
    (hx : d.execution = some x) (hcall : (d.lineResult registers x p).call = none) :
    (d.afterLine (d.lineResult registers x p)).dueWith cost < d.dueWith cost := by
  rw [dueWith_afterLine, dueWith_of_execution cost hx]
  exact Nat.add_lt_add_right (hpays.spent hcall) _

theorem dueWith_faulted_lt (hpays : x.Pays d.library cost p (d.lineResult registers x p))
    (hx : d.execution = some x) {cause : Error}
    (hstatus : (d.lineResult registers x p).execution.status = .fault cause) :
    ((d.afterLine (d.lineResult registers x p)).dropCallChain cause.message).dueWith cost <
      d.dueWith cost :=
  Nat.lt_of_le_of_lt (dueWith_dropCallChain_le cost _ _)
    (dueWith_advanced_lt cost hpays hx (hpays.call_eq_none hstatus))

/-- A line that calls is worth what it leaves, the call and one more. -/
theorem Plain.due_called_lt (hf : d.Plain (l side)) (hprice : Affordable l price)
    (hpays : x.Pays d.library (price side) p (d.lineResult registers x p))
    (hx : d.execution = some x) (hp : d.library.get? x.program.index = some p)
    {target : CallTarget} (hcall : (d.lineResult registers x p).call = some target) :
    (d.lineResult registers x p).execution.due d.library (price side) + d.owed (price side) +
      (callCost l price target + 1) < d.dueWith (price side) := by
  obtain ⟨-, htransfer, hdue⟩ := hpays.calls target hcall
  have hcost := hprice.callCost_lt (hf.library ▸ hp) htransfer.mem
  rw [dueWith_of_execution _ hx]
  omega

/-- The callee of a call on the same device is begun on top of the line that called it. -/
theorem Plain.dueWith_calledHere_lt (hf : d.Plain (l side)) (hs : d.Sound side)
    (hprice : Affordable l price)
    (hpays : x.Pays d.library (price side) p (d.lineResult registers x p))
    (hx : d.execution = some x) (hp : d.library.get? x.program.index = some p)
    {target : CallTarget} (hcall : (d.lineResult registers x p).call = some target)
    (hdevice : target.device = d.id) {ref : ProgramRef}
    (hresolve : d.library.resolve target = .ok ref) :
    (({ d.afterLine (d.lineResult registers x p) with
        returnStack := (d.lineResult registers x p).execution.callFrame d.id :: d.returnStack } :
      Device InstantArm).begin ref (d.lineResult registers x p).execution.mode 0).1.dueWith
        (price side) < d.dueWith (price side) := by
  have hwaits := (hpays.calls target hcall).1
  have hcalled := hf.due_called_lt hprice hpays hx hp hcall
  have hfound : callCost l price target = d.library.costFrom (price side) ref.index 0 := by
    rw [hf.library] at hresolve ⊢
    rw [callCost, callee?_of_resolve (hdevice.trans hs.id_eq) hresolve]
  have hmode : (d.lineResult registers x p).execution.mode = .full :=
    ((hf.toFull.afterLine registers hx hp).run _ rfl).1.mode
  have hframe : ((d.lineResult registers x p).execution.callFrame d.id).due d.library (price side)
      d.id = (d.lineResult registers x p).execution.due d.library (price side) + 1 := by
    rw [Execution.due_of_awaitingCall _ hwaits]
    exact if_pos rfl
  obtain ⟨-, q, hq, -⟩ := Library.link_of_resolve hresolve
  rw [hmode]
  refine Nat.lt_of_le_of_lt
    (dueWith_begin_push_le (price side) (d := d.afterLine (d.lineResult registers x p)) hq _) ?_
  change d.library.costFrom (price side) ref.index 0 +
    ((d.lineResult registers x p).execution.callFrame d.id).due d.library (price side) d.id +
      d.owed (price side) < d.dueWith (price side)
  omega

/-- The arm has arrived, and the rest of the line is paid. -/
theorem Plain.dueWith_polled_lt (hf : d.Plain (l side)) (hs : d.Sound side)
    (hprice : Affordable l price) (hx : d.execution = some x)
    (hp : d.library.get? x.program.index = some p) {handle : Nat}
    (hmoving : x.status = .awaitingMotion handle) :
    ({ d with execution := some (x.advance p d.arm).1
              arm := (x.advance p d.arm).2.1 } : Device InstantArm).dueWith (price side) <
      d.dueWith (price side) := by
  have hline := hs.onLine hx hp (by simp [hmoving, Status.isTerminal])
  have hadvance : (x.advance p d.arm).1 = ({ x with status := .running } : Execution).moveOn p := by
    unfold Execution.advance
    rw [hmoving]
    rfl
  have hmove := (hline.withStatus .running).due_moveOn (price side) hp (hf.run x hx).1.mode rfl
  have hcurrent := Execution.costFrom_current (price side) hp hline
  have htwo := hprice.two_le side x.program.index
  have hdue : x.due d.library (price side) =
      d.library.costFrom (price side) x.program.index x.current - 1 := by
    simp only [Execution.due, hmoving]
  have hless : (x.advance p d.arm).1.due d.library (price side) < x.due d.library (price side) := by
    rw [hadvance, hmove, hdue]
    dsimp only
    omega
  rw [dueWith_of_execution _ hx]
  exact Nat.add_lt_add_right hless _

theorem dueWith_returnedOver_lt {f : ReturnFrame} {rest : List ReturnFrame}
    (hstack : d.returnStack = f :: rest) :
    ({ d with returnStack := rest } : Device InstantArm).dueWith cost < d.dueWith cost := by
  have hpos := f.due_pos d.library cost d.id
  have hpop := owed_pop cost hstack
  rw [dueWith, dueWith, hpop]
  dsimp only
  omega

/-- The way back is paid, and the lines of the caller were paid for on the stack. -/
theorem Plain.dueWith_returnedHere_lt (hf : d.Plain (l side)) {f : ReturnFrame}
    {rest : List ReturnFrame} (hstack : d.returnStack = f :: rest) (hdevice : f.device = d.id)
    {q : Program} (hq : d.library.get? f.program.index = some q) :
    ({ d with returnStack := rest, execution := some (returned f q) } :
      Device InstantArm).dueWith cost < d.dueWith cost := by
  have hframe : f.due d.library cost d.id =
      d.library.costFrom cost f.program.index f.resumeAt + 1 := if_pos hdevice
  have hreturned := due_returned cost hq (hf.frames f (by simp [hstack]))
  have hpop := owed_pop cost hstack
  have hback : ({ d with returnStack := rest, execution := some (returned f q) } :
      Device InstantArm).dueWith cost = (returned f q).due d.library cost +
        ({ d with returnStack := rest } : Device InstantArm).owed cost := rfl
  have hle : d.owed cost ≤ d.dueWith cost := Nat.le_add_left _ _
  omega

end Turn

/-- The turn of a device that has something to do. -/
theorem Plain.dueWith_tick_lt {d : Device InstantArm} {side : Side} {l : Side → Library}
    {price : Side → Nat → Nat} (hf : d.Plain (l side)) (hs : d.Sound side) (hl : Linked l)
    (hprice : Affordable l price)
    (hahead : ∀ s k p, (l s).get? k = some p → p.JumpsAhead) (hr : ¬ d.resting)
    (registers : RegisterBank) :
    (d.tick registers).device.dueWith (price side) +
      (d.tick registers).event.toll l price < d.dueWith (price side) := by
  have hyields := (hf.turned hs hl hr registers).yields
  have ht := d.ticked registers
  generalize d.tick registers = t at ht hyields ⊢
  cases ht with
  | reported hreport => exact dueWith_reported_lt (price side) (by simp [hreport])
  | unstarted | lost | refused | waiting | returnLost | stopped => exact hyields.elim
  | faulted _ hx hp hrun hstatus =>
    have hpays := hf.pays_lineResult hs hprice hahead registers hx hp hrun
    exact dueWith_faulted_lt (price side) hpays hx hstatus
  | advanced _ hx hp hrun _ hcall =>
    have hpays := hf.pays_lineResult hs hprice hahead registers hx hp hrun
    exact dueWith_advanced_lt (price side) hpays hx hcall
  | calledOver _ hx hp hrun _ hcall =>
    have hpays := hf.pays_lineResult hs hprice hahead registers hx hp hrun
    exact hf.due_called_lt hprice hpays hx hp hcall
  | calledHere _ hx hp hrun _ hcall hdevice hresolve hcalled hmode =>
    have hpays := hf.pays_lineResult hs hprice hahead registers hx hp hrun
    rw [hcalled, hmode]
    exact hf.dueWith_calledHere_lt hs hprice hpays hx hp hcall hdevice hresolve
  | polled _ hx hp hmoving => exact hf.dueWith_polled_lt hs hprice hx hp hmoving
  | returnedOver _ _ _ _ hstack _ => exact dueWith_returnedOver_lt (price side) hstack
  | returnedHere _ _ _ _ hstack hdevice hq =>
    exact hf.dueWith_returnedHere_lt (price side) hstack hdevice hq

end Device

namespace Cell

section Route

variable {σ : Type} {l : Side → Library} (price : Side → Nat → Nat)

/-- What the runs on both devices have still to do. -/
def dueWith (price : Side → Nat → Nat) (c : Cell σ) : Nat :=
  c.first.dueWith (price .first) + c.second.dueWith (price .second)

theorem dueWith_eq (c : Cell σ) (t : Side) : c.dueWith price =
    (c.get t).dueWith (price t) + (c.get t.other).dueWith (price t.other) := by
  cases t with
  | first => rfl
  | second => exact Nat.add_comm _ _

theorem dueWith_put_le {c : Cell σ} {t : Side} {d : Device σ} {n : Nat}
    (h : d.dueWith (price t) ≤ (c.get t).dueWith (price t) + n) :
    (c.put t d).dueWith price ≤ c.dueWith price + n := by
  rw [dueWith_eq price _ t, dueWith_eq price c t, get_put, get_put_other]
  omega

theorem dueWith_failSide_le (c : Cell σ) (s : Side) (cause : Error) :
    (c.failSide s cause).1.dueWith price ≤ c.dueWith price :=
  dueWith_put_le price (n := 0)
    ((Device.dueWith_fail_le (price s) (c.get s) cause).trans (Nat.le_add_left _ _))

/-- An event costs no more than its toll. -/
theorem dueWith_route_le {c : Cell σ} (hc : c.Sound) (hplain : ∀ s, (c.get s).Plain (l s)) {t : Side}
    {e : DeviceEvent} (hcall : ∀ target frame, e = .crossCall target frame →
      target.device ≠ t.id ∧ frame.device = t.id ∧ frame.mode = .full) :
    (c.route t e).1.dueWith price ≤ c.dueWith price + e.toll l price := by
  have hfail (s : Side) (cause : Error) :
      (c.failSide s cause).1.dueWith price ≤ c.dueWith price + e.toll l price :=
    (dueWith_failSide_le price c s cause).trans (Nat.le_add_right _ _)
  cases e with
  | idle | busy => exact Nat.le_refl _
  | crossCall target frame =>
    obtain ⟨htarget, hframe, hmode⟩ := hcall target frame rfl
    cases hside : Side.ofId? target.device with
    | none =>
      simp only [route, routeCall, hside]
      exact hfail t _
    | some callee =>
      obtain rfl := Side.eq_other_of_ofId? hside htarget
      have hforeign : frame.device ≠ (c.get t.other).id := by
        rw [hframe, (hc t.other).id_eq]
        exact t.id_other_ne.symm
      cases haccept : (c.get t.other).acceptCall target frame with
      | error e =>
        simp only [route, routeCall, hside, haccept]
        exact hfail t e
      | ok taken =>
        simp only [route, routeCall, hside, haccept]
        exact dueWith_put_le price (Device.dueWith_acceptCall_le (hplain t.other).library hside hmode
          hforeign haccept)
  | callFailed caller reason =>
    simp only [route, routeFailure]
    cases Side.ofId? caller with
    | none => exact Nat.le_refl _
    | some s =>
      dsimp only
      split_ifs
      · exact hfail s _
      · exact Nat.le_refl _
  | returned frame =>
    simp only [route, routeReturn]
    cases Side.ofId? frame.device with
    | none => exact Nat.le_refl _
    | some s =>
      exact dueWith_put_le price
        (Device.dueWith_resumeAfterCall_le (price s) (hc s) (hplain s).toFull)

end Route

variable {c : Cell InstantArm} {l : Side → Library} {price : Side → Nat → Nat}

theorem Solo.dueWith_tickSide_lt (hl : Linked l) (hprice : Affordable l price)
    (hahead : ∀ s k p, (l s).get? k = some p → p.JumpsAhead) (h : c.Solo l) {t : Side}
    (hr : ¬ (c.get t).resting) : (c.tickSide t).1.dueWith price < c.dueWith price := by
  have hturned := h.turned hl hr
  have hfull := (h.plain t).toFull.tick c.registers
  have hanswers := Device.answers_tick (h.sound t) c.registers
  have hlt := (h.plain t).dueWith_tick_lt (h.sound t) hl hprice hahead hr c.registers
  have hsound := (h.sound t).tick c.registers
  simp only [Cell.tickSide]
  generalize (c.get t).tick c.registers = u at hturned hfull hanswers hlt hsound ⊢
  obtain ⟨c₁, hc₁⟩ : ∃ c₁ : Cell InstantArm,
    c₁ = { c.put t u.device with registers := u.registers } := ⟨_, rfl⟩
  have hself : c₁.get t = u.device := by rw [hc₁, get_registers, get_put]
  have hother : c₁.get t.other = c.get t.other := by rw [hc₁, get_registers, get_put_other]
  have hsound₁ : c₁.Sound := Side.forall_of t (hself ▸ hsound) (hother ▸ h.sound t.other)
  have hplain : ∀ s, (c₁.get s).Plain (l s) := by
    refine Side.forall_of t ?_ (hother ▸ h.plain t.other)
    rw [hself]
    exact ⟨hfull.1, hturned.library.trans (h.plain t).library, hturned.owing⟩
  have hroute := dueWith_route_le price hsound₁ hplain (t := t) (e := u.event) ?_
  · rw [← hc₁]
    have hbefore := c.dueWith_eq price t
    have hafter := c₁.dueWith_eq price t
    rw [hself, hother] at hafter
    omega
  · intro target frame he
    rw [he] at hanswers
    obtain ⟨htarget, hframe, -⟩ := hanswers
    rw [(h.sound t).id_eq] at htarget hframe
    exact ⟨htarget, hframe, hfull.2 target frame he⟩

end Cell

namespace Recorded

variable {l : Side → Library} {price : Side → Nat → Nat} {r : Recorded InstantArm}

theorem dueWith_turn_lt (hl : Linked l) (hprice : Affordable l price)
    (hahead : ∀ s k p, (l s).get? k = some p → p.JumpsAhead) (h : r.cell.Solo l)
    (hr : ¬ r.Resting) : r.turn.cell.dueWith price < r.cell.dueWith price := by
  obtain ⟨t, ht⟩ := Classical.not_forall.mp hr
  rw [turn_of_active h ht]
  exact h.dueWith_tickSide_lt hl hprice hahead ht

/-- After as many turns as the run costs nothing is left to do. -/
theorem resting_after (hl : Linked l) (hprice : Affordable l price)
    (hahead : ∀ s k p, (l s).get? k = some p → p.JumpsAhead) (h : r.cell.Solo l) {n : Nat}
    (hn : r.cell.dueWith price ≤ n) : (r.after n).Resting := by
  induction n generalizing r with
  | zero =>
    by_contra hr
    exact absurd (dueWith_turn_lt hl hprice hahead h hr) (by omega)
  | succ n ih =>
    by_cases hr : r.Resting
    · rw [after_of_resting hr]
      exact hr
    · have hlt := dueWith_turn_lt hl hprice hahead h hr
      rw [Nat.add_comm, after_add]
      exact ih (solo_after hl h 1) (Nat.le_of_lt_succ (Nat.lt_of_lt_of_le hlt hn))

theorem resting_run (hl : Linked l) (hprice : Affordable l price)
    (hahead : ∀ s k p, (l s).get? k = some p → p.JumpsAhead) (h : r.cell.Solo l) {m : Nat}
    (hm : r.cell.dueWith price ≤ m) : (r.run m).Resting := by
  obtain ⟨a, ha, hle | hr⟩ := run_reaches hl h m
  · rw [ha]
    exact resting_after hl hprice hahead h (hm.trans hle)
  · rwa [ha]

theorem cell_run {σ : Type} [MotionService σ] (r : Recorded σ) (m : Nat) :
    (r.run m).cell = r.cell.operate (List.replicate m .tick) := by
  induction m with
  | zero => rfl
  | succ m ih =>
    rw [run, cell_tick, ih, List.replicate_succ', Cell.operate_append]
    rfl

end Recorded

namespace Cell

/-- When both devices rest, the cell is not busy. -/
theorem Solo.not_busy {σ : Type} {c : Cell σ} {l : Side → Library} (h : c.Solo l)
    (hr : ∀ s, (c.get s).resting) : c.isBusy = false := by
  have hside (s : Side) : (c.get s).isBusy = false := by
    obtain ⟨hfree, hstack⟩ := h.over hr s
    have hrest := ((Device.resting_iff _).mp (hr s)).2
    cases hx : (c.get s).execution with
    | none => simp [Device.isBusy, Device.isActive, Device.status?, hx, hstack]
    | some x =>
      rcases (hrest x hx).2 with hw | ⟨hterminal, -⟩
      · exact absurd (by simp [Device.status?, hx, hw]) hfree
      · simp [Device.isBusy, Device.isActive, Device.status?, hx, hterminal, hstack]
  have hfirst : c.first.isBusy = false := hside .first
  have hsecond : c.second.isBusy = false := hside .second
  rw [isBusy, hfirst, hsecond]
  rfl

/-- Without jumps back and without recursion a program that is started comes to its end: from some
tick on the cell is not busy any more. -/
theorem forward_run_ends (registers : RegisterBank) (first second : Library)
    (arm : Side → InstantArm) {device : UInt8} {program : String} {line : Nat}
    {c : Cell InstantArm} {trace : Trace} :
    let built := (build registers first second arm).1
    (∀ s k p, (built.library s).get? k = some p → p.JumpsAhead) → Acyclic built.library →
      built.start device program .full line = .ok (c, trace) →
      ∃ n, ∀ m, n ≤ m → (c.operate (List.replicate m .tick)).isBusy = false := by
  intro built hahead hacyclic hstart
  obtain ⟨price, hprice⟩ := hacyclic.exists_affordable
  have hl : Linked built.library := linked_build registers first second arm
  have hsolo : c.Solo built.library := solo_of_start registers first second arm hstart
  refine ⟨c.dueWith price, fun m hm => ?_⟩
  have hsolo' : (Recorded.ofCell c).cell.Solo built.library := hsolo
  have hrest := Recorded.resting_run hl hprice hahead hsolo' hm
  obtain ⟨a, ha, -⟩ := Recorded.run_reaches hl hsolo' m
  have hrun : ((Recorded.ofCell c).run m).cell.Solo built.library :=
    ha ▸ Recorded.solo_after hl hsolo' a
  have hcell := (Recorded.ofCell c).cell_run m
  rw [hcell] at hrun
  exact hrun.not_busy fun s => hcell ▸ hrest s

/-- `MAIN` calls `WORK` on the other device, jumps over a line, and calls `SUB`, which is empty. `WORK`
jumps if a condition holds, and makes a call too. -/
def relay : Cell InstantArm :=
  (build (.ofSizes 0 0 0)
    ⟨[.written "MAIN" [.call { program := "WORK", device := 1 }, .jump 7, .blank, .label 7,
        .call { program := "SUB", device := 0 }],
      .written "SUB" []]⟩
    ⟨[.written "WORK" [.ifThen (.sequence [.operand (.flag true)]) (.ofAction (.jump 3)), .label 3,
        .call { program := "LAST", device := 1 }],
      .written "LAST" [.blank]]⟩ fun _ => {}).1

theorem forward_run_ends_relay :
    (∀ s k p, (relay.library s).get? k = some p → p.JumpsAhead) ∧ Acyclic relay.library ∧
      ∃ c trace, relay.start 0 "MAIN" .full 0 = .ok (c, trace) ∧
        ∃ n, ∀ m, n ≤ m → (c.operate (List.replicate m .tick)).isBusy = false := by
  have hahead : ∀ s k p, (relay.library s).get? k = some p → p.JumpsAhead := by
    have hside : ∀ s, ∀ p ∈ (relay.library s).programs, p.JumpsAhead := by
      intro s
      cases s <;> decide
    exact fun s k p hp => hside s p (List.mem_of_getElem? hp)
  have hacyclic : Acyclic relay.library := by
    -- `MAIN` stands above `WORK`, and `SUB` and `LAST` above nothing.
    refine acyclic_of_rank (fun P => if P.2 = 1 then 0 else if P.1 = .first then 2 else 1) ?_
    intro s
    cases s <;> decide
  obtain ⟨c, trace, hstart⟩ : ∃ c trace, relay.start 0 "MAIN" .full 0 = .ok (c, trace) :=
    ⟨_, _, rfl⟩
  exact ⟨hahead, hacyclic, c, trace, hstart, forward_run_ends _ _ _ _ hahead hacyclic hstart⟩

end Cell

end TeachPendant
