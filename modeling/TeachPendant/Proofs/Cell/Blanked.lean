import TeachPendant.Arm.Instant
import TeachPendant.Proofs.Cell.Libraries
import TeachPendant.Proofs.Instruction.Blanked

namespace TeachPendant

namespace Program.Blanked

variable {p q : Program}

theorem start_eq (h : p.Blanked q) (ref : ProgramRef) (mode : RunMode) (i : Nat) :
    Execution.start ref q mode i = Execution.start ref p mode i := by
  rw [Execution.start, Execution.start, h.length_eq]

theorem finished_eq (h : p.Blanked q) (ref : ProgramRef) (mode : RunMode) :
    Execution.finished ref q mode = Execution.finished ref p mode := by
  rw [Execution.finished, Execution.finished, h.length_eq]

theorem moveOn_eq (h : p.Blanked q) (x : Execution) : x.moveOn q = x.moveOn p := by
  rw [Execution.moveOn, Execution.moveOn, h.length_eq]

theorem resumeAfterCall_eq (h : p.Blanked q) (x : Execution) :
    x.resumeAfterCall q = x.resumeAfterCall p := by
  rw [Execution.resumeAfterCall, Execution.resumeAfterCall, h.moveOn_eq]

theorem returned_eq (h : p.Blanked q) (frame : ReturnFrame) :
    Device.returned frame q = Device.returned frame p := by
  rw [Device.returned, Device.returned, Execution.paused, Execution.paused, h.length_eq,
    h.finished_eq, h.start_eq]

variable {σ : Type} [MotionService σ]

theorem advance_eq (h : p.Blanked q) (x : Execution) (arm : σ) : x.advance q arm = x.advance p arm := by
  simp only [Execution.advance, h.moveOn_eq]

theorem follow_eq (h : p.Blanked q) (x : Execution) (effect : Effect) (arm : σ) :
    x.follow q effect arm = x.follow p effect arm := by
  simp only [Execution.follow, h.moveOn_eq, h.findLabel_eq]

/-- A commented motion is run in backward mode too, and like a blank line it is passed over. -/
theorem step_eq (h : p.Blanked q) (x : Execution) (c : Context) (arm : σ) :
    x.step q c arm = x.step p c arm := by
  rcases h.instruction?_cases x.current with ⟨hp, hq⟩ | ⟨i, j, hp, hq, hij⟩
  · simp only [Execution.step, hp, hq, h.length_eq]
  · cases hij with
    | blanked action =>
      simp [Execution.step, hp, hq, h.moveOn_eq, Instruction.execute, Action.execute, Execution.follow,
        Context.goOn]
    | @kept commented action action' hact =>
      have hmotion : (Instruction.mk action' commented).isMotion =
          (Instruction.mk action commented).isMotion := by cases hact <;> rfl
      simp only [Execution.step, hp, hq, hmotion, h.moveOn_eq, h.follow_eq, Execution.skipMessage,
        h.name_eq, h.positions_eq,
        Instruction.Blanked.execute_eq c p.positions (.kept commented hact)]

end Program.Blanked

namespace Device

variable {σ : Type}

def withLibrary (l : Library) (d : Device σ) : Device σ := { d with library := l }

section Projections

variable (d : Device σ) (l : Library)

@[simp] theorem library_withLibrary : (d.withLibrary l).library = l := rfl

@[simp] theorem id_withLibrary : (d.withLibrary l).id = d.id := rfl

@[simp] theorem execution_withLibrary : (d.withLibrary l).execution = d.execution := rfl

@[simp] theorem returnStack_withLibrary : (d.withLibrary l).returnStack = d.returnStack := rfl

@[simp] theorem status?_withLibrary : (d.withLibrary l).status? = d.status? := rfl

@[simp] theorem isBusy_withLibrary : (d.withLibrary l).isBusy = d.isBusy := rfl

end Projections

variable {d : Device σ} {l : Library}

theorem dropCallChain_withLibrary (d : Device σ) (l : Library) (reason : String) :
    (d.withLibrary l).dropCallChain reason = (d.dropCallChain reason).withLibrary l := by
  rw [dropCallChain_eq, dropCallChain_eq]
  rfl

theorem fail_withLibrary (d : Device σ) (l : Library) (cause : Error) :
    (d.withLibrary l).fail cause = ((d.fail cause).1.withLibrary l, (d.fail cause).2) := by
  unfold fail
  rw [← dropCallChain_withLibrary]
  rfl

theorem begin_withLibrary (h : d.library.Blanked l) (ref : ProgramRef) (mode : RunMode) (i : Nat) :
    (d.withLibrary l).begin ref mode i =
      ((d.begin ref mode i).1.withLibrary l, (d.begin ref mode i).2) := by
  unfold begin
  rcases h.get?_cases ref.index with ⟨hp, hq⟩ | ⟨p, q, hp, hq, hpq⟩
  · simp only [library_withLibrary, hp, hq]
    rfl
  · simp only [library_withLibrary, returnStack_withLibrary, hp, hq, hpq.isEmpty_eq, hpq.finished_eq,
      hpq.start_eq, hpq.name_eq]
    split_ifs <;> rfl

theorem start_withLibrary (h : d.library.Blanked l) (program : String) (mode : RunMode) (i : Nat) :
    (d.withLibrary l).start program mode i =
      (d.start program mode i).map fun (d', trace) => (d'.withLibrary l, trace) := by
  unfold start
  simp only [isBusy_withLibrary, library_withLibrary, h.find?_eq]
  split_ifs
  · rfl
  · cases d.library.find? program with
    | none => rfl
    | some index =>
      have hb := begin_withLibrary (d := { d with returnStack := [] }) h ⟨d.id, index⟩ mode i
      exact congrArg Except.ok hb

theorem resume_withLibrary (h : d.library.Blanked l) :
    (d.withLibrary l).resume = d.resume.map fun (d', trace) => (d'.withLibrary l, trace) := by
  unfold resume
  rw [execution_withLibrary]
  cases d.execution with
  | none => rfl
  | some x =>
    dsimp only
    split_ifs
    · rfl
    · exact congrArg Except.ok (begin_withLibrary h x.program x.mode x.current)

theorem acceptCall_withLibrary (h : d.library.Blanked l) (target : CallTarget) (frame : ReturnFrame) :
    (d.withLibrary l).acceptCall target frame =
      (d.acceptCall target frame).map fun (d', trace) => (d'.withLibrary l, trace) := by
  unfold acceptCall
  simp only [isBusy_withLibrary, library_withLibrary, h.resolve_eq]
  split_ifs
  · rfl
  · cases d.library.resolve target with
    | error e => rfl
    | ok ref =>
      have hb := begin_withLibrary (d := { d with returnStack := frame :: d.returnStack }) h ref
        frame.mode 0
      exact congrArg Except.ok hb

theorem resumeAfterCall_withLibrary (h : d.library.Blanked l) :
    (d.withLibrary l).resumeAfterCall = d.resumeAfterCall.withLibrary l := by
  unfold resumeAfterCall
  rw [execution_withLibrary, library_withLibrary]
  cases d.execution with
  | none => rfl
  | some x =>
    rcases h.get?_cases x.program.index with ⟨hp, hq⟩ | ⟨p, q, hp, hq, hpq⟩
    · simp only [hp, hq]
    · simp only [hp, hq, hpq.resumeAfterCall_eq]
      rfl

theorem dispatchCall_withLibrary (h : d.library.Blanked l) (x : Execution) (target : CallTarget) :
    (d.withLibrary l).dispatchCall x target =
      ((d.dispatchCall x target).1.withLibrary l, (d.dispatchCall x target).2) := by
  unfold dispatchCall
  simp only [id_withLibrary, library_withLibrary, h.resolve_eq]
  split_ifs
  · rfl
  · cases d.library.resolve target with
    | error e => simp only [fail_withLibrary]
    | ok ref =>
      have hb := begin_withLibrary
        (d := { d with returnStack := ⟨d.id, x.program, x.current + 1, x.mode⟩ :: d.returnStack }) h
        ref x.mode 0
      exact congrArg (fun r => (r.1, DeviceEvent.busy, r.2)) hb

theorem returnFromCall_withLibrary (h : d.library.Blanked l) :
    (d.withLibrary l).returnFromCall = (d.returnFromCall.1.withLibrary l, d.returnFromCall.2) := by
  unfold returnFromCall
  rw [returnStack_withLibrary]
  cases d.returnStack with
  | nil => rfl
  | cons frame rest =>
    dsimp only [id_withLibrary]
    by_cases hd : frame.device = d.id
    · rw [if_neg (not_not.mpr hd), if_neg (not_not.mpr hd)]
      rcases h.get?_cases frame.program.index with ⟨hp, hq⟩ | ⟨p, q, hp, hq, hpq⟩
      · have hf := fail_withLibrary ({ d with returnStack := rest } : Device σ) l
          (.outside "program" frame.program.index d.library.length)
        simp only [library_withLibrary, hp, hq, h.length_eq]
        exact congrArg (fun r => (r.1, DeviceEvent.idle, r.2)) hf
      · simp only [library_withLibrary, hp, hq, hpq.returned_eq]
        rfl
    · rw [if_pos hd, if_pos hd]
      rfl

variable [MotionService σ]

theorem halt_withLibrary (d : Device σ) (l : Library) :
    (d.withLibrary l).halt = (d.halt.1.withLibrary l, d.halt.2) := by
  unfold halt
  rw [execution_withLibrary]
  cases d.execution with
  | none => simp only [dropCallChain_withLibrary]
  | some x =>
    dsimp only
    rw [← dropCallChain_withLibrary]
    rfl

theorem tickRunning_withLibrary (h : d.library.Blanked l) {p q : Program} (hpq : p.Blanked q)
    (registers : RegisterBank) (x : Execution) :
    (d.withLibrary l).tickRunning registers x q =
      { d.tickRunning registers x p with
        device := (d.tickRunning registers x p).device.withLibrary l } := by
  have hline : (d.withLibrary l).lineResult registers x q = d.lineResult registers x p :=
    hpq.step_eq x ⟨registers, d.frames, MotionService.pose d.arm, d.id⟩ d.arm
  have hafter (s : StepResult σ) : (d.withLibrary l).afterLine s = (d.afterLine s).withLibrary l := rfl
  by_cases hf : ∃ cause, (d.lineResult registers x p).execution.status = .fault cause
  · obtain ⟨cause, hf⟩ := hf
    have hf' : ((d.withLibrary l).lineResult registers x q).execution.status = .fault cause := by
      rw [hline, hf]
    rw [tickRunning_of_fault hf, tickRunning_of_fault hf', hline, hafter, dropCallChain_withLibrary]
    rfl
  · have hf (cause : Error) : (d.lineResult registers x p).execution.status ≠ .fault cause :=
      fun hs => hf ⟨cause, hs⟩
    have hf' (cause : Error) :
        ((d.withLibrary l).lineResult registers x q).execution.status ≠ .fault cause := by
      rw [hline]
      exact hf cause
    rw [tickRunning_of_ok hf, tickRunning_of_ok hf', hline, hafter]
    cases (d.lineResult registers x p).call with
    | none => rfl
    | some target =>
      have hcall : (d.afterLine (d.lineResult registers x p)).library.Blanked l := h
      simp only [dispatchCall_withLibrary hcall]

/-- A tick goes through the same cases with either library. -/
theorem tick_withLibrary (h : d.library.Blanked l) (registers : RegisterBank) :
    (d.withLibrary l).tick registers =
      { d.tick registers with device := (d.tick registers).device.withLibrary l } := by
  have hquiet : (d.withLibrary l).abandoned = d.abandoned := rfl
  have harm : (d.withLibrary l).arm = d.arm := rfl
  unfold tick
  rw [hquiet, execution_withLibrary]
  cases d.abandoned with
  | some report => rfl
  | none =>
    cases d.execution with
    | none => rfl
    | some x =>
      dsimp only
      rcases h.get?_cases x.program.index with ⟨hp, hq⟩ | ⟨p, q, hp, hq, hpq⟩
      · simp only [library_withLibrary, hp, hq, h.length_eq, fail_withLibrary]
      · simp only [library_withLibrary, hp, hq]
        cases x.status with
        | running => exact tickRunning_withLibrary h hpq registers x
        | awaitingMotion handle =>
          simp only [harm, hpq.advance_eq]
          rfl
        | awaitingCall | fault => rfl
        | done reason =>
          cases reason with
          | stepped | halted => rfl
          | endOfProgram => simp only [returnFromCall_withLibrary h]

end Device

namespace Cell

variable {σ : Type} {c c' : Cell σ} {l : Side → Library}

/-- The second cell is the first one with blanks in place of some of the commented instructions of
its programs. -/
structure Blanked (c c' : Cell σ) : Prop where
  registers : c'.registers = c.registers
  device : ∀ s, c'.get s = { c.get s with library := c'.library s }
  library : ∀ s, (c.library s).Blanked (c'.library s)

def withLibraries (l : Side → Library) (c : Cell σ) : Cell σ where
  registers := c.registers
  first := c.first.withLibrary (l .first)
  second := c.second.withLibrary (l .second)

@[simp] theorem get_withLibraries (l : Side → Library) (c : Cell σ) (s : Side) :
    (c.withLibraries l).get s = (c.get s).withLibrary (l s) := by
  cases s <;> rfl

theorem put_withLibraries (l : Side → Library) (c : Cell σ) (s : Side) (d : Device σ) :
    (c.withLibraries l).put s (d.withLibrary (l s)) = (c.put s d).withLibraries l := by
  cases s <;> rfl

theorem blanked_iff : c.Blanked c' ↔
    ∃ l : Side → Library, (∀ s, (c.library s).Blanked (l s)) ∧ c' = c.withLibraries l := by
  constructor
  · rintro ⟨hregisters, hdevice, hlibrary⟩
    refine ⟨c'.library, hlibrary, ?_⟩
    obtain ⟨registers, first, second⟩ := c'
    have hfirst : first = c.first.withLibrary first.library := hdevice .first
    have hsecond : second = c.second.withLibrary second.library := hdevice .second
    have hregisters : registers = c.registers := hregisters
    subst hregisters
    exact congrArg₂ (Cell.mk c.registers) hfirst hsecond
  · rintro ⟨l, hl, rfl⟩
    have hlibrary (s : Side) : (c.withLibraries l).library s = l s := by simp [library]
    refine ⟨rfl, fun s => ?_, fun s => ?_⟩
    · rw [get_withLibraries, hlibrary]
      rfl
    · rw [hlibrary]
      exact hl s

theorem failSide_withLibraries (l : Side → Library) (c : Cell σ) (s : Side) (cause : Error) :
    (c.withLibraries l).failSide s cause =
      ((c.failSide s cause).1.withLibraries l, (c.failSide s cause).2) := by
  unfold failSide
  rw [get_withLibraries, Device.fail_withLibrary]
  simp only [put_withLibraries]

section Routing

variable (h : ∀ s, (c.library s).Blanked (l s))
include h

theorem routeCall_withLibraries (s : Side) (target : CallTarget) (frame : ReturnFrame) :
    (c.withLibraries l).routeCall s target frame =
      ((c.routeCall s target frame).1.withLibraries l, (c.routeCall s target frame).2) := by
  unfold routeCall
  cases Side.ofId? target.device with
  | none => exact failSide_withLibraries l c s _
  | some callee =>
    dsimp only
    rw [get_withLibraries, Device.acceptCall_withLibrary (h callee)]
    cases (c.get callee).acceptCall target frame with
    | error e => exact failSide_withLibraries l c s e
    | ok taken => simp only [Except.map, put_withLibraries]

theorem routeReturn_withLibraries (frame : ReturnFrame) :
    (c.withLibraries l).routeReturn frame =
      ((c.routeReturn frame).1.withLibraries l, (c.routeReturn frame).2) := by
  unfold routeReturn
  cases Side.ofId? frame.device with
  | none => rfl
  | some s => simp only [get_withLibraries, Device.resumeAfterCall_withLibrary (h s), put_withLibraries]

omit h in
theorem routeFailure_withLibraries (l : Side → Library) (c : Cell σ) (s : Side) (caller : UInt8)
    (reason : String) : (c.withLibraries l).routeFailure s caller reason =
      ((c.routeFailure s caller reason).1.withLibraries l, (c.routeFailure s caller reason).2) := by
  unfold routeFailure
  cases Side.ofId? caller with
  | none => rfl
  | some side =>
    simp only [get_withLibraries, Device.status?_withLibrary, failSide_withLibraries]
    split_ifs <;> rfl

theorem route_withLibraries (s : Side) (event : DeviceEvent) :
    (c.withLibraries l).route s event =
      ((c.route s event).1.withLibraries l, (c.route s event).2) := by
  cases event with
  | idle | busy => rfl
  | crossCall target frame => simp only [route, routeCall_withLibraries h]
  | callFailed caller reason => simp only [route, routeFailure_withLibraries]
  | returned frame => simp only [route, routeReturn_withLibraries h]

variable [MotionService σ]

theorem tickSide_withLibraries (s : Side) : (c.withLibraries l).tickSide s =
    ((c.tickSide s).1.withLibraries l, (c.tickSide s).2) := by
  have hturn := Device.tick_withLibrary (h s) c.registers
  have hput (t : Side) : (({ c.put s ((c.get s).tick c.registers).device with
      registers := ((c.get s).tick c.registers).registers } : Cell σ).library t).Blanked (l t) := by
    have hkept := library_put (c := c) (Device.library_tick (c.get s) c.registers)
    exact (congrFun hkept t).symm ▸ h t
  have hroute := route_withLibraries hput s ((c.get s).tick c.registers).event
  have hregisters : (c.withLibraries l).registers = c.registers := rfl
  simp only [tickSide, get_withLibraries, hregisters, hturn, put_withLibraries]
  exact congrArg (fun r => (r.1, r.2.1, ((c.get s).tick c.registers).trace ++ r.2.2)) hroute

theorem move_withLibraries {m : Move σ} (hm : m.keepsLibraries = true) :
    (c.withLibraries l).move m = (c.move m).withLibraries l := by
  cases m with
  | start side program mode line =>
    simp only [move, get_withLibraries, Device.start_withLibrary (h side)]
    cases (c.get side).start program mode line with
    | error e => rfl
    | ok started => exact put_withLibraries l c side started.1
  | resume side =>
    simp only [move, get_withLibraries, Device.resume_withLibrary (h side)]
    cases (c.get side).resume with
    | error e => rfl
    | ok resumed => exact put_withLibraries l c side resumed.1
  | halt side => simp only [move, get_withLibraries, Device.halt_withLibrary, put_withLibraries]
  | relink | edit => cases hm
  | write registers => rfl
  | drift side arm =>
    have hdrift := put_withLibraries l c side { c.get side with arm }
    rw [move, get_withLibraries]
    exact hdrift
  | tick side => simp only [move, tickSide_withLibraries h]

omit [MotionService σ] in
theorem relink_withLibraries : (c.withLibraries l).relink.1 =
    c.relink.1.withLibraries fun s => c.relinked (l s) := by
  have hlinks : Linking.linkTarget [l .first, l .second] =
      Linking.linkTarget [c.first.library, c.second.library] :=
    Linking.linkTarget_blanked (.cons (h .first) (.cons (h .second) .nil))
  have hrelink : (c.withLibraries l).relink.1 = c.relink.1.withLibraries fun s =>
      (l s).mapCalls (Linking.linkTarget [l .first, l .second]) := rfl
  rw [hrelink, hlinks]
  rfl

end Routing

namespace Blanked

theorem relink (h : c.Blanked c') : c.relink.1.Blanked c'.relink.1 := by
  obtain ⟨l, hl, rfl⟩ := blanked_iff.mp h
  refine blanked_iff.mpr ⟨_, fun s => ?_, relink_withLibraries hl⟩
  rw [library_relink]
  exact (hl s).mapCalls _

theorem build (registers : RegisterBank) {first second first' second' : Library} (arm : Side → σ)
    (hfirst : first.Blanked first') (hsecond : second.Blanked second') :
    (build registers first second arm).1.Blanked (build registers first' second' arm).1 := by
  refine Blanked.relink ⟨rfl, fun s => ?_, fun s => ?_⟩
  · cases s <;> rfl
  · cases s
    · exact hfirst
    · exact hsecond

variable [MotionService σ]

theorem move (h : c.Blanked c') {m : Move σ} (hm : m.edits = false) :
    (c.move m).Blanked (c'.move m) := by
  rcases Move.relinks_or_keeps hm with rfl | hm
  · exact h.relink
  · obtain ⟨l, hl, rfl⟩ := blanked_iff.mp h
    refine blanked_iff.mpr ⟨l, fun s => ?_, move_withLibraries hl hm⟩
    rw [library_move hm]
    exact hl s

theorem moves (h : c.Blanked c') {ms : List (Move σ)} (hm : ∀ m ∈ ms, m.edits = false) :
    (ms.foldl Cell.move c).Blanked (ms.foldl Cell.move c') := by
  induction ms generalizing c c' with
  | nil => exact h
  | cons m ms ih =>
    have hstep := h.move (hm m List.mem_cons_self)
    exact ih hstep fun n hn => hm n (List.mem_cons_of_mem m hn)

/-- Both devices have work in the one cell if they have in the other, and the same happens. -/
theorem tick_eq (h : c.Blanked c') : c'.tick.2 = c.tick.2 := by
  obtain ⟨l, hl, rfl⟩ := blanked_iff.mp h
  have hsecond (s : Side) : ((c.tickSide .first).1.library s).Blanked (l s) := by
    rw [library_tickSide]
    exact hl s
  simp only [tick, tickSide_withLibraries hl, tickSide_withLibraries hsecond]

end Blanked

/-- A commented instruction behaves as a blank line: cells built of the same programs, some of their
commented instructions replaced by blanks, differ in nothing but that; and however two such cells are
operated, they go on differing in nothing but that, and the same happens in their ticks. -/
theorem run_blanked [MotionService σ] :
    (∀ (registers : RegisterBank) (first second first' second' : Library) (arm : Side → σ),
      first.Blanked first' → second.Blanked second' →
        (build registers first second arm).1.Blanked (build registers first' second' arm).1) ∧
    ∀ c c' : Cell σ, c.Blanked c' → ∀ ks : List (Command σ), (∀ k ∈ ks, k.edits = false) →
      (c.operate ks).Blanked (c'.operate ks) ∧ (c'.operate ks).tick.2 = (c.operate ks).tick.2 := by
  refine ⟨fun registers _ _ _ _ arm => .build registers arm, fun c c' h ks hk => ?_⟩
  have hrun : (c.operate ks).Blanked (c'.operate ks) := by
    rw [operate_eq_moves, operate_eq_moves]
    refine h.moves fun m hm => ?_
    obtain ⟨k, hkm, hm⟩ := List.mem_flatMap.mp hm
    exact Bool.eq_false_iff.mpr (List.any_eq_false.mp (hk k hkm) m hm)
  exact ⟨hrun, hrun.tick_eq⟩

/-- A choice, a remark and a motion, with remarks as they are given. -/
def remarked (remark : Action → Instruction) : Library :=
  let approach : Action := .motion { kind := .joint, target := .register 0, speed := .zero false }
  ⟨[((((Program.named "MAIN").push
    (.ofAction (.select (.flag true) [.mk (.flag true) (remark (.jump 7))]))).push
    (remark (.call { program := "WORK", device := 1 }))).push (remark approach)).push
    (.ofAction approach)]⟩

/-- Backward through the remarks, after a motion that both devices ask for alike. -/
theorem run_blanked_remarked :
    let c : Cell InstantArm :=
      (build (.ofSizes 0 0 1) (remarked fun action => .mk action true) {} fun _ => {}).1
    let c' : Cell InstantArm :=
      (build (.ofSizes 0 0 1) (remarked fun _ => .mk .blank false) {} fun _ => {}).1
    let ks : List (Command InstantArm) := [.start 0 "MAIN" .backward 3]
    let ls : List (Command InstantArm) := ks ++ [.tick, .tick, .resume 0, .tick, .resume 0, .tick]
    c.Blanked c' ∧ (c'.operate ks).tick.2 = (c.operate ks).tick.2 ∧
      (c.operate ks).tick.2.2.moves.length = 1 ∧ (c.operate ls).Blanked (c'.operate ls) ∧
      (c.operate ls).first.execution = some ⟨⟨0, 0⟩, 0, -1, .backward, .done .stepped⟩ := by
  intro c c' ks ls
  have hlibrary : (remarked fun action => .mk action true).Blanked
      (remarked fun _ => .mk .blank false) := by
    refine .cons ⟨rfl, rfl, ?_⟩ .nil
    refine .cons (.kept false (.select _ (.cons _ (.blanked _) .nil))) ?_
    exact .cons (.blanked _) (.cons (.blanked _) (.cons (.kept false (.same _)) .nil))
  have hbuilt : c.Blanked c' := run_blanked.1 _ _ _ _ _ _ hlibrary (.refl _)
  have hks := run_blanked.2 c c' hbuilt ks (by decide)
  have hls := run_blanked.2 c c' hbuilt ls (by decide)
  exact ⟨hbuilt, hks.2, by decide, hls.1, by decide⟩

end Cell

end TeachPendant
