import TeachPendant.Proofs.Stepping.BlankLine
import TeachPendant.Proofs.Stepping.Solo

namespace TeachPendant

/-- Before which line of each program of each device a blank line was put, if one was. -/
abbrev BlankLines := UInt8 → Nat → Option Nat

variable {b : BlankLines}

/-- A blank line makes no call. -/
theorem linked_padded {l l' : Side → Library} (hl : Linked l)
    (h : ∀ s, (l s).Padded (b s.id) (l' s)) : Linked l' := by
  intro s index q line i c effect target hq hi he hflow hlink r hr
  cases hp : (l s).get? index with
  | none => cases hq.symm.trans ((h s).get?_none hp)
  | some p =>
    obtain ⟨q', hq', hpq⟩ := (h s).get?_some hp
    obtain rfl := Option.some.inj (hq'.symm.trans hq)
    -- The blank line has no target at all, and any other has the target it had.
    rcases exists_shifted (b s.id index) line with hblank | ⟨n, rfl⟩
    · obtain ⟨-, -, commented, hline⟩ := hpq.blank line hblank
      obtain rfl := Option.some.inj (hline.symm.trans hi)
      rw [← Except.ok.inj ((Instruction.execute_blank commented c _).symm.trans he)] at hflow
      cases hflow
    · rw [hpq.line] at hi
      rw [hpq.positions] at he
      obtain ⟨ref, hok⟩ := hl s index p n i c effect target hp hi he hflow hlink r hr
      exact ⟨ref, ((h r).resolve_eq target).trans hok⟩

def ReturnFrame.padded (b : BlankLines) (f : ReturnFrame) : ReturnFrame :=
  { f with resumeAt := entered (b f.device f.program.index) f.resumeAt }

theorem Execution.Mirrors.callFrame_eq {x y : Execution} {id : UInt8}
    (h : x.Mirrors (b id x.program.index) y) (hs : x.status.standing = true) :
    y.callFrame id = (x.callFrame id).padded b := by
  rw [callFrame, h.program, h.mode, h.current hs, ← entered_succ]
  rfl

def DeviceEvent.padded (b : BlankLines) : DeviceEvent → DeviceEvent
  | .crossCall target frame => .crossCall target (frame.padded b)
  | .returned frame => .returned (frame.padded b)
  | .callFailed caller reason => .callFailed caller reason
  | .idle => .idle
  | .busy => .busy

namespace Device

variable {σ : Type} {d e : Device σ}

/-- The devices are alike, apart from what they run. -/
structure Beside (b : BlankLines) (d e : Device σ) : Prop where
  id : e.id = d.id
  library : d.library.Padded (b d.id) e.library
  returnStack : e.returnStack = d.returnStack.map (·.padded b)
  frames : e.frames = d.frames
  arm : e.arm = d.arm
  abandoned : e.abandoned = d.abandoned

/-- The runs are on the same line too. -/
structure Mirrors (b : BlankLines) (d e : Device σ) : Prop extends d.Beside b e where
  execution : Option.Rel (fun x y => x.Mirrors (b d.id x.program.index) y) d.execution e.execution

/-- The second run is on a blank line that the first one does not have. -/
structure Lags (b : BlankLines) (d e : Device σ) : Prop extends d.Beside b e where
  run : ∃ x y q, d.execution = some x ∧ e.execution = some y ∧
    e.library.get? x.program.index = some q ∧ x.Lags (b d.id x.program.index) q y

def Follows (b : BlankLines) (d e : Device σ) : Prop := d.Mirrors b e ∨ d.Lags b e

theorem Beside.mirrors (h : d.Beside b e) {x y : Execution} (hx : d.execution = some x)
    (hy : e.execution = some y) (hxy : x.Mirrors (b d.id x.program.index) y) : d.Mirrors b e :=
  ⟨h, by rw [hx, hy]; exact .some hxy⟩

theorem Beside.follows (h : d.Beside b e) {x y : Execution} {q : Program}
    (hx : d.execution = some x) (hy : e.execution = some y)
    (hq : e.library.get? x.program.index = some q)
    (hxy : x.Follows (b d.id x.program.index) q y) : d.Follows b e := by
  rcases hxy with hxy | hxy
  · exact Or.inl (h.mirrors hx hy hxy)
  · exact Or.inr ⟨h, x, y, q, hx, hy, hq, hxy⟩

theorem Follows.beside (h : d.Follows b e) : d.Beside b e := by
  rcases h with h | h
  · exact h.toBeside
  · exact h.toBeside

theorem Lags.status?_eq (h : d.Lags b e) : e.status? = some .running := by
  obtain ⟨x, y, q, -, hy, -, hlags⟩ := h.run
  rw [status?, hy, ← hlags.running]
  rfl

theorem Beside.withRun (h : d.Beside b e) (x y : Option Execution) :
    ({ d with execution := x } : Device σ).Beside b { e with execution := y } :=
  ⟨h.id, h.library, h.returnStack, h.frames, h.arm, h.abandoned⟩

theorem Beside.withStack (h : d.Beside b e) (stack : List ReturnFrame) :
    ({ d with returnStack := stack } : Device σ).Beside b
      { e with returnStack := stack.map (·.padded b) } :=
  ⟨h.id, h.library, rfl, h.frames, h.arm, h.abandoned⟩

theorem Beside.dropCallChain (h : d.Beside b e) (reason : String) :
    (d.dropCallChain reason).Beside b (e.dropCallChain reason) := by
  have hcaller : e.caller? = d.caller?.map (·.padded b) := by
    rw [caller?, h.id, h.returnStack, foreign?_map (·.padded b) fun _ => rfl]
    rfl
  rw [dropCallChain_eq, dropCallChain_eq, hcaller]
  refine ⟨h.id, h.library, rfl, h.frames, h.arm, ?_⟩
  cases d.caller? with
  | none => exact h.abandoned
  | some f => rfl

namespace Mirrors

theorem run_some (h : d.Mirrors b e) {x : Execution} (hx : d.execution = some x) :
    ∃ y, e.execution = some y ∧ x.Mirrors (b d.id x.program.index) y := by
  have hrun := h.execution
  rw [hx] at hrun
  cases hy : e.execution with
  | none =>
    rw [hy] at hrun
    cases hrun
  | some y =>
    rw [hy] at hrun
    cases hrun with
    | some hxy => exact ⟨y, rfl, hxy⟩

theorem run_none (h : d.Mirrors b e) (hx : d.execution = none) : e.execution = none := by
  have hrun := h.execution
  rw [hx] at hrun
  cases hy : e.execution with
  | none => rfl
  | some y =>
    rw [hy] at hrun
    cases hrun

theorem status?_eq (h : d.Mirrors b e) : e.status? = d.status? := by
  cases hx : d.execution with
  | none => rw [status?, status?, hx, h.run_none hx]
  | some x =>
    obtain ⟨y, hy, hxy⟩ := h.run_some hx
    rw [status?, status?, hx, hy]
    exact congrArg some hxy.status

theorem isBusy_eq (h : d.Mirrors b e) : e.isBusy = d.isBusy := by
  simp [isBusy, isActive, h.status?_eq, h.returnStack]

theorem resting_eq (h : d.Mirrors b e) : e.resting = d.resting := by
  unfold resting
  rw [h.abandoned]
  cases hx : d.execution with
  | none => rw [h.run_none hx]
  | some x =>
    obtain ⟨y, hy, hxy⟩ := h.run_some hx
    have hpresent : (e.library.get? y.program.index).isSome =
        (d.library.get? x.program.index).isSome := by
      rw [hxy.program]
      cases hp : d.library.get? x.program.index with
      | none => rw [h.library.get?_none hp]
      | some p =>
        obtain ⟨q, hq, -⟩ := h.library.get?_some hp
        rw [hq]
        rfl
    simp only [hy, hpresent, hxy.status, h.returnStack, List.isEmpty_map]

theorem withStack (h : d.Mirrors b e) (stack : List ReturnFrame) :
    ({ d with returnStack := stack } : Device σ).Mirrors b
      { e with returnStack := stack.map (·.padded b) } :=
  ⟨h.toBeside.withStack stack, h.execution⟩

theorem dropCallChain (h : d.Mirrors b e) (reason : String) :
    (d.dropCallChain reason).Mirrors b (e.dropCallChain reason) := by
  refine ⟨h.toBeside.dropCallChain reason, ?_⟩
  rw [dropCallChain_eq, dropCallChain_eq]
  exact h.execution

theorem fail (h : d.Mirrors b e) (cause : Error) :
    (d.fail cause).1.Mirrors b (e.fail cause).1 := by
  refine dropCallChain (d := { d with execution := d.execution.map fun x => x.fail cause })
    (e := { e with execution := e.execution.map fun x => x.fail cause })
    ⟨h.toBeside.withRun _ _, ?_⟩ _
  dsimp only
  cases hx : d.execution with
  | none =>
    rw [h.run_none hx]
    exact .none
  | some x =>
    obtain ⟨y, hy, hxy⟩ := h.run_some hx
    rw [hy]
    exact .some (hxy.fail cause)

end Mirrors

/-- A program that is called comes to its first line, or to the blank line before it. -/
theorem Beside.begin_follows (h : d.Beside b e) {ref : ProgramRef} {p : Program}
    (hp : d.library.get? ref.index = some p) :
    (d.begin ref .full 0).1.Follows b (e.begin ref .full 0).1 := by
  obtain ⟨q, hq, hpq⟩ := h.library.get?_some hp
  have hprogram (called : Bool) : (if p.isEmpty && called then Execution.finished ref p .full
      else .start ref p .full 0).program = ref := by
    split_ifs
    · rfl
    · exact Execution.start_program ref p .full 0
  have hfollows := Execution.follows_begin hpq ref (!d.returnStack.isEmpty)
  have hcalled : e.returnStack.isEmpty = d.returnStack.isEmpty := by
    rw [h.returnStack, List.isEmpty_map]
  rw [begin_of_some hp, begin_of_some hq, hcalled]
  refine (h.withRun _ _).follows (q := q) rfl rfl ?_ ?_
  · rw [hprogram]
    exact hq
  · rw [hprogram]
    exact hfollows

theorem moves_begin (d : Device σ) (ref : ProgramRef) (mode : RunMode) (i : Nat) :
    (d.begin ref mode i).2.moves = [] := by
  unfold begin
  split
  · rfl
  · split_ifs
    · rfl
    · unfold beginTrace
      dsimp only
      split <;> rfl

/-- A call is taken by both devices, or refused by both. -/
theorem Mirrors.acceptCall (h : d.Mirrors b e) (target : CallTarget) {f : ReturnFrame}
    (hf : f.mode = .full) :
    (∃ cause, d.acceptCall target f = .error cause ∧
      e.acceptCall target (f.padded b) = .error cause) ∨
    ∃ d' e' trace trace', d.acceptCall target f = .ok (d', trace) ∧
      e.acceptCall target (f.padded b) = .ok (e', trace') ∧ d'.Follows b e' ∧
      trace.moves = [] ∧ trace'.moves = [] := by
  have hfp : (f.padded b).mode = .full := hf
  unfold Device.acceptCall
  rw [h.isBusy_eq, h.library.resolve_eq, hf, hfp]
  split_ifs
  · exact Or.inl ⟨_, rfl, by rw [h.id]⟩
  · cases hr : d.library.resolve target with
    | error cause => exact Or.inl ⟨cause, rfl, rfl⟩
    | ok ref =>
      obtain ⟨-, p, hp, -⟩ := Library.link_of_resolve hr
      have hpushed := h.toBeside.withStack (f :: d.returnStack)
      rw [List.map_cons, ← h.returnStack] at hpushed
      exact Or.inr ⟨_, _, _, _, rfl, rfl, hpushed.begin_follows hp, moves_begin _ _ _ _,
        moves_begin _ _ _ _⟩

/-- A caller goes on with the line after its call, or with the blank line before that. -/
theorem Mirrors.resumeAfterCall (h : d.Mirrors b e) {s : Side} (hd : d.Sound s) (he : e.Sound s)
    (hf : d.Full) : d.resumeAfterCall.Follows b e.resumeAfterCall := by
  by_cases hs : d.status? = some .awaitingCall
  · obtain ⟨x, hx, hxs⟩ := Option.map_eq_some_iff.mp hs
    obtain ⟨y, hy, hxy⟩ := h.run_some hx
    obtain ⟨hfull, hp⟩ := hf.run x hx
    obtain ⟨p, hp⟩ := Option.isSome_iff_exists.mp hp
    obtain ⟨q, hq, hpq⟩ := h.library.get?_some hp
    have hys : y.status = .awaitingCall := hxy.status.trans hxs
    have hqy : e.library.get? y.program.index = some q := by rw [hxy.program, hq]
    have hline := hd.onLine hx hp (by rw [hxs]; rfl)
    have hline' := he.onLine hy hqy (by rw [hys]; rfl)
    have hgoOn := (hxy.withStatus (by rw [hxs]; rfl) .running).goOn hpq hfull.mode rfl
      (hline.withStatus _) (hline'.withStatus _)
    unfold Device.resumeAfterCall
    simp only [hx, hy, hp, hqy, Execution.resumeAfterCall, hxs, hys, if_true]
    refine (h.toBeside.withRun _ _).follows (q := q) rfl rfl ?_ ?_
    · rw [Execution.moveOn_program]
      exact hq
    · rw [Execution.moveOn_program]
      exact hgoOn
  · rw [resumeAfterCall_of_not_waiting hs, resumeAfterCall_of_not_waiting (h.status?_eq ▸ hs)]
    exact Or.inl h

end Device

/-- Two turns do the same; only a device that goes on by itself may come to a blank line. -/
structure TickResult.Alike {σ : Type} (b : BlankLines) (t u : TickResult σ) : Prop where
  registers : u.registers = t.registers
  event : u.event = t.event.padded b
  moves : u.trace.moves = t.trace.moves
  device : t.device.Mirrors b u.device ∨ t.event = .busy ∧ t.device.Follows b u.device

theorem Trace.moves_append (t u : Trace) : (t ++ u).moves = t.moves ++ u.moves :=
  List.filterMap_append

/-- The same with something before it. -/
theorem TickResult.Alike.after {σ : Type} {t u : TickResult σ} (h : t.Alike b u)
    {before before' : Trace} (hb : before'.moves = before.moves) :
    TickResult.Alike b { t with trace := before ++ t.trace } { u with trace := before' ++ u.trace } :=
  ⟨h.registers, h.event, by rw [Trace.moves_append, Trace.moves_append, hb, h.moves], h.device⟩

namespace Device

variable {σ : Type} {d e : Device σ}

theorem dispatchCall_eq (d : Device σ) (x : Execution) (target : CallTarget) :
    d.dispatchCall x target =
      if target.device ≠ d.id then (d, .crossCall target (x.callFrame d.id), [])
      else
        match d.library.resolve target with
        | .ok ref =>
          let called := ({ d with returnStack := x.callFrame d.id :: d.returnStack } : Device σ).begin
            ref x.mode 0
          (called.1, .busy, called.2)
        | .error e => ((d.fail e).1, .idle, (d.fail e).2) :=
  rfl

theorem Mirrors.dispatchCall (h : d.Mirrors b e) {x y : Execution}
    (hxy : x.Mirrors (b d.id x.program.index) y) (hm : x.mode = .full)
    (hs : x.status.standing = true) (target : CallTarget) (registers : RegisterBank) :
    TickResult.Alike b
      ⟨(d.dispatchCall x target).1, registers, (d.dispatchCall x target).2.1,
        (d.dispatchCall x target).2.2⟩
      ⟨(e.dispatchCall y target).1, registers, (e.dispatchCall y target).2.1,
        (e.dispatchCall y target).2.2⟩ := by
  have hframe : y.callFrame e.id = (x.callFrame d.id).padded b := by
    rw [h.id]
    exact hxy.callFrame_eq hs
  rw [dispatchCall_eq, dispatchCall_eq, hframe, h.library.resolve_eq]
  by_cases hd : target.device = d.id
  · rw [if_neg (by simpa using hd), if_neg (by simpa [h.id] using hd)]
    cases hr : d.library.resolve target with
    | error cause => exact ⟨rfl, rfl, rfl, Or.inl (h.fail cause)⟩
    | ok ref =>
      obtain ⟨-, p, hp, -⟩ := Library.link_of_resolve hr
      have hpushed := h.toBeside.withStack (x.callFrame d.id :: d.returnStack)
      rw [List.map_cons, ← h.returnStack] at hpushed
      dsimp only
      rw [hm, hxy.mode.trans hm]
      exact ⟨rfl, rfl, by rw [moves_begin, moves_begin], Or.inr ⟨rfl, hpushed.begin_follows hp⟩⟩
  · rw [if_pos hd, if_pos (by rwa [h.id])]
    exact ⟨rfl, rfl, rfl, Or.inl h⟩

theorem Mirrors.returnFromCall (h : d.Mirrors b e) (hf : d.Full) (registers : RegisterBank) :
    TickResult.Alike b
      ⟨d.returnFromCall.1, registers, d.returnFromCall.2.1, d.returnFromCall.2.2⟩
      ⟨e.returnFromCall.1, registers, e.returnFromCall.2.1, e.returnFromCall.2.2⟩ := by
  have hstack := h.returnStack
  cases hr : d.returnStack with
  | nil =>
    rw [hr, List.map_nil] at hstack
    simp only [Device.returnFromCall, hr, hstack]
    exact ⟨rfl, rfl, rfl, Or.inl h⟩
  | cons frame rest =>
    rw [hr, List.map_cons] at hstack
    have hpopped := h.withStack rest
    have hlength := h.library.length_eq
    simp only [Device.returnFromCall, hr, hstack]
    by_cases hd : frame.device = d.id
    · have hdp : (frame.padded b).device = e.id := hd.trans h.id.symm
      have hprogram : (frame.padded b).program = frame.program := rfl
      rw [if_neg (by simpa using hd), if_neg (by simpa using hdp), hprogram]
      cases hp : d.library.get? frame.program.index with
      | none =>
        rw [h.library.get?_none hp, hlength]
        exact ⟨rfl, rfl, rfl, Or.inl (hpopped.fail _)⟩
      | some p =>
        obtain ⟨q, hq, hpq⟩ := h.library.get?_some hp
        rw [hq]
        have hm : frame.mode = .full := hf.frames frame (by simp [hr])
        have hreturned : (Device.returned frame p).Follows (b d.id frame.program.index) q
            (Device.returned (frame.padded b) q) := by
          have hmp : (frame.padded b).mode = .full := hm
          rw [← hd] at hpq ⊢
          unfold Device.returned
          rw [hm, hmp, if_pos rfl, if_pos rfl]
          exact Execution.follows_start hpq frame.program frame.resumeAt
        have hsame := (Device.Full.returned hm p).2
        refine ⟨rfl, rfl, rfl, Or.inr ⟨rfl, ?_⟩⟩
        refine (hpopped.toBeside.withRun _ _).follows (q := q) rfl rfl ?_ ?_
        · rw [hsame]
          exact hq
        · rw [hsame]
          exact hreturned
    · have hdp : (frame.padded b).device ≠ e.id := by
        rw [h.id]
        exact hd
      rw [if_pos hd, if_pos hdp]
      exact ⟨rfl, rfl, rfl, Or.inl hpopped⟩

theorem Beside.afterLine (h : d.Beside b e) {blank : Option Nat} {q : Program} {s t : StepResult σ}
    (hst : s.Alike blank q t) : (d.afterLine s).Beside b (e.afterLine t) :=
  ⟨h.id, h.library, h.returnStack, hst.frames, hst.arm, h.abandoned⟩

variable [MotionService σ]

/-- Two runs on the same line. -/
theorem Mirrors.tickRunning (h : d.Mirrors b e) {s : Side} (hd : d.Sound s) (he : e.Sound s)
    (hf : d.Full) {x y : Execution} {p q : Program} (hx : d.execution = some x)
    (hy : e.execution = some y) (hxy : x.Mirrors (b d.id x.program.index) y)
    (hp : d.library.get? x.program.index = some p) (hq : e.library.get? x.program.index = some q)
    (hpq : p.Padded (b d.id x.program.index) q) (hs : x.status = .running)
    (registers : RegisterBank) :
    TickResult.Alike b (d.tickRunning registers x p) (e.tickRunning registers y q) := by
  have hys : y.status = .running := hxy.status.trans hs
  have hqy : e.library.get? y.program.index = some q := by rw [hxy.program, hq]
  have hxl := hd.onLine hx hp (by rw [hs]; rfl)
  have hyl := he.onLine hy hqy (by rw [hys]; rfl)
  have hfull := (hf.run x hx).1
  have hline : (d.lineResult registers x p).Alike (b d.id x.program.index) q
      (e.lineResult registers y q) := by
    unfold lineResult
    rw [h.frames, h.arm, h.id]
    exact hxy.step hpq hfull.mode hs hxl hyl _ _
  obtain ⟨hmode, hprogram⟩ := hfull.step p ⟨registers, d.frames, MotionService.pose d.arm, d.id⟩ d.arm
  have houtcome := hd.lineOutcome registers hx hp hs
  have hbeside := h.toBeside.afterLine hline
  rw [← lineResult] at hmode hprogram
  have hindex : (d.lineResult registers x p).execution.program.index = x.program.index := by
    rw [hprogram]
  by_cases hfault : ∃ cause, (d.lineResult registers x p).execution.status = .fault cause
  · obtain ⟨cause, hfault⟩ := hfault
    have hmirrors := hline.execution.resolve_right fun hl => hl.1.unbroken cause hfault
    have hfault' : (e.lineResult registers y q).execution.status = .fault cause :=
      hmirrors.status.trans hfault
    rw [tickRunning_of_fault hfault, tickRunning_of_fault hfault']
    refine ⟨hline.registers, rfl, ?_, Or.inl (.dropCallChain (hbeside.mirrors rfl rfl ?_) _)⟩
    · rw [Trace.moves_append, Trace.moves_append, hline.moves]
      rfl
    · rw [hindex]
      exact hmirrors
  · have hfault (cause : Error) : (d.lineResult registers x p).execution.status ≠ .fault cause :=
      fun hc => hfault ⟨cause, hc⟩
    have hfault' (cause : Error) : (e.lineResult registers y q).execution.status ≠ .fault cause := by
      rcases hline.execution with hm | ⟨hl, -⟩
      · rw [hm.status]
        exact hfault cause
      · rw [hl.running]
        nofun
    have hcall := hline.call
    rw [tickRunning_of_ok hfault, tickRunning_of_ok hfault', hcall, hline.registers]
    cases hc : (d.lineResult registers x p).call with
    | none =>
      refine ⟨rfl, rfl, hline.moves, Or.inr ⟨rfl, hbeside.follows (q := q) rfl rfl ?_ ?_⟩⟩
      · rw [hindex]
        exact hq
      · rw [hindex]
        exact hline.execution.imp_right And.left
    | some target =>
      have hmirrors := hline.execution.resolve_right fun hl => absurd (hc.symm.trans hl.2) nofun
      have hstanding : (d.lineResult registers x p).execution.status.standing = true := by
        cases houtcome with
        | faulted _ _ hn | moved _ _ hn | moving _ _ hn => cases hc.symm.trans hn
        | calling _ _ he => rw [he]; rfl
      rw [← hindex] at hmirrors
      exact (Mirrors.dispatchCall (hbeside.mirrors rfl rfl hmirrors) hmirrors hmode.mode hstanding target
        (d.lineResult registers x p).registers).after hline.moves

/-- Two devices whose runs are on the same line. -/
theorem Mirrors.tick (h : d.Mirrors b e) {s : Side} (hd : d.Sound s) (he : e.Sound s)
    (hf : d.Full) (registers : RegisterBank) :
    (d.tick registers).Alike b (e.tick registers) := by
  have hlength := h.library.length_eq
  unfold Device.tick
  rw [h.abandoned]
  cases ha : d.abandoned with
  | some report =>
    refine ⟨rfl, rfl, rfl, Or.inl ⟨⟨h.id, h.library, h.returnStack, h.frames, h.arm, rfl⟩, ?_⟩⟩
    exact h.execution
  | none =>
    cases hx : d.execution with
    | none =>
      rw [h.run_none hx]
      exact ⟨rfl, rfl, rfl, Or.inl h⟩
    | some x =>
      obtain ⟨y, hy, hxy⟩ := h.run_some hx
      simp only [hy, hxy.program]
      cases hp : d.library.get? x.program.index with
      | none =>
        rw [h.library.get?_none hp, hlength]
        exact ⟨rfl, rfl, rfl, Or.inl (h.fail _)⟩
      | some p =>
        obtain ⟨q, hq, hpq⟩ := h.library.get?_some hp
        have hqy : e.library.get? y.program.index = some q := by rw [hxy.program, hq]
        simp only [hq, hxy.status]
        cases hs : x.status with
        | running => exact h.tickRunning hd he hf hx hy hxy hp hq hpq hs registers
        | awaitingMotion handle =>
          have hys : y.status = .awaitingMotion handle := hxy.status.trans hs
          obtain ⟨hfull, -⟩ := hf.run x hx
          have hxl := hd.onLine hx hp (by rw [hs]; rfl)
          have hyl := he.onLine hy hqy (by rw [hys]; rfl)
          obtain ⟨hgoOn, hrest⟩ := hxy.advance hpq hfull.mode hs hxl hyl d.arm
          have hprogram := (hfull.advance p d.arm).2
          obtain ⟨harm, htrace⟩ := Prod.mk.inj hrest
          dsimp only
          rw [h.arm]
          refine ⟨rfl, rfl, by rw [htrace], Or.inr ⟨rfl, ?_⟩⟩
          refine Beside.follows (q := q) ⟨h.id, h.library, h.returnStack, h.frames, harm, rfl⟩ rfl rfl
            ?_ ?_
          · rw [hprogram]
            exact hq
          · rw [hprogram]
            exact hgoOn
        | awaitingCall | fault => exact ⟨rfl, rfl, rfl, Or.inl h⟩
        | done reason =>
          cases reason with
          | stepped | halted => exact ⟨rfl, rfl, rfl, Or.inl h⟩
          | endOfProgram => exact h.returnFromCall hf registers

/-- A device on a blank line goes on from it, and does nothing else. -/
theorem Lags.tick (h : d.Lags b e) (hf : e.Full) (quiet : e.abandoned = none)
    (registers : RegisterBank) : ∃ e', e.tick registers =
      { device := e', registers, event := .busy } ∧ d.Mirrors b e' := by
  obtain ⟨x, y, q, hx, hy, hq, hlags⟩ := h.run
  have hqy : e.library.get? y.program.index = some q := by rw [hlags.program, hq]
  have hpq : ∃ p, Program.Padded (b d.id x.program.index) p q := by
    cases hp : d.library.get? x.program.index with
    | none => cases hq.symm.trans (h.library.get?_none hp)
    | some p =>
      obtain ⟨q', hq', hpq⟩ := h.library.get?_some hp
      exact ⟨p, Option.some.inj (hq'.symm.trans hq) ▸ hpq⟩
  obtain ⟨p, hpq⟩ := hpq
  have hstep := hlags.step hpq (hf.run y hy).1.mode
    ⟨registers, e.frames, MotionService.pose e.arm, e.id⟩ e.arm
  have hfault (cause : Error) : (e.lineResult registers y q).execution.status ≠ .fault cause := by
    rw [lineResult, hstep]
    show (y.moveOn q).status ≠ _
    rw [hlags.beyond.status]
    exact hlags.unbroken cause
  have htick : e.tick registers = e.tickRunning registers y q := by
    unfold Device.tick
    simp only [quiet, hy, hqy, hlags.running]
  refine ⟨{ e with execution := some (y.moveOn q) }, ?_, ?_⟩
  · rw [htick, tickRunning_of_ok hfault, lineResult, hstep]
    rfl
  · exact Beside.mirrors ⟨h.id, h.library, h.returnStack, h.frames, h.arm, h.abandoned⟩ hx rfl
      hlags.beyond

end Device

namespace Cell

variable {σ : Type} {c c' : Cell σ}

/-- All runs are on the same lines. -/
structure Abreast (b : BlankLines) (c c' : Cell σ) : Prop where
  registers : c'.registers = c.registers
  devices : ∀ s, (c.get s).Mirrors b (c'.get s)

/-- The runs of the second cell may be on blank lines that the first one does not have. -/
structure Follows (b : BlankLines) (c c' : Cell σ) : Prop where
  registers : c'.registers = c.registers
  devices : ∀ s, (c.get s).Follows b (c'.get s)

theorem registers_put (c : Cell σ) (s : Side) (d : Device σ) :
    (c.put s d).registers = c.registers := by
  cases s <;> rfl

namespace Abreast

theorem follows (h : c.Abreast b c') : c.Follows b c' :=
  ⟨h.registers, fun s => Or.inl (h.devices s)⟩

theorem put (h : c.Abreast b c') {s : Side} {d e : Device σ} (hd : d.Follows b e) :
    (c.put s d).Follows b (c'.put s e) := by
  refine ⟨by rw [registers_put, registers_put, h.registers], Side.forall_of s ?_ ?_⟩
  · rwa [get_put, get_put]
  · rw [get_put_other, get_put_other]
    exact Or.inl (h.devices _)

theorem failSide (h : c.Abreast b c') (s : Side) (cause : Error) :
    (c.failSide s cause).1.Follows b (c'.failSide s cause).1 :=
  h.put (Or.inl ((h.devices s).fail cause))

theorem routeCall (h : c.Abreast b c') (caller : Side) (target : CallTarget) {frame : ReturnFrame}
    (hm : frame.mode = .full) :
    (c.routeCall caller target frame).1.Follows b
        (c'.routeCall caller target (frame.padded b)).1 ∧
      (c.routeCall caller target frame).2.moves = [] ∧
      (c'.routeCall caller target (frame.padded b)).2.moves = [] := by
  unfold Cell.routeCall
  cases Side.ofId? target.device with
  | none => exact ⟨h.failSide caller _, rfl, rfl⟩
  | some callee =>
    rcases (h.devices callee).acceptCall target hm with
      ⟨cause, hd, he⟩ | ⟨d, e, trace, trace', hd, he, hfollows, hmoves, hmoves'⟩
    · simp only [hd, he]
      exact ⟨h.failSide caller cause, rfl, rfl⟩
    · simp only [hd, he]
      exact ⟨h.put hfollows, hmoves, hmoves'⟩

theorem routeFailure (h : c.Abreast b c') (callee : Side) (caller : UInt8) (reason : String) :
    (c.routeFailure callee caller reason).1.Follows b (c'.routeFailure callee caller reason).1 ∧
      (c.routeFailure callee caller reason).2.moves = [] ∧
      (c'.routeFailure callee caller reason).2.moves = [] := by
  unfold Cell.routeFailure
  cases Side.ofId? caller with
  | none => exact ⟨h.follows, rfl, rfl⟩
  | some s =>
    dsimp only
    rw [(h.devices s).status?_eq]
    split_ifs
    · exact ⟨h.failSide s _, rfl, rfl⟩
    · exact ⟨h.follows, rfl, rfl⟩

theorem routeReturn (h : c.Abreast b c') (hc : c.Sound) (hc' : c'.Sound)
    (hf : ∀ s, (c.get s).Full) (frame : ReturnFrame) :
    (c.routeReturn frame).1.Follows b (c'.routeReturn (frame.padded b)).1 ∧
      (c.routeReturn frame).2.moves = [] ∧ (c'.routeReturn (frame.padded b)).2.moves = [] := by
  have hdevice : (frame.padded b).device = frame.device := rfl
  unfold Cell.routeReturn
  rw [hdevice]
  cases Side.ofId? frame.device with
  | none => exact ⟨h.follows, rfl, rfl⟩
  | some s => exact ⟨h.put ((h.devices s).resumeAfterCall (hc s) (hc' s) (hf s)), rfl, rfl⟩

end Abreast

theorem Abreast.linked (h : c.Abreast b c') (hc : c.Sound) (hl : Linked c.library) :
    Linked c'.library := by
  refine linked_padded (b := b) hl fun s => ?_
  rw [← (hc s).id_eq]
  exact (h.devices s).library

/-- Blank lines in the programs of one device, in a cell in which nothing has been done yet. -/
theorem Fresh.abreast (h : c.Fresh) {s : Side} {blank : Nat → Option Nat} {m : Library}
    (hm : (c.library s).Padded blank m) :
    c.Abreast (fun device i => if device = s.id then blank i else none)
      (c.put s { c.get s with library := m }) := by
  have hmirrors (t : Side) {m : Library}
      (hm : (c.get t).library.Padded (fun i => if t.id = s.id then blank i else none) m) :
      (c.get t).Mirrors (fun device i => if device = s.id then blank i else none)
        { c.get t with library := m } := by
    refine ⟨⟨rfl, by rwa [(h.sound t).id_eq], ?_, rfl, rfl, rfl⟩, ?_⟩
    · simp [h.uncalled t]
    · simp only [h.unstarted t]
      exact .none
  refine ⟨registers_put _ _ _, Side.forall_of s ?_ ?_⟩
  · rw [get_put]
    exact hmirrors s (by simpa [library] using hm)
  · rw [get_put_other]
    refine hmirrors s.other (m := (c.get s.other).library) ?_
    simpa [s.id_other_ne] using Library.padded_refl _

/-- A program is started on a line, wherever it stands now. -/
theorem Abreast.start (h : c.Abreast b c') {s : Side} (hb : (c.get s).isBusy = false) {name : String}
    {index line : Nat} {p : Program} (hfind : (c.get s).library.find? name = some index)
    (hp : (c.get s).library.get? index = some p) (hl : line < p.length) :
    ∃ d trace e trace', (c.get s).start name .full line = .ok (d, trace) ∧
      (c'.get s).start name .full (shifted (b (c.get s).id index) line) = .ok (e, trace') ∧
      (c.put s d).Abreast b (c'.put s e) := by
  have hdevice := h.devices s
  have hb' : (c'.get s).isBusy = false := hdevice.isBusy_eq.trans hb
  have hfind' : (c'.get s).library.find? name = some index :=
    (hdevice.library.find?_eq name).trans hfind
  obtain ⟨q, hq, hpq⟩ := hdevice.library.get?_some hp
  obtain ⟨p', trace, hp', hstart⟩ := Device.start_of_find? hb hfind .full line
  obtain ⟨q', trace', hq', hstart'⟩ :=
    Device.start_of_find? hb' hfind' .full (shifted (b (c.get s).id index) line)
  obtain rfl := Option.some.inj (hp'.symm.trans hp)
  obtain rfl := Option.some.inj (hq'.symm.trans hq)
  refine ⟨_, trace, _, trace', hstart, hstart', ?_, Side.forall_of s ?_ ?_⟩
  · rw [registers_put, registers_put, h.registers]
  · rw [get_put, get_put]
    refine (hdevice.toBeside.withRun _ _).mirrors rfl rfl ?_
    rw [Execution.start_program, hdevice.id]
    exact Execution.mirrors_start hpq _ hl
  · rw [get_put_other, get_put_other]
    exact h.devices _

/-- What an event does to cells in which the other device is on the same line, and so is the device
that gives the event, unless it goes on by itself. -/
theorem route_follows {t : Side} {event : DeviceEvent} (hregisters : c'.registers = c.registers)
    (ho : (c.get t.other).Mirrors b (c'.get t.other))
    (hd : (c.get t).Mirrors b (c'.get t) ∨ event = .busy ∧ (c.get t).Follows b (c'.get t))
    (hc : c.Sound) (hc' : c'.Sound) (hf : ∀ s, (c.get s).Full)
    (hm : ∀ target frame, event = .crossCall target frame → frame.mode = .full) :
    (c.route t event).1.Follows b (c'.route t (event.padded b)).1 ∧
      (c.route t event).2.2.moves = [] ∧ (c'.route t (event.padded b)).2.2.moves = [] := by
  have habreast (hd : (c.get t).Mirrors b (c'.get t)) : c.Abreast b c' :=
    ⟨hregisters, Side.forall_of t hd ho⟩
  rcases hd with hd | ⟨rfl, hd⟩
  · have h := habreast hd
    cases event with
    | idle | busy => exact ⟨h.follows, rfl, rfl⟩
    | crossCall target frame => exact h.routeCall t target (hm target frame rfl)
    | callFailed caller reason => exact h.routeFailure t caller reason
    | returned frame => exact h.routeReturn hc hc' hf frame
  · exact ⟨⟨hregisters, Side.forall_of t hd (Or.inl ho)⟩, rfl, rfl⟩

variable [MotionService σ]

/-- A turn of a device does the same in both cells. -/
theorem Abreast.tickSide (h : c.Abreast b c') (hc : c.Sound) (hc' : c'.Sound)
    (hf : ∀ s, (c.get s).Full) (t : Side) :
    (c.tickSide t).1.Follows b (c'.tickSide t).1 ∧
      (c'.tickSide t).2.2.moves = (c.tickSide t).2.2.moves := by
  have htick := (h.devices t).tick (hc t) (hc' t) (hf t) c.registers
  have hfull := (hf t).tick c.registers
  have hsound := (hc t).tick c.registers
  have hsound' := (hc' t).tick c.registers
  unfold Cell.tickSide
  rw [h.registers]
  generalize (c.get t).tick c.registers = u at htick hfull hsound ⊢
  generalize (c'.get t).tick c.registers = u' at htick hsound' ⊢
  obtain ⟨c₁, hc₁⟩ : ∃ c₁ : Cell σ, c₁ = { c.put t u.device with registers := u.registers } :=
    ⟨_, rfl⟩
  obtain ⟨c₁', hc₁'⟩ : ∃ c₁' : Cell σ, c₁' = { c'.put t u'.device with registers := u'.registers } :=
    ⟨_, rfl⟩
  have hself : c₁.get t = u.device := by rw [hc₁, get_registers, get_put]
  have hother : c₁.get t.other = c.get t.other := by rw [hc₁, get_registers, get_put_other]
  have hself' : c₁'.get t = u'.device := by rw [hc₁', get_registers, get_put]
  have hother' : c₁'.get t.other = c'.get t.other := by rw [hc₁', get_registers, get_put_other]
  have hregisters : c₁'.registers = c₁.registers := by rw [hc₁', hc₁]; exact htick.registers
  obtain ⟨hfollows, hmoves, hmoves'⟩ := route_follows hregisters
    (by rw [hother, hother']; exact h.devices t.other)
    (by rw [hself, hself']; exact htick.device)
    (Side.forall_of t (hself ▸ hsound) (hother ▸ hc t.other))
    (Side.forall_of t (hself' ▸ hsound') (hother' ▸ hc' t.other))
    (Side.forall_of t (hself ▸ hfull.1) (hother ▸ hf t.other)) hfull.2
  dsimp only
  rw [htick.event, ← hc₁, ← hc₁']
  exact ⟨hfollows, by rw [Trace.moves_append, Trace.moves_append, hmoves, hmoves', htick.moves]⟩

/-- A device on a blank line comes abreast again. -/
theorem Abreast.of_lags {t : Side} (hregisters : c'.registers = c.registers)
    (hd : (c.get t).Lags b (c'.get t)) (ho : (c.get t.other).Mirrors b (c'.get t.other))
    (hf : (c'.get t).Full) (quiet : (c'.get t).abandoned = none) :
    c.Abreast b (c'.tickSide t).1 ∧ (c'.tickSide t).2.2.moves = [] := by
  obtain ⟨e, htick, he⟩ := hd.tick hf quiet c'.registers
  have hturn : c'.tickSide t = (c'.put t e, true, []) := by
    rw [Cell.tickSide, htick]
    cases t <;> rfl
  rw [hturn]
  refine ⟨⟨(registers_put c' t e).trans hregisters, Side.forall_of t ?_ ?_⟩, rfl⟩
  · rwa [get_put]
  · rwa [get_put_other]

omit [MotionService σ] in
/-- At most one device is on a blank line, and that is the one that has something to do. -/
theorem Follows.abreast_or_lags {l' : Side → Library} (h : c.Follows b c') (h' : c'.Solo l') :
    c.Abreast b c' ∨ ∃ t, (c.get t).Lags b (c'.get t) ∧
      (c.get t.other).Mirrors b (c'.get t.other) ∧ ¬ (c'.get t).resting := by
  by_cases hlags : ∃ t, (c.get t).Lags b (c'.get t)
  · obtain ⟨t, ht⟩ := hlags
    have hactive : ¬ (c'.get t).resting := fun hr => Device.status_of_resting hr ht.status?_eq
    have hother := Device.status_of_resting (h'.other_resting hactive)
    refine Or.inr ⟨t, ht, (h.devices t.other).resolve_right fun hl => hother hl.status?_eq, hactive⟩
  · exact Or.inl ⟨h.registers, fun s => (h.devices s).resolve_right fun hl => hlags ⟨s, hl⟩⟩

end Cell

end TeachPendant
