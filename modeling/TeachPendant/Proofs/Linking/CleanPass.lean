import TeachPendant.Arm.Instant
import TeachPendant.Proofs.Cell.Tick
import TeachPendant.Proofs.Linking.Resolution

namespace TeachPendant

theorem Status.resolved_of_not_fault {s : Status} (h : ∀ cause, s ≠ .fault cause) :
    s.unresolved = false := by
  cases s with
  | fault cause => exact absurd rfl (h cause)
  | running | awaitingMotion | awaitingCall | done => rfl

namespace Execution

theorem start_resolved (ref : ProgramRef) (p : Program) (mode : RunMode) (i : Nat) :
    (start ref p mode i).status.unresolved = false := by
  unfold start
  split_ifs <;> rfl

theorem resumeAfterCall_resolved {x : Execution} {p : Program}
    (h : (x.resumeAfterCall p).status.unresolved = true) : x.resumeAfterCall p = x := by
  unfold resumeAfterCall at h ⊢
  split_ifs at h ⊢
  · rw [moveOn_resolved p rfl] at h
    cases h
  · rfl

theorem advance_resolved {σ : Type} [MotionService σ] {x : Execution} {handle : Nat}
    (h : x.status = .awaitingMotion handle) (p : Program) (arm : σ) :
    (x.advance p arm).1.status.unresolved = false := by
  rcases advance_cases (p := p) h arm with ha | ha
  · rw [ha, h]
    rfl
  · rw [ha]
    exact moveOn_resolved p rfl

end Execution

namespace Device

variable {σ : Type} {d d' d'' : Device σ}

/-- The run broke off at a call with nowhere to go. -/
def unresolved (d : Device σ) : Bool := d.status?.any Status.unresolved

theorem unresolved_of_execution {x : Execution} (h : d.execution = some x) :
    d.unresolved = x.status.unresolved := by
  simp [unresolved, status?, h]

/-- Keeps its library, and its run does not break off at a call with nowhere to go; one that broke
off there before may stand as it is. -/
structure Steady (d d' : Device σ) : Prop where
  library : d'.library = d.library
  run : d'.unresolved = true → d'.execution = d.execution

theorem returned_resolved (frame : ReturnFrame) (p : Program) :
    (returned frame p).status.unresolved = false := by
  unfold returned
  split_ifs
  · rfl
  · exact Execution.start_resolved frame.program p frame.mode frame.resumeAt
  · unfold Execution.paused
    dsimp only
    split_ifs
    · rfl
    · exact Execution.start_resolved frame.program p frame.mode frame.resumeAt

theorem unresolved_congr (h : d'.execution = d.execution) : d'.unresolved = d.unresolved := by
  rw [unresolved, status?, h]
  rfl

namespace Steady

theorem of_run (hl : d'.library = d.library) (hx : d'.execution = d.execution) : d.Steady d' :=
  ⟨hl, fun _ => hx⟩

theorem of_resolved (hl : d'.library = d.library) (hu : d'.unresolved = false) : d.Steady d' :=
  ⟨hl, fun h => absurd (hu.symm.trans h) nofun⟩

theorem refl (d : Device σ) : d.Steady d := .of_run rfl rfl

theorem trans (h : d.Steady d') (h' : d'.Steady d'') : d.Steady d'' where
  library := h'.library.trans h.library
  run := fun hu => by
    have hx := h'.run hu
    exact hx.trans (h.run ((unresolved_congr hx).symm.trans hu))

theorem fail (d : Device σ) {cause : Error} (h : (Status.fault cause).unresolved = false) :
    d.Steady (d.fail cause).1 := by
  refine .of_resolved (library_fail d cause) ?_
  rw [unresolved, status?_fail]
  cases d.status? with
  | none => rfl
  | some status => exact h

theorem dropCallChain (d : Device σ) (reason : String) : d.Steady (d.dropCallChain reason) := by
  rw [dropCallChain_eq]
  exact .of_run rfl rfl

theorem begin (d : Device σ) (ref : ProgramRef) (mode : RunMode) (i : Nat) :
    d.Steady (d.begin ref mode i).1 := by
  cases hp : d.library.get? ref.index with
  | none =>
    rw [show (d.begin ref mode i).1 = d by simp [Device.begin, hp]]
    exact .refl d
  | some p =>
    refine .of_resolved (library_begin d ref mode i) ?_
    rw [begin_of_some hp, unresolved_of_execution rfl]
    split_ifs
    · rfl
    · exact Execution.start_resolved ref p mode i

theorem start {program : String} {mode : RunMode} {i : Nat} {trace : Trace}
    (h : d.start program mode i = .ok (d', trace)) : d.Steady d' := by
  obtain ⟨-, index, p, -, -, rfl⟩ := of_start h
  exact .begin d ⟨d.id, index⟩ mode i

theorem resume {trace : Trace} (h : d.resume = .ok (d', trace)) : d.Steady d' := by
  rcases of_resume h with rfl | ⟨x, p, -, -, -, rfl⟩
  · exact .refl d'
  · exact .begin d x.program x.mode x.current

theorem acceptCall {target : CallTarget} {f : ReturnFrame} {trace : Trace}
    (h : d.acceptCall target f = .ok (d', trace)) : d.Steady d' := by
  obtain ⟨-, ref, p, -, -, -, rfl⟩ := of_acceptCall h
  have hpushed : d.Steady { d with returnStack := f :: d.returnStack } := .of_run rfl rfl
  exact hpushed.trans (.begin _ ref f.mode 0)

theorem resumeAfterCall (d : Device σ) : d.Steady d.resumeAfterCall := by
  refine ⟨d.resumeAfterCall_kept.1, fun hu => ?_⟩
  unfold Device.resumeAfterCall at hu ⊢
  cases hx : d.execution with
  | none => simp only [hx]
  | some x =>
    cases hp : d.library.get? x.program.index with
    | none => simp only [hx, hp]
    | some p =>
      simp only [hx, hp] at hu ⊢
      exact congrArg some (Execution.resumeAfterCall_resolved hu)

variable [MotionService σ]

theorem halt (d : Device σ) : d.Steady d.halt.1 := by
  obtain ⟨x, arm, hhalt, hdone⟩ := halt_eq d
  have hended : d.Steady { d with execution := x, arm := arm } := by
    refine .of_resolved rfl ?_
    cases x with
    | none => rfl
    | some y =>
      rw [unresolved_of_execution rfl, hdone y rfl]
      rfl
  rw [hhalt]
  exact hended.trans (.dropCallChain _ "halted")

end Steady

section Tick

variable [MotionService σ] {l : Side → Library} {s : Side}

/-- A line makes no call that does not stand in the library. -/
theorem mem_calls_of_call {registers : RegisterBank} {x : Execution} {p : Program}
    {target : CallTarget} (hp : d.library.get? x.program.index = some p)
    (h : (d.lineResult registers x p).call = some target) : target ∈ d.library.calls := by
  obtain ⟨i, effect, hi, he, hf, -⟩ := Execution.call_of_step h
  exact Library.mem_calls hp hi (i.call_mem he hf)

theorem mem_calls_of_crossCall {registers : RegisterBank} {target : CallTarget}
    {frame : ReturnFrame} (h : (d.tick registers).event = .crossCall target frame) :
    target ∈ d.library.calls := by
  have ht := d.ticked registers
  generalize d.tick registers = t at ht h
  cases ht with
  | calledOver _ _ hp _ _ hcall _ =>
    cases h
    exact mem_calls_of_call hp hcall
  | _ => cases h

/-- The turn of a device in a cell in which every call resolves. -/
theorem Steady.tick (hl : Resolved l) (hd : d.library = l s) (hid : d.id = s.id)
    (registers : RegisterBank) : d.Steady (d.tick registers).device := by
  have ht := d.ticked registers
  generalize d.tick registers = t at ht ⊢
  have hline {x : Execution} {p : Program}
      (hn : ∀ cause, (d.lineResult registers x p).execution.status ≠ .fault cause) :
      d.Steady (d.afterLine (d.lineResult registers x p)) := by
    refine .of_resolved rfl ?_
    rw [unresolved_of_execution rfl]
    exact Status.resolved_of_not_fault hn
  cases ht with
  | reported => exact .of_run rfl rfl
  | unstarted | waiting | stopped => exact .refl d
  | lost => exact .fail d rfl
  | @returnLost x p frame rest =>
    have hpopped : d.Steady { d with returnStack := rest } := .of_run rfl rfl
    exact hpopped.trans (.fail _ rfl)
  | @faulted x p cause _ _ hp hrun hstatus =>
    have hbroken : d.Steady (d.afterLine (d.lineResult registers x p)) := by
      refine .of_resolved rfl (Bool.eq_false_iff.mpr fun hu => ?_)
      rw [unresolved_of_execution rfl] at hu
      obtain ⟨i, target, hi, ht, hk⟩ := Execution.call_of_step_unresolved hrun hu
      rw [hd] at hp
      exact hl.link_ne_none (Library.mem_calls hp hi ht) hk
    exact hbroken.trans (.dropCallChain _ cause.message)
  | advanced _ _ _ _ hn | calledOver _ _ _ _ hn => exact hline hn
  | @calledHere x p target ref _ _ _ _ hn _ _ _ called hcalled mode =>
    have hpushed : (d.afterLine (d.lineResult registers x p)).Steady called := by
      subst hcalled
      exact .of_run rfl rfl
    exact ((hline hn).trans hpushed).trans (.begin called ref mode 0)
  | @refused x p target e _ _ hp _ _ hcall hdevice herror =>
    have hmem := mem_calls_of_call hp hcall
    rw [hd] at hmem herror
    obtain ⟨ref, hok⟩ := hl.resolve hmem (hdevice.trans hid)
    exact absurd (herror.symm.trans hok) nofun
  | polled _ _ _ hs =>
    refine .of_resolved rfl ?_
    rw [unresolved_of_execution rfl]
    exact Execution.advance_resolved hs _ d.arm
  | returnedOver => exact .of_run rfl rfl
  | @returnedHere x p q frame rest =>
    refine .of_resolved rfl ?_
    rw [unresolved_of_execution rfl]
    exact returned_resolved frame q

end Tick

end Device

namespace Cell

variable {σ : Type} {c c' c'' : Cell σ}

def Steady (c c' : Cell σ) : Prop := ∀ s, (c.get s).Steady (c'.get s)

namespace Steady

theorem refl (c : Cell σ) : c.Steady c := fun s => .refl (c.get s)

theorem trans (h : c.Steady c') (h' : c'.Steady c'') : c.Steady c'' := fun s => (h s).trans (h' s)

theorem resolved (h : c.Steady c') (hl : Resolved c.library) : Resolved c'.library := by
  have hlibrary : c'.library = c.library := funext fun s => (h s).library
  rwa [hlibrary]

theorem put {s : Side} {d : Device σ} (h : (c.get s).Steady d) : c.Steady (c.put s d) := by
  intro t
  rcases s.eq_or_eq_other t with rfl | rfl
  · rwa [get_put]
  · rw [get_put_other]
    exact .refl _

theorem registers (c : Cell σ) (registers : RegisterBank) : c.Steady { c with registers } := by
  intro s
  rw [get_registers]
  exact .refl _

theorem failSide (c : Cell σ) (s : Side) {cause : Error}
    (h : (Status.fault cause).unresolved = false) : c.Steady (c.failSide s cause).1 :=
  put (.fail (c.get s) h)

theorem routeCall (hl : Resolved c.library) {s : Side} {target : CallTarget}
    (ht : target ∈ (c.library s).calls) (frame : ReturnFrame) :
    c.Steady (c.routeCall s target frame).1 := by
  obtain ⟨callee, hcallee, ref, hok⟩ := hl s target ht
  simp only [Cell.routeCall, hcallee, Side.ofId?_id]
  cases ha : (c.get callee).acceptCall target frame with
  | ok accepted => exact put (.acceptCall ha)
  | error e =>
    rcases Device.of_acceptCall_error ha with ⟨-, rfl⟩ | hr
    · exact failSide c s rfl
    · exact absurd (hr.symm.trans hok) nofun

theorem routeFailure (c : Cell σ) (callee : Side) (caller : UInt8) (reason : String) :
    c.Steady (c.routeFailure callee caller reason).1 := by
  unfold Cell.routeFailure
  split
  · exact refl c
  · split_ifs
    · exact failSide c _ rfl
    · exact refl c

theorem routeReturn (c : Cell σ) (frame : ReturnFrame) : c.Steady (c.routeReturn frame).1 := by
  unfold Cell.routeReturn
  split
  · exact refl c
  · exact put (.resumeAfterCall _)

theorem route (hl : Resolved c.library) {s : Side} {event : DeviceEvent}
    (ht : ∀ target frame, event = .crossCall target frame → target ∈ (c.library s).calls) :
    c.Steady (c.route s event).1 := by
  cases event with
  | idle | busy => exact refl c
  | crossCall target frame => exact routeCall hl (ht target frame rfl) frame
  | callFailed caller reason => exact routeFailure c s caller reason
  | returned frame => exact routeReturn c frame

variable [MotionService σ]

theorem tickSide (hs : c.Sound) (hl : Resolved c.library) (s : Side) :
    c.Steady (c.tickSide s).1 := by
  have hturn := Device.Steady.tick hl rfl (hs s).id_eq c.registers
  have hput := (put hturn).trans (registers _ ((c.get s).tick c.registers).registers)
  refine hput.trans (route (hput.resolved hl) fun target frame he => ?_)
  have hmem := Device.mem_calls_of_crossCall he
  rwa [library, (hput s).library]

end Steady

/-- Edits no library and links nothing anew. -/
def Move.keepsLibraries : Move σ → Bool
  | .relink | .edit _ _ => false
  | .start _ _ _ _ | .resume _ | .halt _ | .write _ | .drift _ _ | .tick _ => true

def Command.keepsLibraries : Command σ → Bool
  | .relink | .edit _ _ => false
  | .start _ _ _ _ | .resume _ | .halt _ | .haltAll | .write _ | .drift _ _ | .tick => true

theorem Command.keepsLibraries_moves {k : Command σ} (h : k.keepsLibraries = true) :
    ∀ m ∈ k.moves, m.keepsLibraries = true := by
  cases k with
  | relink | edit => cases h
  | start device | resume device | halt device =>
    cases hd : Side.ofId? device <;> simp [moves, hd, Move.keepsLibraries]
  | haltAll | write | drift | tick => simp [moves, Move.keepsLibraries]

variable [MotionService σ]

/-- In a cell in which every call resolves no move breaks a run off at a call with nowhere to go. -/
theorem Steady.move (hs : c.Sound) (hl : Resolved c.library) {m : Move σ}
    (hm : m.keepsLibraries = true) : c.Steady (c.move m) := by
  cases m with
  | start side program mode line =>
    simp only [Cell.move]
    cases hd : (c.get side).start program mode line with
    | ok started => exact put (.start hd)
    | error e => exact refl c
  | resume side =>
    simp only [Cell.move]
    cases hd : (c.get side).resume with
    | ok resumed => exact put (.resume hd)
    | error e => exact refl c
  | halt side => exact put (.halt (c.get side))
  | relink | edit => cases hm
  | write registers => exact Steady.registers c registers
  | drift side arm => exact put (.of_run rfl rfl)
  | tick side => exact tickSide hs hl side

theorem Steady.moves (hs : c.Sound) (hl : Resolved c.library) {ms : List (Move σ)}
    (hm : ∀ m ∈ ms, m.keepsLibraries = true) : c.Steady (ms.foldl Cell.move c) := by
  induction ms generalizing c with
  | nil => exact refl c
  | cons m ms ih =>
    have hstep := Steady.move hs hl (hm m List.mem_cons_self)
    have hrest := ih (hs.move m) (hstep.resolved hl) fun n hn => hm n (List.mem_cons_of_mem m hn)
    exact hstep.trans hrest

/-- A cell just after a link pass that gave every call a link, be it the pass with which the cell
was built or a later one. -/
inductive CleanlyLinked : Cell σ → Prop
  | built {registers : RegisterBank} {first second : Library} {arm : Side → σ}
      (clean : (build registers first second arm).2 = []) :
      CleanlyLinked (build registers first second arm).1
  | relinked {c : Cell σ} (reachable : c.Reachable) (clean : c.relink.2 = []) :
      CleanlyLinked c.relink.1

theorem CleanlyLinked.reachable (h : c.CleanlyLinked) : c.Reachable := by
  cases h with
  | @built registers first second arm => exact ⟨registers, first, second, arm, [], rfl⟩
  | relinked hreachable => exact hreachable.operate [.relink]

theorem CleanlyLinked.resolved (h : c.CleanlyLinked) : Resolved c.library := by
  cases h with
  | built clean => exact resolved_build clean
  | relinked _ clean => exact resolved_relink clean

/-- After a clean link pass, and until a library is edited, no run breaks off at a call with nowhere
to go: a device that is found so after a move was left so by the moves before, and a device that is
found so in the end was left so by the time of the pass. -/
theorem CleanlyLinked.never_unresolved (h : c.CleanlyLinked) {ks : List (Command σ)}
    (hk : ∀ k ∈ ks, k.keepsLibraries = true) :
    (∀ ms m, ms ++ [m] <+: ks.flatMap Command.moves → ∀ s,
      (((ms ++ [m]).foldl Cell.move c).get s).unresolved = true →
        (((ms ++ [m]).foldl Cell.move c).get s).execution =
          ((ms.foldl Cell.move c).get s).execution) ∧
      ∀ s, ((c.operate ks).get s).unresolved = true →
        ((c.operate ks).get s).execution = (c.get s).execution := by
  have hs := h.reachable.sound
  have hl := h.resolved
  have hm : ∀ m ∈ ks.flatMap Command.moves, m.keepsLibraries = true := by
    intro m hm
    obtain ⟨k, hkm, hm⟩ := List.mem_flatMap.mp hm
    exact Command.keepsLibraries_moves (hk k hkm) m hm
  refine ⟨fun ms m hrun s => ?_, fun s => ?_⟩
  · have hin (n : Move σ) (hn : n ∈ ms ++ [m]) : n.keepsLibraries = true := hm n (hrun.subset hn)
    have hbefore := Steady.moves hs hl fun n hn => hin n (List.mem_append_left [m] hn)
    have hsound := foldl_move_of_invariant (P := Sound) (fun _ m hc => hc.move m) hs ms
    have hstep := Steady.move hsound (hbefore.resolved hl) (hin m (by simp))
    rw [List.foldl_append]
    exact (hstep s).run
  · rw [operate_eq_moves]
    exact (Steady.moves hs hl hm s).run

/-- `MAIN` broke off at a call out of a `SELECT` in an `IF`; the program `WORK` that it calls, with
another such call in it, has got that name only after. -/
def brokenOff : Cell InstantArm :=
  let call (program : String) : Instruction := .ofAction (.call { program, device := 1 })
  let choice (program : String) : Instruction :=
    .ofAction (.select (.flag true) [.mk (.flag true) (call program)])
  let line (program : String) : Action :=
    .ifThen (.sequence [.operand (.flag true)]) (choice program)
  (build (.ofSizes 0 0 0) ⟨[.written "MAIN" [line "WORK"]]⟩
    ⟨[.written "SUB" [.blank], .written "DRAFT" [line "SUB"]]⟩ fun _ => {}).1.operate
      [.start 0 "MAIN" .full 0, .tick,
        .edit 1 fun l => ⟨l.programs.modify 1 fun p => { p with name := "WORK" }⟩]

/-- After the pass the second device calls out of `WORK`, and the first one is left as it was. -/
theorem never_unresolved_brokenOff :
    let c := brokenOff.relink.1
    let ks : List (Command InstantArm) := [.start 1 "WORK" .full 0, .tick]
    c.CleanlyLinked ∧ (c.operate ks).second.execution = some ⟨⟨1, 0⟩, 0, 1, .full, .running⟩ ∧
      (c.operate ks).first.unresolved = true ∧
      (c.operate ks).first.execution = c.first.execution := by
  intro c ks
  have hlinked : c.CleanlyLinked := .relinked ⟨_, _, _, _, _, rfl⟩ (by decide)
  have hkeeps : ∀ k ∈ ks, k.keepsLibraries = true := by decide
  have hbroken : (c.operate ks).first.unresolved = true := by decide
  have hstays := (CleanlyLinked.never_unresolved hlinked hkeeps).2 .first hbroken
  exact ⟨hlinked, by decide, hbroken, hstays⟩

end Cell

end TeachPendant
