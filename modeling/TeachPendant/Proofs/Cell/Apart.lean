import TeachPendant.Arm.Instant
import TeachPendant.Proofs.Cell.Quiescence
import TeachPendant.Proofs.Instruction.Footprint
import TeachPendant.Proofs.Linking.Resolution

namespace TeachPendant

/-- The same step, up to registers other than `R`. -/
structure StepResult.AgreeOn {σ : Type} (R : RegisterName → Prop) (s s' : StepResult σ) : Prop where
  rest : s' = { s with registers := s'.registers }
  registers : s.registers.AgreeOn R s'.registers

namespace Execution

variable {σ : Type} [MotionService σ] {R : RegisterName → Prop} {c c' : Context}

theorem follow_agree {e e' : Effect} (h : e.AgreeOn R e') (x : Execution) (p : Program) (arm : σ) :
    (x.follow p e arm).AgreeOn R (x.follow p e' arm) := by
  obtain ⟨flow, registers, frames⟩ := e
  obtain ⟨flow', registers', frames'⟩ := e'
  obtain ⟨rfl, rfl, hregisters⟩ := h
  cases flow with
  | next | move => exact ⟨rfl, hregisters⟩
  | jump label =>
    simp only [follow]
    cases p.findLabel label <;> exact ⟨rfl, hregisters⟩
  | call target =>
    simp only [follow]
    cases target.link <;> exact ⟨rfl, hregisters⟩

theorem step_agree (h : c.AgreeOn R c') (x : Execution) {p : Program}
    (hp : ∀ i, p.instruction? x.current = some i → ∀ a ∈ i.live, a.Within R) (arm : σ) :
    (x.step p c arm).AgreeOn R (x.step p c' arm) := by
  have hsame (y : Execution) (trace : Trace) : StepResult.AgreeOn R
      { execution := y, registers := c.registers, frames := c.frames, arm, trace }
      { execution := y, registers := c'.registers, frames := c'.frames, arm, trace } :=
    ⟨by rw [h.frames], h.registers⟩
  unfold step
  dsimp only
  split_ifs
  · exact hsame x []
  · cases hi : p.instruction? x.current with
    | none => exact hsame _ []
    | some i =>
      dsimp only
      split_ifs
      · exact hsame _ []
      · have hends := Instruction.execute_agree p.positions h i (hp i hi)
        generalize i.execute c p.positions = r at hends
        generalize i.execute c' p.positions = r' at hends
        cases hends with
        | error e =>
          dsimp only
          split_ifs
          · exact hsame _ []
          · exact hsame _ _
        | ok he => exact follow_agree he x p arm

theorem follow_registers (x : Execution) (p : Program) (effect : Effect) (arm : σ) :
    (x.follow p effect arm).registers = effect.registers := by
  unfold follow
  split
  · rfl
  · split <;> rfl
  · rfl
  · split <;> rfl

/-- A step writes nothing that its line does not name. -/
theorem agreeOn_step (x : Execution) {p : Program}
    (hp : ∀ i, p.instruction? x.current = some i → ∀ a ∈ i.live, ∀ r ∈ a.writes, ¬ R r) (arm : σ) :
    c.registers.AgreeOn R (x.step p c arm).registers := by
  have hstep := stepped x p c arm
  generalize x.step p c arm = s at hstep ⊢
  cases hstep with
  | followed _ hi _ he =>
    rw [follow_registers]
    exact Instruction.agreeOn_of_execute (hp _ hi) he
  | stopped | lost | passed | broken | skipped => exact .refl _ _

end Execution

/-- The calls that a run can make from this library, and that have a link, stay on the device. -/
def Library.StaysOn (l : Library) (side : Side) : Prop :=
  ∀ t ∈ l.callees, t.link.isSome → t.device = side.id

namespace Device

variable {σ : Type} {d : Device σ} {l : Library} {side : Side}

/-- Works for nobody but itself. -/
structure Solitary (d : Device σ) (side : Side) (l : Library) : Prop where
  id_eq : d.id = side.id
  library : d.library = l
  quiet : d.abandoned = none
  own : ∀ f ∈ d.returnStack, f.device = d.id

namespace Solitary

theorem caller?_eq (h : d.Solitary side l) : d.caller? = none := by
  rw [caller?, foreign?, List.find?_eq_none]
  intro f hf
  simpa using h.own f (List.mem_reverse.mp hf)

theorem withRun (h : d.Solitary side l) (x : Option Execution) (frames : Frames) (arm : σ) :
    ({ d with execution := x, frames := frames, arm := arm } : Device σ).Solitary side l :=
  ⟨h.id_eq, h.library, h.quiet, h.own⟩

theorem withStack (h : d.Solitary side l) {stack : List ReturnFrame}
    (hs : ∀ f ∈ stack, f.device = d.id) :
    ({ d with returnStack := stack } : Device σ).Solitary side l :=
  ⟨h.id_eq, h.library, h.quiet, hs⟩

theorem dropCallChain (h : d.Solitary side l) (reason : String) :
    (d.dropCallChain reason).Solitary side l := by
  rw [dropCallChain_eq, h.caller?_eq]
  exact h.withStack nofun

theorem fail (h : d.Solitary side l) (cause : Error) : (d.fail cause).1.Solitary side l :=
  (h.withRun _ _ _).dropCallChain _

theorem begin (h : d.Solitary side l) (ref : ProgramRef) (mode : RunMode) (i : Nat) :
    (d.begin ref mode i).1.Solitary side l := by
  unfold Device.begin
  split
  · exact h
  · split_ifs
    · exact h.withRun _ _ _
    · exact h.withRun _ _ _

theorem start (h : d.Solitary side l) {program : String} {mode : RunMode} {i : Nat} {d' : Device σ}
    {trace : Trace} (hs : d.start program mode i = .ok (d', trace)) : d'.Solitary side l := by
  obtain ⟨-, index, p, -, -, rfl⟩ := of_start hs
  exact h.begin _ mode i

variable [MotionService σ]

/-- The device keeps to itself, and needs nothing from the cell. -/
theorem tick (h : d.Solitary side l) (hl : l.StaysOn side) (registers : RegisterBank) :
    (d.tick registers).device.Solitary side l ∧
      ((d.tick registers).event = .idle ∨ (d.tick registers).event = .busy) := by
  have ht := d.ticked registers
  generalize d.tick registers = t at ht ⊢
  have hline (s : StepResult σ) : (d.afterLine s).Solitary side l := h.withRun _ _ _
  have hpop {frame : ReturnFrame} {rest : List ReturnFrame} (hr : d.returnStack = frame :: rest) :
      ({ d with returnStack := rest } : Device σ).Solitary side l :=
    h.withStack fun f hf => h.own f (by simp [hr, hf])
  cases ht with
  | reported report => exact absurd (h.quiet.symm.trans report) nofun
  | unstarted | waiting | stopped => exact ⟨h, Or.inl rfl⟩
  | lost => exact ⟨h.fail _, Or.inl rfl⟩
  | faulted => exact ⟨(hline _).dropCallChain _, Or.inr rfl⟩
  | advanced => exact ⟨hline _, Or.inr rfl⟩
  | @calledOver x p target _ _ hp _ _ hcall hdevice =>
    obtain ⟨i, effect, hi, he, hf, hk⟩ := Execution.call_of_step hcall
    obtain ⟨a, ha, ht⟩ := Instruction.exists_live_of_call he hf
    have hmem : a ∈ l.live := h.library ▸ Library.mem_live hp hi ha
    exact absurd ((hl target (List.mem_flatMap.mpr ⟨a, hmem, ht⟩) hk).trans h.id_eq.symm) hdevice
  | @calledHere x p target ref _ _ _ _ _ _ _ _ called hcalled mode =>
    subst hcalled
    refine ⟨((hline _).withStack fun f hf => ?_).begin ref mode 0, Or.inr rfl⟩
    rcases List.mem_cons.mp hf with rfl | hf
    · rfl
    · exact h.own f hf
  | refused => exact ⟨(hline _).fail _, Or.inl rfl⟩
  | polled => exact ⟨h.withRun _ _ _, Or.inr rfl⟩
  | @returnedOver x p frame rest _ _ _ _ hr hdevice =>
    exact absurd (h.own frame (by simp [hr])) hdevice
  | returnLost _ _ _ _ hr => exact ⟨(hpop hr).fail _, Or.inl rfl⟩
  | returnedHere _ _ _ _ hr => exact ⟨(hpop hr).withRun _ _ _, Or.inr rfl⟩

end Solitary

end Device

/-- The same tick, up to registers other than `R`. -/
structure TickResult.AgreeOn {σ : Type} (R : RegisterName → Prop) (t t' : TickResult σ) : Prop where
  rest : t' = { t with registers := t'.registers }
  registers : t.registers.AgreeOn R t'.registers

namespace Device

variable {σ : Type} [MotionService σ] {R : RegisterName → Prop} {b b' : RegisterBank}

theorem tickRunning_agree (h : b.AgreeOn R b') (d : Device σ) (x : Execution) {p : Program}
    (hp : ∀ i, p.instruction? x.current = some i → ∀ a ∈ i.live, a.Within R) :
    (d.tickRunning b x p).AgreeOn R (d.tickRunning b' x p) := by
  have hcontext : Context.AgreeOn R ⟨b, d.frames, MotionService.pose d.arm, d.id⟩
      ⟨b', d.frames, MotionService.pose d.arm, d.id⟩ := ⟨h, rfl, rfl, rfl⟩
  obtain ⟨hrest, hregisters⟩ : (d.lineResult b x p).AgreeOn R (d.lineResult b' x p) :=
    Execution.step_agree hcontext x hp d.arm
  rw [tickRunning_eq, tickRunning_eq, hrest]
  generalize d.lineResult b x p = s at hregisters
  dsimp only
  cases s.execution.status with
  | fault cause => exact ⟨rfl, hregisters⟩
  | running | awaitingMotion | awaitingCall | done =>
    cases s.call with
    | none => exact ⟨rfl, hregisters⟩
    | some target => exact ⟨rfl, hregisters⟩

theorem tick_agree (h : b.AgreeOn R b') {d : Device σ} (hd : ∀ a ∈ d.library.live, a.Within R) :
    (d.tick b).AgreeOn R (d.tick b') := by
  unfold tick
  cases d.abandoned with
  | some report => exact ⟨rfl, h⟩
  | none =>
    cases d.execution with
    | none => exact ⟨rfl, h⟩
    | some x =>
      dsimp only
      cases hp : d.library.get? x.program.index with
      | none => exact ⟨rfl, h⟩
      | some p =>
        dsimp only
        cases x.status with
        | running =>
          exact tickRunning_agree h d x fun i hi a ha => hd a (Library.mem_live hp hi ha)
        | awaitingMotion | awaitingCall | fault => exact ⟨rfl, h⟩
        | done reason => cases reason <;> exact ⟨rfl, h⟩

/-- A tick writes nothing that the programs of the device do not name. -/
theorem agreeOn_tick (d : Device σ) (b : RegisterBank)
    (hd : ∀ a ∈ d.library.live, ∀ r ∈ a.writes, ¬ R r) : b.AgreeOn R (d.tick b).registers := by
  have hline {x : Execution} {p : Program} (hp : d.library.get? x.program.index = some p) :
      b.AgreeOn R (d.lineResult b x p).registers :=
    Execution.agreeOn_step (c := ⟨b, d.frames, MotionService.pose d.arm, d.id⟩) x
      (fun i hi a ha => hd a (Library.mem_live hp hi ha)) d.arm
  have ht := d.ticked b
  generalize d.tick b = t at ht ⊢
  cases ht with
  | faulted _ _ hp | advanced _ _ hp | calledOver _ _ hp | calledHere _ _ hp | refused _ _ hp =>
    exact hline hp
  | _ => exact .refl _ _

end Device

namespace Cell

variable {σ : Type} [MotionService σ] {c c' : Cell σ} {l : Side → Library} {s : Side}

/-- A device that needs nothing from the cell has its turn on its own. -/
theorem tickSide_of_solitary {l : Library} (h : (c.get s).Solitary s l) (hl : l.StaysOn s) :
    (c.tickSide s).1 = { c.put s ((c.get s).tick c.registers).device with
      registers := ((c.get s).tick c.registers).registers } := by
  rcases (h.tick hl c.registers).2 with he | he
  all_goals simp only [tickSide, he, route]

/-- The libraries of arms that keep apart. -/
structure KeepApart (l : Side → Library) : Prop where
  calls : ∀ s, (l s).StaysOn s
  writes : ∀ s, ∀ r ∈ (l s).writes, r ∉ (l s.other).reads ∧ r ∉ (l s.other).writes

/-- In the first cell both arms run, in the second one only `s` does. It stands alike in both, and
the banks differ at most in what the other arm writes. -/
structure Apart (l : Side → Library) (s : Side) (c c' : Cell σ) : Prop where
  device : c.get s = c'.get s
  registers : c.registers.AgreeOn (· ∉ (l s.other).writes) c'.registers
  solitary : ∀ t, (c.get t).Solitary t (l t)
  unstarted : (c'.get s.other).execution = none ∧ (c'.get s.other).abandoned = none

namespace Apart

theorem tickSide_own (hl : KeepApart l) (h : Apart l s c c') :
    Apart l s (c.tickSide s).1 (c'.tickSide s).1 := by
  have hown := h.solitary s
  have hown' : (c'.get s).Solitary s (l s) := h.device ▸ hown
  have hwithin : ∀ a ∈ (c.get s).library.live, a.Within (· ∉ (l s.other).writes) := by
    rw [hown.library]
    refine fun a ha => ⟨fun r hr hw => ?_, fun r hr hw => ?_⟩
    · exact ((Side.other_other s ▸ hl.writes s.other) r hw).1 (List.mem_flatMap.mpr ⟨a, ha, hr⟩)
    · exact (hl.writes s r (List.mem_flatMap.mpr ⟨a, ha, hr⟩)).2 hw
  obtain ⟨hrest, hregisters⟩ := Device.tick_agree h.registers hwithin
  rw [tickSide_of_solitary hown (hl.calls s), tickSide_of_solitary hown' (hl.calls s), ← h.device,
    hrest]
  refine ⟨by simp, hregisters, ?_, by simpa using h.unstarted⟩
  refine Side.forall_of s ?_ ?_
  · simpa using (hown.tick (hl.calls s) c.registers).1
  · simpa using h.solitary s.other

/-- The arm that was not started has nothing to do, and the other cell loses no agreement. -/
theorem tickSide_other (hl : KeepApart l) (h : Apart l s c c') :
    Apart l s (c.tickSide s.other).1 (c'.tickSide s.other).1 := by
  have hother := h.solitary s.other
  have hidle : (c'.tickSide s.other).1 = c' := by
    simp [tickSide, Device.tick, h.unstarted.1, h.unstarted.2, route]
  have hkept : c.registers.AgreeOn (· ∉ (l s.other).writes)
      ((c.get s.other).tick c.registers).registers := by
    refine Device.agreeOn_tick _ _ fun a ha r hr hn => hn ?_
    rw [hother.library] at ha
    exact List.mem_flatMap.mpr ⟨a, ha, hr⟩
  rw [hidle, tickSide_of_solitary hother (hl.calls s.other)]
  refine ⟨by simpa using h.device, hkept.symm.trans h.registers, ?_, h.unstarted⟩
  refine Side.forall_of s ?_ ?_
  · simpa using h.solitary s
  · simpa using (hother.tick (hl.calls s.other) c.registers).1

theorem tickSide (hl : KeepApart l) (h : Apart l s c c') (t : Side) :
    Apart l s (c.tickSide t).1 (c'.tickSide t).1 := by
  rcases s.eq_or_eq_other t with rfl | rfl
  · exact h.tickSide_own hl
  · exact h.tickSide_other hl

theorem ticks (hl : KeepApart l) (h : Apart l s c c') (n : Nat) :
    Apart l s (c.ticks n) (c'.ticks n) := by
  induction n with
  | zero => exact h
  | succ n ih => exact (ih.tickSide hl .first).tickSide hl .second

end Apart

omit [MotionService σ] in
theorem get_build (registers : RegisterBank) (l : Side → Library) (arm : Side → σ) (s : Side) :
    (build registers (l .first) (l .second) arm).1.get s = {
      id := s.id
      library := (l s).mapCalls (Linking.linkTarget [l .first, l .second])
      arm := arm s } := by
  cases s <;> rfl

/-- Links lead no further than the calls say. -/
theorem keepApart_of_linked {l : Side → Library}
    (hcalls : ∀ s, ∀ t ∈ (l s).callees, t.device ≠ s.other.id)
    (hwrites : ∀ s, ∀ r ∈ (l s).writes, r ∉ (l s.other).reads ∧ r ∉ (l s.other).writes) :
    KeepApart fun s => (l s).mapCalls (Linking.linkTarget [l .first, l .second]) := by
  refine ⟨fun s t ht hk => ?_, fun s => by simpa using hwrites s⟩
  rw [Library.callees_mapCalls] at ht
  obtain ⟨written, hwritten, rfl⟩ := List.mem_map.mp ht
  obtain ⟨ref, href⟩ := Option.isSome_iff_exists.mp hk
  obtain ⟨r, -, hr, -⟩ := Linking.linkOf_some href
  rcases s.eq_or_eq_other r with rfl | rfl
  · exact hr
  · exact absurd hr (hcalls s written hwritten)

/-- The device after an attempt to start a program on it. -/
def startOn (d : Device σ) (program : String) (mode : RunMode) (line : Nat) : Device σ :=
  match d.start program mode line with
  | .ok (d', _) => d'
  | .error _ => d

theorem perform_start (c : Cell σ) (s : Side) (program : String) (mode : RunMode) (line : Nat) :
    c.perform (.start s.id program mode line) =
      c.put s (startOn (c.get s) program mode line) := by
  simp only [perform_eq_moves, Command.moves, Side.ofId?_id, Option.map_some, Option.toList_some,
    List.foldl_cons, List.foldl_nil, move, startOn]
  cases (c.get s).start program mode line with
  | error e => simp
  | ok started => rfl

omit [MotionService σ] in
theorem solitary_startOn {d : Device σ} {l : Library} (h : d.Solitary s l) (program : String)
    (mode : RunMode) (line : Nat) : (startOn d program mode line).Solitary s l := by
  unfold startOn
  cases hs : d.start program mode line with
  | error e => exact h
  | ok started => exact h.start hs

/-- Arms whose programs do not call each other, and of which neither writes what the other one reads
or writes, do not disturb each other: at any time each device is what it would be if it had been
started alone, and so is every register that the other arm does not write, in particular all those
that its own programs name. -/
theorem ticks_apart {l : Side → Library}
    (hcalls : ∀ s, ∀ t ∈ (l s).callees, t.device ≠ s.other.id)
    (hwrites : ∀ s, ∀ r ∈ (l s).writes, r ∉ (l s.other).reads ∧ r ∉ (l s.other).writes)
    (registers : RegisterBank) (arm : Side → σ) (program : Side → String) (mode : Side → RunMode)
    (line : Side → Nat) (s : Side) (n : Nat) :
    let c : Cell σ := (build registers (l .first) (l .second) arm).1
    let start (t : Side) : Command σ := .start t.id (program t) (mode t) (line t)
    let both := (c.operate [start .first, start .second]).ticks n
    let alone := (c.operate [start s]).ticks n
    both.get s = alone.get s ∧
      both.registers.AgreeOn (· ∉ (l s.other).writes) alone.registers := by
  intro c start both alone
  have hl := keepApart_of_linked hcalls hwrites
  have hnew (t : Side) : (c.get t).Solitary t
      ((l t).mapCalls (Linking.linkTarget [l .first, l .second])) := by
    rw [get_build]
    exact ⟨rfl, rfl, rfl, nofun⟩
  have hstarted (t : Side) : (startOn (c.get t) (program t) (mode t) (line t)).Solitary t
      ((l t).mapCalls (Linking.linkTarget [l .first, l .second])) :=
    solitary_startOn (hnew t) (program t) (mode t) (line t)
  have hboth (t : Side) : (c.operate [start .first, start .second]).get t =
      startOn (c.get t) (program t) (mode t) (line t) := by
    simp only [operate, List.foldl_cons, List.foldl_nil, start, perform_start]
    cases t <;> rfl
  have hbegin : Apart (fun t => (l t).mapCalls (Linking.linkTarget [l .first, l .second])) s
      (c.operate [start .first, start .second]) (c.operate [start s]) := by
    refine ⟨?_, ?_, fun t => ?_, ?_⟩
    · rw [hboth]
      simp [operate, start, perform_start]
    · simp only [operate, List.foldl_cons, List.foldl_nil, start, perform_start]
      cases s <;> exact .refl _ _
    · rw [hboth]
      exact hstarted t
    · simp [operate, start, perform_start, c, get_build]
  have hend := hbegin.ticks hl n
  exact ⟨hend.device, by simpa using hend.registers⟩

/-- The first arm counts and moves; the second one waits for a signal that nobody gives, moves a
position register, and calls a program of its own. A call to the first arm has been commented out. -/
def twoArms : Side → Library
  | .first => ⟨[.written "COUNT" [.label 1,
      .assign (.data 0) [.operand (.data 0), .operator .add, .operand (.number (.ofNat 1))],
      .motion { kind := .joint, target := .register 0, speed := .ofNat 50 }, .jump 1]]⟩
  | .second => ⟨[(Program.written "SHIFT" [
      .ifThen (.sequence [.operand (.io 0)]) (.ofAction (.setIo 1 true)),
      .assign (.component 1 0) [.operand (.number (.ofNat 3))],
      .call { program := "SIGNAL", device := 1 }]).push
        (.mk (.call { program := "COUNT", device := 0 }) true),
      .written "SIGNAL" [.setIo 2 true]]⟩

theorem ticks_apart_twoArms :
    let c : Cell InstantArm :=
      (build (.ofSizes 1 3 2) (twoArms .first) (twoArms .second) fun _ => {}).1
    let program : Side → String
      | .first => "COUNT"
      | .second => "SHIFT"
    let start (t : Side) : Command InstantArm := .start t.id (program t) .full 0
    let both := (c.operate [start .first, start .second]).ticks 6
    let alone (s : Side) := (c.operate [start s]).ticks 6
    (∀ s, ∀ t ∈ (twoArms s).callees, t.device ≠ s.other.id) ∧
      (∀ s, ∀ r ∈ (twoArms s).writes,
        r ∉ (twoArms s.other).reads ∧ r ∉ (twoArms s.other).writes) ∧
      (∀ s, both.get s = (alone s).get s ∧
        both.registers.AgreeOn (· ∉ (twoArms s.other).writes) (alone s).registers) ∧
      both.registers.io.map (·.value) = [false, false, true] ∧
      both.first.execution = some ⟨⟨0, 0⟩, 1, 2, .full, .running⟩ := by
  intro c program start both alone
  have hcalls : ∀ s, ∀ t ∈ (twoArms s).callees, t.device ≠ s.other.id := by
    intro s
    cases s <;> decide
  have hwrites : ∀ s, ∀ r ∈ (twoArms s).writes,
      r ∉ (twoArms s.other).reads ∧ r ∉ (twoArms s.other).writes := by
    intro s
    cases s <;> decide
  have h := ticks_apart hcalls hwrites (.ofSizes 1 3 2) (fun _ => ({} : InstantArm)) program
    (fun _ => .full) fun _ => 0
  exact ⟨hcalls, hwrites, fun s => h s 6, by decide, by decide⟩

end Cell

end TeachPendant
