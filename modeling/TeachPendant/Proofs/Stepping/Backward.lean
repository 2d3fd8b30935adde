import TeachPendant.Arm.Instant
import TeachPendant.Proofs.Cell.Bystander
import TeachPendant.Proofs.Instruction.Errors
import TeachPendant.Proofs.Stepping.Record

namespace TeachPendant

/-- The motion on a line that is not commented. -/
def Instruction.motion? : Instruction → Option Motion
  | .mk (.motion m) false => some m
  | _ => none

/-- The move that a line asks for when it is run backward: that of an uncommented motion, if its
positions are there. -/
def Program.moveAt? (p : Program) (c : Context) (line : Nat) : Option Move :=
  ((p.instruction? line).bind (·.motion?)).bind fun m => (m.move c p.positions).toOption

namespace Program

/-- A move depends on the registers and on the device, and on nothing else that changes. -/
theorem moveAt?_congr (p : Program) {c c' : Context} (hr : c.registers = c'.registers)
    (hd : c.device = c'.device) (line : Nat) : p.moveAt? c line = p.moveAt? c' line := by
  obtain ⟨registers, frames, pose, device⟩ := c
  obtain ⟨registers', frames', pose', device'⟩ := c'
  obtain rfl : registers = registers' := hr
  obtain rfl : device = device' := hd
  rfl

variable {p : Program} {line : Nat} {i : Instruction} {c : Context}

theorem moveAt?_of_not_motion (hi : p.instruction? line = some i) (hm : ¬ i.isMotion) :
    p.moveAt? c line = none := by
  obtain ⟨action, commented⟩ := i
  rw [moveAt?, hi, Option.bind_some]
  cases action with
  | motion m => exact absurd rfl hm
  | _ => rfl

/-- What a motion line does. -/
theorem execute_motion (hi : p.instruction? line = some i) (hm : i.isMotion) :
    i.execute c p.positions = .ok (c.goOn ((p.moveAt? c line).elim .next .move)) ∨
      p.moveAt? c line = none ∧ ∃ e, i.execute c p.positions = .error e := by
  obtain ⟨action, commented⟩ := i
  rw [moveAt?, hi, Option.bind_some]
  cases action with
  | motion m =>
    cases commented with
    | true => exact Or.inl rfl
    | false =>
      simp only [Instruction.motion?, Option.bind_some, Instruction.execute, Action.execute]
      cases m.move c p.positions with
      | error e => exact Or.inr ⟨rfl, e, rfl⟩
      | ok move => exact Or.inl rfl
  | _ => cases hm

end Program

/-- The lines from line `i` up to line `k`. -/
def upward (i k : Nat) : List Nat := (List.range' k (i + 1 - k)).reverse

theorem upward_succ {i k : Nat} (h : k ≤ i) : upward i k = upward i (k + 1) ++ [k] := by
  have hn : i + 1 - k = i + 1 - (k + 1) + 1 := by omega
  rw [upward, hn, List.range'_succ, List.reverse_cons, upward]

theorem upward_eq_nil (i : Nat) : upward i (i + 1) = [] := by simp [upward]

theorem upward_zero (i : Nat) : upward i 0 = (List.range (i + 1)).reverse := by
  rw [upward, List.range_eq_range', Nat.sub_zero]

theorem upward_prefix {i k : Nat} (h : k ≤ i + 1) : upward i k <+: (List.range (i + 1)).reverse := by
  have hsplit := List.range'_append_1 (s := 0) (m := k) (n := i + 1 - k)
  rw [Nat.zero_add, Nat.add_sub_cancel' h, ← List.range_eq_range' (n := i + 1)] at hsplit
  rw [← hsplit, List.reverse_append]
  exact List.prefix_append _ _

/-- How far a run backward has come. -/
inductive Ascent
  | paused (line : Nat)
  | running (line : Nat)
  | moving (line handle : Nat)
  | ended

namespace Ascent

def execution (ref : ProgramRef) : Ascent → Execution
  | .paused line => ⟨ref, line, Execution.following .backward line, .backward, .done .stepped⟩
  | .running line => ⟨ref, line, Execution.following .backward line, .backward, .running⟩
  | .moving line handle =>
    ⟨ref, line, Execution.following .backward line, .backward, .awaitingMotion handle⟩
  | .ended => ⟨ref, 0, -1, .backward, .done .endOfProgram⟩

/-- How many lines have not been run yet. -/
def todo : Ascent → Nat
  | .paused line | .running line => line + 1
  | .moving line _ => line
  | .ended => 0

/-- How many more times the run is resumed or has its turn, at most. -/
def left : Ascent → Nat
  | .paused line => 3 * line + 3
  | .running line => 3 * line + 2
  | .moving line _ => 3 * line + 1
  | .ended => 0

/-- The run after line `line`. -/
def above : Nat → Ascent
  | 0 => .ended
  | line + 1 => .paused line

@[simp] theorem program_execution (a : Ascent) (ref : ProgramRef) :
    (a.execution ref).program = ref := by cases a <;> rfl

theorem not_calling (a : Ascent) (ref : ProgramRef) :
    (a.execution ref).status ≠ .awaitingCall := by cases a <;> simp [execution]

theorem not_broken (a : Ascent) (ref : ProgramRef) :
    (a.execution ref).status.broken = false := by cases a <;> rfl

@[simp] theorem todo_above (line : Nat) : (above line).todo = line := by cases line <;> rfl

@[simp] theorem left_above (line : Nat) : (above line).left = 3 * line := by
  cases line with
  | zero => rfl
  | succ line => rw [above, left, Nat.mul_succ]

/-- Line `line` has been run, and none after it. -/
structure Follows (a : Ascent) (line : Nat) : Prop where
  todo : a.todo = line
  left : a.left ≤ 3 * line + 1
  current_le : ∀ ref, (a.execution ref).current ≤ line

theorem follows_above (line : Nat) : (above line).Follows line where
  todo := todo_above line
  left := by rw [left_above]; omega
  current_le _ := by cases line <;> simp [above, execution]

theorem follows_moving (line handle : Nat) : (moving line handle).Follows line :=
  ⟨rfl, Nat.le_refl _, fun _ => Nat.le_refl _⟩

theorem eq_ended_of_left {a : Ascent} (h : a.left = 0) : a = .ended := by
  cases a with
  | ended => rfl
  | paused | running | moving => simp [left] at h

theorem moveOn_running (ref : ProgramRef) {p : Program} {line : Nat} (h : line < p.length) :
    ((running line).execution ref).moveOn p = (above line).execution ref := by
  cases line with
  | zero => exact Execution.moveOn_of_end (Or.inr ⟨rfl, rfl⟩)
  | succ line =>
    have hn : ((running (line + 1)).execution ref).next = line := by
      simp [execution, Execution.following]
    exact Execution.moveOn_of_lt hn (by omega)

section Line

variable {σ : Type} {p : Program} {ref : ProgramRef} {line : Nat}

/-- What a line comes to when it is run backward. -/
structure Passes (p : Program) (ref : ProgramRef) (line : Nat) (c : Context)
    (s : StepResult σ) : Prop where
  registers : s.registers = c.registers
  frames : s.frames = c.frames
  call : s.call = none
  moves : s.trace.moves = (p.moveAt? c line).toList
  follows : ∃ a : Ascent, s.execution = a.execution ref ∧ a.Follows line

theorem passes_above {c : Context} (h : line < p.length) (hn : p.moveAt? c line = none) (arm : σ)
    {trace : Trace} (ht : trace.moves = []) :
    Passes p ref line c
      { (((running line).execution ref).moveOn p).leaving c arm with trace := trace } := by
  rw [moveOn_running ref h]
  exact ⟨rfl, rfl, rfl, by rw [hn]; exact ht, above line, rfl, follows_above line⟩

variable [MotionService σ]

theorem passes_step (h : line < p.length) (c : Context) (arm : σ) :
    Passes p ref line c (((running line).execution ref).step p c arm) := by
  have hmotion {i : Instruction} (hr : ¬ (RunMode.backward = .backward ∧ ¬ i.isMotion)) :
      i.isMotion := Decidable.not_not.mp fun hn => hr ⟨rfl, hn⟩
  have hstep := ((running line).execution ref).stepped p c arm
  generalize ((running line).execution ref).step p c arm = s at hstep ⊢
  cases hstep with
  | stopped hs => exact absurd rfl hs
  | lost _ hi =>
    have hlost : p.lines.length ≤ line := List.getElem?_eq_none_iff.mp (Option.map_eq_none_iff.mp hi)
    exact absurd h (Nat.not_lt_of_le hlost)
  | passed _ hi hb => exact passes_above h (Program.moveAt?_of_not_motion hi hb.2) arm rfl
  | followed _ hi hr he =>
    rcases Program.execute_motion hi (hmotion hr) with hok | ⟨-, e, herror⟩
    · obtain rfl := Except.ok.inj (he.symm.trans hok)
      show Passes p ref line c (((running line).execution ref).follow p
        (c.goOn ((p.moveAt? c line).elim .next .move)) arm)
      cases hm : p.moveAt? c line with
      | none => exact passes_above h hm arm rfl
      | some m =>
        exact ⟨rfl, rfl, rfl, by rw [hm]; rfl, .moving line (MotionService.dispatch arm m).2, rfl,
          follows_moving _ _⟩
    · cases he.symm.trans herror
  | broken _ _ _ he hf =>
    cases hf.symm.trans (Instruction.execute_fails c p.positions _ _ he)
  | skipped _ hi hr he =>
    rcases Program.execute_motion hi (hmotion hr) with hok | ⟨hnone, -⟩
    · cases he.symm.trans hok
    · exact passes_above h hnone arm rfl

end Line

end Ascent

namespace Device

/-- What an instruction sees when the device runs it. -/
def context {σ : Type} [MotionService σ] (d : Device σ) (bank : RegisterBank) : Context :=
  ⟨bank, d.frames, MotionService.pose d.arm, d.id⟩

/-- The device runs `p` backward and has come as far as `a`. -/
structure Ascends {σ : Type} (d : Device σ) (ref : ProgramRef) (p : Program) (a : Ascent) :
    Prop where
  execution : d.execution = some (a.execution ref)
  program : d.library.get? ref.index = some p
  stack : d.returnStack = []
  inside : (a.execution ref).current < p.length

theorem Ascends.status_eq {σ : Type} {d : Device σ} {ref : ProgramRef} {p : Program} {a : Ascent}
    (h : d.Ascends ref p a) : d.status? = some (a.execution ref).status := by
  rw [status?, h.execution, Option.map_some]

/-- What is left to a run backward; a report of an earlier run goes first. -/
def due {σ : Type} (d : Device σ) (a : Ascent) : Nat :=
  a.left + if d.abandoned.isSome then 1 else 0

/-- The run of `d` at `a` comes nearer to its end when it is at `b`, or stays there. -/
def Nears {σ : Type} (d : Device σ) (a : Ascent) (d' : Device σ) (b : Ascent) : Prop :=
  (a = .ended → b = .ended) ∧ (a ≠ .ended → d'.due b < d.due a)

variable {d : Device InstantArm} {ref : ProgramRef} {p : Program} {a : Ascent}

/-- What a turn of a run backward comes to. It runs at most one line. -/
structure Climbs (d : Device InstantArm) (bank : RegisterBank) (ref : ProgramRef) (p : Program)
    (a b : Ascent) (t : TickResult InstantArm) : Prop where
  ascends : t.device.Ascends ref p b
  quiet : t.event.Quiet
  registers : t.registers = bank
  frames : t.device.frames = d.frames
  record : d.line? = none ∧ t.trace.moves = [] ∧ b.todo = a.todo ∨
    ∃ line, a.todo = line + 1 ∧ b.todo = line ∧ d.line? = some (ref, line) ∧
      t.trace.moves = (p.moveAt? (d.context bank) line).toList
  nears : d.Nears a t.device b

theorem Ascends.climbs_running {line : Nat} (h : d.Ascends ref p (.running line))
    (quiet : d.abandoned = none) (bank : RegisterBank) :
    ∃ b, d.Climbs bank ref p (.running line) b (d.tick bank) := by
  have hl : line < p.length := h.inside
  have hpasses : Ascent.Passes p ref line (d.context bank)
      (d.lineResult bank ((Ascent.running line).execution ref) p) := Ascent.passes_step hl _ d.arm
  have ht : d.tick bank = d.tickRunning bank ((Ascent.running line).execution ref) p := by
    simp only [tick, quiet, h.execution, Ascent.program_execution, h.program]
    rfl
  generalize (Ascent.running line).execution ref = x at ht hpasses
  obtain ⟨b, hb, hfollows⟩ := hpasses.follows
  have hfault (cause : Error) : (d.lineResult bank x p).execution.status ≠ .fault cause := by
    intro hs
    have hbroken := b.not_broken ref
    rw [← hb, hs] at hbroken
    cases hbroken
  refine ⟨b, ?_⟩
  rw [ht, tickRunning_of_ok hfault, hpasses.call]
  refine ⟨⟨congrArg some hb, h.program, h.stack, ?_⟩, trivial, hpasses.registers, hpasses.frames,
    Or.inr ⟨line, rfl, hfollows.todo, ?_, hpasses.moves⟩, nofun, fun _ => ?_⟩
  · exact Nat.lt_of_le_of_lt (hfollows.current_le ref) hl
  · simp [line?, quiet, h.execution, h.program, Ascent.execution]
  · exact Nat.add_lt_add_right (Nat.lt_succ_of_le hfollows.left) _

/-- The poll after a motion finds it complete. -/
theorem Ascends.climbs_moving {line handle : Nat} (h : d.Ascends ref p (.moving line handle))
    (quiet : d.abandoned = none) (bank : RegisterBank) :
    ∃ b, d.Climbs bank ref p (.moving line handle) b (d.tick bank) := by
  have hl : line < p.length := h.inside
  have hadvance : ((Ascent.moving line handle).execution ref).advance p d.arm =
      ((Ascent.above line).execution ref, d.arm, [.polled ref.device handle true]) := by
    rw [← Ascent.moveOn_running ref hl]
    rfl
  have ht : d.tick bank = {
      device := { d with execution := some ((Ascent.above line).execution ref) }
      registers := bank, event := .busy, trace := [.polled ref.device handle true] } := by
    simp only [tick, quiet, h.execution, Ascent.program_execution, h.program]
    show ({ device := _, registers := _, event := _, trace := _ } : TickResult InstantArm) = _
    rw [hadvance]
  have hfollows := Ascent.follows_above line
  have hline : d.line? = none := by simp [line?, quiet, h.execution, Ascent.execution]
  refine ⟨.above line, ?_⟩
  rw [ht]
  refine ⟨⟨rfl, h.program, h.stack, ?_⟩, trivial, rfl, rfl, Or.inl ⟨hline, rfl, hfollows.todo⟩, nofun,
    fun _ => ?_⟩
  · exact Nat.lt_of_le_of_lt (hfollows.current_le ref) hl
  · simp only [due, quiet, Ascent.left_above]
    exact Nat.lt_succ_self _

theorem Ascends.climbs (h : d.Ascends ref p a) (hn : d.status? ≠ some (.done .stepped))
    (bank : RegisterBank) : ∃ b, d.Climbs bank ref p a b (d.tick bank) := by
  cases hr : d.abandoned with
  | some report =>
    -- The turn goes to the report of an earlier run.
    have ht : d.tick bank = { device := { d with abandoned := none }, registers := bank
                              event := .callFailed report.1 report.2 } := by
      simp only [tick, hr]
    have hline : d.line? = none := by simp [line?, hr]
    refine ⟨a, ?_⟩
    rw [ht]
    exact ⟨⟨h.execution, h.program, h.stack, h.inside⟩, trivial, rfl, rfl, Or.inl ⟨hline, rfl, rfl⟩,
      fun h => h, fun _ => by simp [due, hr]⟩
  | none =>
    cases a with
    | paused line => exact absurd h.status_eq hn
    | running line => exact h.climbs_running hr bank
    | moving line handle => exact h.climbs_moving hr bank
    | ended =>
      have ht : d.tick bank = { device := d, registers := bank, event := .idle } := by
        simp only [tick, hr, h.execution, Ascent.program_execution, h.program]
        simp only [Ascent.execution, returnFromCall, h.stack]
      have hline : d.line? = none := by simp [line?, hr, h.execution, Ascent.execution]
      refine ⟨.ended, ?_⟩
      rw [ht]
      exact ⟨h, trivial, rfl, rfl, Or.inl ⟨hline, rfl, rfl⟩, fun h => h, fun hn => absurd rfl hn⟩

theorem ascends_start (hb : d.isBusy = false) {name : String} {index i : Nat}
    (hf : d.library.find? name = some index) (hp : d.library.get? index = some p)
    (hi : i < p.length) : ∃ d' trace, d.start name .backward i = .ok (d', trace) ∧
      d'.Ascends ⟨d.id, index⟩ p (.running i) ∧ d'.frames = d.frames := by
  obtain ⟨q, trace, hq, hstart⟩ := start_of_find? hb hf .backward i
  obtain rfl : q = p := Option.some.inj (hq.symm.trans hp)
  have hstack := returnStack_of_not_busy hb
  have hrun := congrArg some (Execution.start_of_lt ⟨d.id, index⟩ .backward hi)
  exact ⟨_, trace, hstart, ⟨hrun, hq, hstack, hi⟩, rfl⟩

/-- A run that has paused is taken up on its line. -/
theorem Ascends.resume {line : Nat} (h : d.Ascends ref p (.paused line)) : ∃ trace, d.resume =
    .ok ({ d with execution := some ((Ascent.running line).execution ref) }, trace) := by
  have hstart : Execution.start ref p .backward line = (Ascent.running line).execution ref :=
    Execution.start_of_lt ref .backward h.inside
  have hbegin : (d.begin ref .backward line).1 =
      { d with execution := some ((Ascent.running line).execution ref) } := by
    rw [begin_of_some h.program, h.stack, ← hstart]
    simp
  refine ⟨(d.begin ref .backward line).2, ?_⟩
  rw [← hbegin]
  simp only [Device.resume, h.execution]
  rfl

end Device

namespace Cell

variable {σ : Type}

/-- What an instruction sees on the device `s`. -/
def context [MotionService σ] (c : Cell σ) (s : Side) : Context :=
  ⟨c.registers, (c.get s).frames, MotionService.pose (c.get s).arm, s.id⟩

/-- A line that the device `s` has just run in this cell. -/
def lineRun (c : Cell σ) (s : Side) (ref : ProgramRef) (line : Nat) : LineRun :=
  ⟨s.id, ref, line, c.registers, (c.first.frames, c.second.frames)⟩

theorem lineRun_congr {c c' : Cell σ} (hr : c.registers = c'.registers)
    (hf : ∀ s, (c.get s).frames = (c'.get s).frames) (s : Side) (ref : ProgramRef) (line : Nat) :
    c.lineRun s ref line = c'.lineRun s ref line := by
  have hfirst : c.first.frames = c'.first.frames := hf .first
  have hsecond : c.second.frames = c'.second.frames := hf .second
  rw [lineRun, hr, hfirst, hsecond, lineRun]

/-- The registers and the frames are those of `start`, and the device `t` is the only one at work. -/
structure OnlyRuns (start : Cell σ) (t : Side) (c : Cell σ) : Prop where
  sound : c.Sound
  free : (c.get t.other).isBusy = false
  registers : c.registers = start.registers
  frames : ∀ s, (c.get s).frames = (start.get s).frames

theorem OnlyRuns.put {start c : Cell σ} {t : Side} (h : OnlyRuns start t c) {d : Device σ}
    (hd : d.Sound t) (hf : d.frames = (c.get t).frames) : OnlyRuns start t (c.put t d) where
  sound := h.sound.put hd
  free := by rw [get_put_other]; exact h.free
  registers := by rw [← h.registers]; cases t <;> rfl
  frames := by
    refine Side.forall_of t ?_ ?_
    · rw [get_put, hf, h.frames]
    · rw [get_put_other, h.frames]

end Cell

namespace Recorded

section Pacing

variable {σ : Type} [MotionService σ]

/-- A run that is resumed whenever it has paused, and otherwise ticked. -/
def pace (r : Recorded σ) (t : Side) : Recorded σ :=
  if (r.cell.get t).status? = some (.done .stepped) then
    { r with cell := r.cell.perform (.resume t.id) }
  else r.tick

def paces (r : Recorded σ) (t : Side) : Nat → Recorded σ
  | 0 => r
  | m + 1 => (r.paces t m).pace t

theorem lines_half (r : Recorded σ) (s : Side) : (r.half s).lines = r.lines ++
    ((r.cell.get s).line?.map fun (ref, line) => (r.half s).cell.lineRun s ref line).toList := rfl

/-- A quiet turn next to a device that does not wait for a call. -/
theorem half_of_quiet {r : Recorded σ} (hs : r.cell.Sound) {s : Side}
    (hw : (r.cell.get s.other).status? ≠ some .awaitingCall)
    (he : ((r.cell.get s).tick r.cell.registers).event.Quiet) :
    (r.half s).cell.Sound ∧
      (r.half s).cell.registers = ((r.cell.get s).tick r.cell.registers).registers ∧
      (r.half s).cell.get s = ((r.cell.get s).tick r.cell.registers).device ∧
      (r.half s).cell.get s.other = r.cell.get s.other ∧
      (r.half s).moves = r.moves ++ ((r.cell.get s).tick r.cell.registers).trace.moves := by
  obtain ⟨hcell, htrace⟩ := hs.tickSide_of_quiet hw he
  refine ⟨hs.move (.tick s), ?_, ?_, ?_, ?_⟩
  · show (r.cell.tickSide s).1.registers = _
    rw [hcell]
  · show (r.cell.tickSide s).1.get s = _
    rw [hcell, Cell.get_registers, Cell.get_put]
  · show (r.cell.tickSide s).1.get s.other = _
    rw [hcell, Cell.get_registers, Cell.get_put_other]
  · show r.moves ++ (r.cell.tickSide s).2.2.moves = _
    rw [htrace]

end Pacing

variable {start : Cell InstantArm} {t : Side} {ref : ProgramRef} {p : Program} {i : Nat}
  {r : Recorded InstantArm} {a : Ascent}

/-- In a cell that was `start`, the device `t` was started backward on line `i` of the program `p`
and has come as far as `a`. -/
structure Ascends (start : Cell InstantArm) (t : Side) (ref : ProgramRef) (p : Program) (i : Nat)
    (r : Recorded InstantArm) (a : Ascent) : Prop where
  only : Cell.OnlyRuns start t r.cell
  own : (r.cell.get t).Ascends ref p a
  todo_le : a.todo ≤ i + 1
  lines : r.lines = (upward i a.todo).map (start.lineRun t ref)
  moves : r.moves = (upward i a.todo).filterMap (p.moveAt? (start.context t))

namespace Ascends

theorem half_other (h : Ascends start t ref p i r a) :
    Ascends start t ref p i (r.half t.other) a ∧ (r.half t.other).cell.get t = r.cell.get t := by
  have hidles := Device.idles_of_not_busy h.only.free r.cell.registers
  have hline := Device.line?_of_not_running (Device.not_running_of_not_busy h.only.free)
  have hwaits : (r.cell.get t.other.other).status? ≠ some .awaitingCall := by
    rw [Side.other_other, h.own.status_eq]
    exact fun hs => a.not_calling ref (Option.some.inj hs)
  obtain ⟨hsound, hregisters, hother, hown, hmoves⟩ := half_of_quiet h.only.sound hwaits hidles.quiet
  rw [Side.other_other] at hown
  have honly : Cell.OnlyRuns start t (r.half t.other).cell := by
    refine ⟨hsound, hother ▸ hidles.free, ?_, Side.forall_of t ?_ ?_⟩
    · rw [hregisters, hidles.registers, h.only.registers]
    · rw [hown, h.only.frames]
    · rw [hother, hidles.frames, h.only.frames]
  refine ⟨⟨honly, hown ▸ h.own, h.todo_le, ?_, ?_⟩, hown⟩
  · rw [lines_half, hline, h.lines]
    exact List.append_nil _
  · rw [hmoves, hidles.moves, h.moves, List.append_nil]

theorem half_own (h : Ascends start t ref p i r a)
    (hn : (r.cell.get t).status? ≠ some (.done .stepped)) :
    ∃ b, Ascends start t ref p i (r.half t) b ∧ (r.cell.get t).Nears a ((r.half t).cell.get t) b := by
  obtain ⟨b, hclimbs⟩ := h.own.climbs hn r.cell.registers
  have hwaits := (Device.waiting?_eq_none_iff _).mp (Device.waiting?_of_not_busy h.only.free)
  obtain ⟨hsound, hregisters, hown, hother, hmoves⟩ :=
    half_of_quiet h.only.sound hwaits hclimbs.quiet
  have honly : Cell.OnlyRuns start t (r.half t).cell := by
    refine ⟨hsound, hother ▸ h.only.free, ?_, Side.forall_of t ?_ ?_⟩
    · rw [hregisters, hclimbs.registers, h.only.registers]
    · rw [hown, hclimbs.frames, h.only.frames]
    · rw [hother, h.only.frames]
  have hnears := hown ▸ hclimbs.nears
  -- Either no line was run, or the one above those that have been.
  rcases hclimbs.record with ⟨hline, hnone, htodo⟩ | ⟨line, ha, hb, hline, hsome⟩
  · refine ⟨b, ⟨honly, hown ▸ hclimbs.ascends, ?_, ?_, ?_⟩, hnears⟩
    · rw [htodo]
      exact h.todo_le
    · rw [lines_half, hline, htodo, h.lines]
      exact List.append_nil _
    · rw [hmoves, hnone, htodo, h.moves, List.append_nil]
  · have hle : line ≤ i := by
      have htodo := h.todo_le
      omega
    have hmove : p.moveAt? ((r.cell.get t).context r.cell.registers) line =
        p.moveAt? (start.context t) line :=
      p.moveAt?_congr h.only.registers (h.only.sound t).id_eq line
    refine ⟨b, ⟨honly, hown ▸ hclimbs.ascends, ?_, ?_, ?_⟩, hnears⟩
    · omega
    · rw [lines_half, hline, hb, upward_succ hle, List.map_append, ← ha, ← h.lines]
      exact congrArg (r.lines ++ [·]) (Cell.lineRun_congr honly.registers honly.frames t ref line)
    · rw [hmoves, hsome, hmove, hb, upward_succ hle, List.filterMap_append, ← ha, ← h.moves]
      cases hm : p.moveAt? (start.context t) line <;> simp [hm]

theorem tick (h : Ascends start t ref p i r a)
    (hn : (r.cell.get t).status? ≠ some (.done .stepped)) :
    ∃ b, Ascends start t ref p i r.tick b ∧ (r.cell.get t).Nears a (r.tick.cell.get t) b := by
  cases t with
  | first =>
    obtain ⟨b, hb, hnears⟩ := h.half_own hn
    obtain ⟨hafter, hget⟩ := hb.half_other
    exact ⟨b, hafter, hget.symm ▸ hnears⟩
  | second =>
    obtain ⟨hbefore, hget⟩ := h.half_other
    obtain ⟨b, hb, hnears⟩ := hbefore.half_own (hget.symm ▸ hn)
    exact ⟨b, hb, hget ▸ hnears⟩

theorem resume {line : Nat} (h : Ascends start t ref p i r (.paused line)) :
    Ascends start t ref p i { r with cell := r.cell.perform (.resume t.id) } (.running line) ∧
      ((r.cell.perform (.resume t.id)).get t).abandoned = (r.cell.get t).abandoned := by
  obtain ⟨trace, hresume⟩ := h.own.resume
  rw [Cell.perform_resume hresume]
  refine ⟨⟨h.only.put ((h.only.sound t).resume hresume) rfl, ?_, h.todo_le, h.lines, h.moves⟩, ?_⟩
  · rw [Cell.get_put]
    exact ⟨rfl, h.own.program, h.own.stack, h.own.inside⟩
  · rw [Cell.get_put]

theorem pace (h : Ascends start t ref p i r a) : ∃ b, Ascends start t ref p i (r.pace t) b ∧
    (r.cell.get t).Nears a ((r.pace t).cell.get t) b := by
  by_cases hs : (r.cell.get t).status? = some (.done .stepped)
  · rw [Recorded.pace, if_pos hs]
    obtain ⟨line, rfl⟩ : ∃ line, a = .paused line := by
      rw [h.own.status_eq] at hs
      cases a with
      | paused line => exact ⟨line, rfl⟩
      | running | moving | ended => cases hs
    obtain ⟨hrunning, hreport⟩ := h.resume
    refine ⟨.running line, hrunning, by simp, fun _ => ?_⟩
    rw [Device.due, hreport]
    exact Nat.add_lt_add_right (Nat.lt_succ_self _) _
  · rw [Recorded.pace, if_neg hs]
    exact h.tick hs

/-- The run is over once it has been resumed and ticked as often as that takes. -/
theorem paces (h : Ascends start t ref p i r a) (m : Nat) :
    ∃ b, Ascends start t ref p i (r.paces t m) b ∧
      (b = .ended ∨ ((r.paces t m).cell.get t).due b + m ≤ (r.cell.get t).due a) := by
  induction m with
  | zero => exact ⟨a, h, Or.inr (Nat.le_refl _)⟩
  | succ m ih =>
    obtain ⟨b, hb, hleft⟩ := ih
    obtain ⟨b', hb', hended, hdue⟩ := hb.pace
    refine ⟨b', hb', ?_⟩
    by_cases hb : b = .ended
    · exact Or.inl (hended hb)
    · -- A pace takes at least one off what is due.
      have hless := hdue hb
      have hspent := hleft.resolve_left hb
      show _ ∨ (((r.paces t m).pace t).cell.get t).due b' + (m + 1) ≤ _
      omega

/-- After this many paces the run is over. -/
theorem paces_ended (h : Ascends start t ref p i r a) {m : Nat} (hm : (r.cell.get t).due a ≤ m) :
    Ascends start t ref p i (r.paces t m) .ended := by
  obtain ⟨b, hb, hleft⟩ := h.paces m
  obtain rfl : b = .ended := by
    rcases hleft with rfl | hleft
    · rfl
    · rw [Device.due] at hleft
      exact Ascent.eq_ended_of_left (by omega)
  exact hb

end Ascends

/-- The registers, the frames and the other device are as they were, nobody is called or returned to,
and the run has not been broken off. -/
structure Undisturbed (start : Cell InstantArm) (t : Side) (r : Recorded InstantArm) : Prop where
  registers : r.cell.registers = start.registers
  frames : ∀ s, (r.cell.get s).frames = (start.get s).frames
  free : (r.cell.get t.other).isBusy = false
  stack : ∀ s, (r.cell.get s).returnStack = []
  not_calling : (r.cell.get t).status? ≠ some .awaitingCall
  not_broken : ∀ status, (r.cell.get t).status? = some status → status.broken = false

theorem Ascends.undisturbed (h : Ascends start t ref p i r a) : r.Undisturbed start t := by
  have hstack := Device.returnStack_of_not_busy h.only.free
  refine ⟨h.only.registers, h.only.frames, h.only.free, Side.forall_of t h.own.stack hstack, ?_, ?_⟩
  · rw [h.own.status_eq]
    exact fun hs => a.not_calling ref (Option.some.inj hs)
  · rw [h.own.status_eq]
    exact fun status hs => Option.some.inj hs ▸ a.not_broken ref

theorem ascends_start {c : Cell InstantArm} (hc : c.Sound) (hfree : ∀ s, (c.get s).isBusy = false)
    {name : String} {index : Nat} (hf : (c.get t).library.find? name = some index)
    (hp : (c.get t).library.get? index = some p) (hi : i < p.length) :
    ∃ started trace, c.start t.id name .backward i = .ok (started, trace) ∧
      Ascends c t ⟨t.id, index⟩ p i (.ofCell started) (.running i) := by
  obtain ⟨d, trace, hstart, hown, hframes⟩ := Device.ascends_start (hfree t) hf hp hi
  have honly : Cell.OnlyRuns c t c := ⟨hc, hfree t.other, rfl, fun _ => rfl⟩
  rw [(hc t).id_eq] at hown
  refine ⟨c.put t d, trace, ?_, honly.put ((hc t).start hstart) hframes, ?_, Nat.le_refl _, ?_, ?_⟩
  · simp only [Cell.start, Cell.sideOf, Side.ofId?_id, bind, Except.bind, hstart]
  · rw [ofCell, Cell.get_put]
    exact hown
  · rw [Ascent.todo, upward_eq_nil]
    rfl
  · rw [Ascent.todo, upward_eq_nil]
    rfl

end Recorded

namespace Cell

/-- A program that is started backward, with the other arm idle, and resumed whenever it pauses, runs
every line from the one it was started on up to the first, each once; it asks for the moves of the
motions among them, with the registers that there were at the start, and disturbs nothing; and it
comes to its end. -/
theorem Reachable.backward_run {c : Cell InstantArm} (hc : c.Reachable)
    (hfree : ∀ s, (c.get s).isBusy = false) {t : Side} {name : String} {index i : Nat} {p : Program}
    (hf : (c.get t).library.find? name = some index)
    (hp : (c.get t).library.get? index = some p) (hi : i < p.length) :
    let runs := (List.range (i + 1)).reverse.map (c.lineRun t ⟨t.id, index⟩)
    let moves := (List.range (i + 1)).reverse.filterMap (p.moveAt? (c.context t))
    ∃ started trace, c.start t.id name .backward i = .ok (started, trace) ∧ ∃ n, ∀ m,
      let r := (Recorded.ofCell started).paces t m
      r.Undisturbed c t ∧ r.lines <+: runs ∧ r.moves <+: moves ∧
        (n ≤ m → r.lines = runs ∧ r.moves = moves ∧
          (r.cell.get t).status? = some (.done .endOfProgram)) := by
  intro runs moves
  obtain ⟨started, trace, hstart, hascends⟩ := Recorded.ascends_start hc.sound hfree hf hp hi
  refine ⟨started, trace, hstart, (started.get t).due (.running i), fun m => ?_⟩
  obtain ⟨b, hb, -⟩ := hascends.paces m
  have hprefix := upward_prefix hb.todo_le
  refine ⟨hb.undisturbed, ?_, ?_, fun hm => ?_⟩
  · rw [hb.lines]
    exact hprefix.map _
  · rw [hb.moves]
    exact hprefix.filterMap _
  · have hended := hascends.paces_ended hm
    refine ⟨?_, ?_, ?_⟩
    · rw [hended.lines, Ascent.todo, upward_zero]
    · rw [hended.moves, Ascent.todo, upward_zero]
    · exact hended.own.status_eq

/-- A motion whose target is taught, one whose target is a register, one whose target is missing and a
commented one, with a jump, a motion within an `IF` and a line that writes between them. -/
def mixed : Program where
  name := "MIXED"
  lines := [
    ⟨1, .ofAction (.motion { kind := .joint, target := .taught 4, speed := .zero false })⟩,
    ⟨2, .ofAction (.jump 9)⟩,
    ⟨3, .ofAction (.ifThen (.sequence [.operand (.flag true)])
      (.ofAction (.motion { kind := .joint, target := .taught 4, speed := .zero false })))⟩,
    ⟨4, .mk (.motion { kind := .joint, target := .taught 4, speed := .zero false }) true⟩,
    ⟨5, .ofAction (.motion { kind := .joint, target := .register 7, speed := .zero false })⟩,
    ⟨6, .ofAction (.setIo 0 true)⟩,
    ⟨7, .ofAction (.motion { kind := .linear, target := .register 0, speed := .zero false })⟩]
  positions := ⟨[(4, .origin)], 0⟩

def mixedCell : Cell InstantArm := (build (.ofSizes 0 1 1) ⟨[]⟩ ⟨[mixed]⟩ fun _ => {}).1

theorem backward_run_mixed :
    mixedCell.Reachable ∧ (∀ s, (mixedCell.get s).isBusy = false) ∧
      ∃ started trace m, mixedCell.start 1 "MIXED" .backward 6 = .ok (started, trace) ∧
        ((Recorded.ofCell started).paces .second m).lines.map (·.line) = [6, 5, 4, 3, 2, 1, 0] ∧
        ((Recorded.ofCell started).paces .second m).moves.map (·.kind) = [.linear, .joint] ∧
        ((Recorded.ofCell started).paces .second m).cell.registers = mixedCell.registers := by
  have hc : mixedCell.Reachable := ⟨_, _, _, _, [], rfl⟩
  have hfree (s : Side) : (mixedCell.get s).isBusy = false := by cases s <;> rfl
  have hf : (mixedCell.get .second).library.find? "MIXED" = some 0 := by decide
  obtain ⟨started, trace, hstart, n, hrun⟩ :=
    Reachable.backward_run hc hfree hf (p := mixed) (i := 6) rfl (by decide)
  obtain ⟨hundisturbed, -, -, hend⟩ := hrun n
  obtain ⟨hlines, hmoves, -⟩ := hend (Nat.le_refl n)
  refine ⟨hc, hfree, started, trace, n, hstart, ?_, ?_, hundisturbed.registers⟩
  · rw [hlines]
    rfl
  · rw [hmoves]
    rfl

end Cell

end TeachPendant
