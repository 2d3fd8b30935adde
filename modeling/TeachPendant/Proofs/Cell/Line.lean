import Mathlib.Tactic.SplitIfs
import TeachPendant.Execution

namespace TeachPendant

namespace Status

/-- Whether a run of this status stands on a line from which it goes on. -/
def standing : Status → Bool
  | .running | .awaitingMotion _ | .awaitingCall | .done .stepped => true
  | .done .endOfProgram | .done .halted | .fault _ => false

/-- Whether the run was ended before it came to its end. -/
def broken : Status → Bool
  | .fault _ | .done .halted => true
  | _ => false

theorem standing_of_not_terminal {s : Status} (h : s.isTerminal = false) : s.standing = true := by
  cases s with
  | running | awaitingMotion | awaitingCall => rfl
  | done | fault => cases h

end Status

namespace Execution

structure OnLine (x : Execution) (p : Program) : Prop where
  current_lt : x.current < p.length
  next_eq : x.next = following x.mode x.current

/-- Either at the end of the program, or on a line, running or paused. -/
def Settled (x : Execution) (p : Program) : Prop :=
  x.status = .done .endOfProgram ∨ x.OnLine p ∧ (x.status = .running ∨ x.status = .done .stepped)

theorem OnLine.withStatus {x : Execution} {p : Program} (h : x.OnLine p) (s : Status) :
    ({ x with status := s } : Execution).OnLine p := ⟨h.current_lt, h.next_eq⟩

theorem start_of_lt (ref : ProgramRef) {p : Program} (mode : RunMode) {i : Nat} (h : i < p.length) :
    start ref p mode i = ⟨ref, i, following mode i, mode, .running⟩ := by
  rw [start, if_neg (by omega)]

theorem start_of_le (ref : ProgramRef) {p : Program} (mode : RunMode) {i : Nat} (h : p.length ≤ i) :
    start ref p mode i = ⟨ref, i, 0, mode, .fault (.outside "start" i p.length)⟩ := by
  rw [start, if_pos h]

theorem Settled.onLine {x : Execution} {p : Program} (h : x.Settled p)
    (hs : x.status.standing = true) : x.OnLine p := by
  rcases h with he | ⟨hl, -⟩
  · simp [he, Status.standing] at hs
  · exact hl

theorem Settled.not_broken {x : Execution} {p : Program} (h : x.Settled p) :
    x.status.broken = false := by
  rcases h with he | ⟨-, he | he⟩ <;> simp [he, Status.broken]

@[simp] theorem moveOn_program (x : Execution) (p : Program) : (x.moveOn p).program = x.program := by
  unfold moveOn
  split_ifs <;> rfl

@[simp] theorem moveOn_mode (x : Execution) (p : Program) : (x.moveOn p).mode = x.mode := by
  unfold moveOn
  split_ifs <;> rfl

theorem moveOn_ne_awaitingCall {x : Execution} (p : Program) (h : x.status ≠ .awaitingCall) :
    (x.moveOn p).status ≠ .awaitingCall := by
  unfold moveOn fail
  split_ifs <;> simp_all

/-- Going to a line of the program. -/
theorem moveOn_of_lt {x : Execution} {p : Program} {i : Nat} (hn : x.next = i) (hi : i < p.length) :
    x.moveOn p = { x with
      current := i, next := following x.mode i
      status := if x.mode = .full then x.status else .done .stepped } := by
  unfold moveOn
  rw [if_neg (by omega), if_neg (by omega)]
  simp [hn]

/-- Going past either end of the program. -/
theorem moveOn_of_end {x : Execution} {p : Program}
    (h : x.next = p.length ∨ x.next = -1 ∧ x.mode = .backward) :
    x.moveOn p = { x with status := .done .endOfProgram } := by
  unfold moveOn
  rw [if_pos h]

theorem settled_moveOn_of_lt {x : Execution} {p : Program} {i : Nat} (hs : x.status = .running)
    (hn : x.next = i) (hi : i < p.length) : (x.moveOn p).Settled p := by
  rw [moveOn_of_lt hn hi]
  refine Or.inr ⟨⟨hi, rfl⟩, ?_⟩
  by_cases hm : x.mode = .full <;> simp [hm, hs]

theorem OnLine.settled_moveOn {x : Execution} {p : Program} (h : x.OnLine p)
    (hs : x.status = .running) : (x.moveOn p).Settled p := by
  have hlt := h.current_lt
  have hn := h.next_eq
  -- Upward the next line may be the end; backward it may lie above the first line.
  cases hm : x.mode with
  | full | singleStep =>
    simp only [hm, following] at hn
    by_cases he : x.current + 1 = p.length
    · rw [moveOn_of_end (Or.inl (by omega))]
      exact Or.inl rfl
    · exact settled_moveOn_of_lt hs (i := x.current + 1) (by omega) (by omega)
  | backward =>
    simp only [hm, following] at hn
    by_cases he : x.current = 0
    · rw [moveOn_of_end (Or.inr ⟨by omega, hm⟩)]
      exact Or.inl rfl
    · exact settled_moveOn_of_lt hs (i := x.current - 1) (by omega) (by omega)

theorem findLabel_lt {p : Program} {n : UInt32} {i : Nat} (h : p.findLabel n = some i) :
    i < p.length := (List.findIdx?_eq_some_iff_getElem.mp h).choose

/-- What a step of a running program leaves: the run broke off, moved on, waits for the arm, or
waits for a call that has a link. -/
inductive Outcome {σ : Type} (x : Execution) (p : Program) (s : StepResult σ) : Prop
  | faulted (cause : Error) (execution : s.execution = x.fail cause) (call : s.call = none)
  | moved (settled : s.execution.Settled p) (program : s.execution.program = x.program)
      (call : s.call = none)
  | moving (handle : Nat) (execution : s.execution = { x with status := .awaitingMotion handle })
      (call : s.call = none)
  | calling (target : CallTarget) (link : target.link.isSome)
      (execution : s.execution = { x with status := .awaitingCall }) (call : s.call = some target)

theorem OnLine.exists_instruction {x : Execution} {p : Program} (h : x.OnLine p) :
    ∃ i, p.instruction? x.current = some i := by
  have hi : x.current < p.lines.length := h.current_lt
  exact ⟨p.lines[x.current].instruction, by simp [Program.instruction?, hi]⟩

variable {σ : Type}

/-- What a step leaves that changes nothing but the run. -/
def leaving (x : Execution) (c : Context) (arm : σ) : StepResult σ where
  execution := x
  registers := c.registers
  frames := c.frames
  arm := arm

variable [MotionService σ]

/-- Everything that a step can be, in the order in which it is looked for. -/
inductive Stepped (x : Execution) (p : Program) (c : Context) (arm : σ) : StepResult σ → Prop
  | stopped (status : x.status ≠ .running) : Stepped x p c arm (x.leaving c arm)
  | lost (running : x.status = .running) (line : p.instruction? x.current = none) :
      Stepped x p c arm
        ((x.fail (.outside "instruction" x.current p.length)).leaving c arm)
  | passed {i : Instruction} (running : x.status = .running)
      (line : p.instruction? x.current = some i) (backward : x.mode = .backward ∧ ¬ i.isMotion) :
      Stepped x p c arm ((x.moveOn p).leaving c arm)
  | followed {i : Instruction} {effect : Effect} (running : x.status = .running)
      (line : p.instruction? x.current = some i) (runs : ¬ (x.mode = .backward ∧ ¬ i.isMotion))
      (executed : i.execute c p.positions = .ok effect) :
      Stepped x p c arm (x.follow p effect arm)
  | broken {i : Instruction} {e : Error} (running : x.status = .running)
      (line : p.instruction? x.current = some i) (runs : ¬ (x.mode = .backward ∧ ¬ i.isMotion))
      (executed : i.execute c p.positions = .error e) (fatal : e.isFatal = true) :
      Stepped x p c arm ((x.fail e).leaving c arm)
  | skipped {i : Instruction} {e : Error} (running : x.status = .running)
      (line : p.instruction? x.current = some i) (runs : ¬ (x.mode = .backward ∧ ¬ i.isMotion))
      (executed : i.execute c p.positions = .error e) (harmless : e.isFatal = false) :
      Stepped x p c arm
        { (x.moveOn p).leaving c arm with trace := [.logged (skipMessage p x.current e)] }

/-- Statements about a step are shown by going through its cases. -/
theorem stepped (x : Execution) (p : Program) (c : Context) (arm : σ) :
    Stepped x p c arm (x.step p c arm) := by
  unfold step
  dsimp only
  split_ifs with hs
  · exact .stopped hs
  · have hrunning := Decidable.not_not.mp hs
    cases hi : p.instruction? x.current with
    | none => exact .lost hrunning hi
    | some i =>
      dsimp only
      split_ifs with hb
      · exact .passed hrunning hi hb
      · cases he : i.execute c p.positions with
        | ok effect => exact .followed hrunning hi hb he
        | error e =>
          dsimp only
          split_ifs with hf
          · exact .broken hrunning hi hb he hf
          · exact .skipped hrunning hi hb he (Bool.eq_false_iff.mpr hf)

theorem follow_outcome {x : Execution} {p : Program} (hl : x.OnLine p) (hs : x.status = .running)
    (effect : Effect) (arm : σ) : Outcome x p (x.follow p effect arm) := by
  unfold follow
  cases hf : effect.flow with
  | next => exact .moved (hl.settled_moveOn hs) (moveOn_program _ _) rfl
  | jump label =>
    cases hj : p.findLabel label with
    | none => exact .faulted (.unresolvedLabel label) (by simp [hj]) (by simp [hj])
    | some i =>
      have hm : (({ x with next := i } : Execution).moveOn p).Settled p :=
        settled_moveOn_of_lt hs rfl (findLabel_lt hj)
      exact .moved (by simpa [hj] using hm) (by simp [hj]) (by simp [hj])
  | move m => exact .moving (MotionService.dispatch arm m).2 rfl rfl
  | call target =>
    cases hk : target.link with
    | none =>
      exact .faulted (.unresolvedCall target.program target.device) (by simp [hk]) (by simp [hk])
    | some ref => exact .calling target (by simp [hk]) (by simp [hk]) (by simp [hk])

theorem step_outcome {x : Execution} {p : Program} (hl : x.OnLine p) (hs : x.status = .running)
    (c : Context) (arm : σ) : Outcome x p (x.step p c arm) := by
  have hmove : (x.moveOn p).Settled p := hl.settled_moveOn hs
  have hstep := stepped x p c arm
  generalize x.step p c arm = s at hstep ⊢
  cases hstep with
  | stopped hstopped => exact absurd hs hstopped
  | lost => exact .faulted _ rfl rfl
  | passed | skipped => exact .moved hmove (moveOn_program _ _) rfl
  | followed => exact follow_outcome hl hs _ arm
  | broken => exact .faulted _ rfl rfl

/-- A poll either finds the move under way still, or goes on from the line. -/
theorem advance_cases {x : Execution} {p : Program} {handle : Nat}
    (hs : x.status = .awaitingMotion handle) (arm : σ) :
    (x.advance p arm).1 = x ∨
      (x.advance p arm).1 = ({ x with status := .running } : Execution).moveOn p := by
  unfold advance
  rw [hs]
  dsimp only
  split_ifs
  · exact Or.inr rfl
  · exact Or.inl rfl

end Execution

end TeachPendant
