import TeachPendant.CommandLine.Session
import TeachPendant.Proofs.Stepping.Lockstep

namespace TeachPendant

/-- A line that was run, and the registers of the cell and the frames of both devices after it. -/
structure LineRun where
  device : UInt8
  program : ProgramRef
  line : Nat
  registers : RegisterBank
  frames : Frames × Frames
  deriving DecidableEq

/-- The line that a device runs in its next tick, if it runs one. -/
def Device.line? {σ : Type} (d : Device σ) : Option (ProgramRef × Nat) :=
  match d.abandoned, d.execution with
  | none, some x =>
    if x.status = .running ∧ (d.library.get? x.program.index).isSome then
      some (x.program, x.current)
    else none
  | _, _ => none

theorem Device.line?_of_not_running {σ : Type} {d : Device σ} (h : d.status? ≠ some .running) :
    d.line? = none := by
  unfold line?
  split
  · next x _ hx =>
    have hx : x.status ≠ .running := by simpa [status?, hx] using h
    simp [hx]
  · rfl

/-- The device that has paused; of two, the first. -/
def Cell.pausedSide? {σ : Type} (c : Cell σ) : Option Side :=
  [Side.first, .second].find? fun s => (c.get s).status? = some (.done .stepped)

/-- The command line resumes the device that has paused. -/
theorem Cell.pausedLine_devices {c : Cell CommandLine.Arm} (h : c.Sound) :
    (c.devices.findSome? CommandLine.pausedLine).map Prod.fst = c.pausedSide?.map Side.id := by
  have hline (s : Side) : (CommandLine.pausedLine (c.get s)).map Prod.fst =
      if (c.get s).status? = some (.done .stepped) then some s.id else none := by
    unfold CommandLine.pausedLine Device.status?
    cases hx : (c.get s).execution with
    | none => simp
    | some x =>
      by_cases hs : x.status = .done .stepped
      · simp [hs, (h s).id_eq]
      · simp [hs]
  have hsides (sides : List Side) :
      ((sides.map c.get).findSome? CommandLine.pausedLine).map Prod.fst =
        (sides.find? fun s => (c.get s).status? = some (.done .stepped)).map Side.id := by
    induction sides with
    | nil => rfl
    | cons s sides ih =>
      have hs := hline s
      by_cases hp : (c.get s).status? = some (.done .stepped)
      · rw [if_pos hp] at hs
        obtain ⟨paused, hpaused, hid⟩ := Option.map_eq_some_iff.mp hs
        simp [hpaused, hid, hp]
      · rw [if_neg hp] at hs
        have hnone := Option.map_eq_none_iff.mp hs
        simpa [hnone, hp] using ih
  exact hsides [.first, .second]

structure Recorded (σ : Type) where
  cell : Cell σ
  lines : List LineRun := []
  moves : List Move := []

namespace Recorded

variable {σ : Type}

/-- A record that has just begun. -/
def ofCell (c : Cell σ) : Recorded σ := { cell := c }

/-- Nothing of `r` is missing in `r'`, nor anything else before it. -/
def Within (r r' : Recorded σ) : Prop := r.lines <+: r'.lines ∧ r.moves <+: r'.moves

theorem Within.refl (r : Recorded σ) : r.Within r := ⟨List.prefix_rfl, List.prefix_rfl⟩

theorem Within.trans {r r' r'' : Recorded σ} (h : r.Within r') (h' : r'.Within r'') :
    r.Within r'' := ⟨h.1.trans h'.1, h.2.trans h'.2⟩

variable [MotionService σ]

/-- A tick of one device. -/
def half (r : Recorded σ) (s : Side) : Recorded σ :=
  let c := (r.cell.tickSide s).1
  { cell := c
    lines := r.lines ++ ((r.cell.get s).line?.map fun (program, line) =>
      (⟨s.id, program, line, c.registers, (c.first.frames, c.second.frames)⟩ : LineRun)).toList
    moves := r.moves ++ (r.cell.tickSide s).2.2.moves }

def tick (r : Recorded σ) : Recorded σ := (r.half .first).half .second

/-- The full run after `n` ticks. -/
def run (r : Recorded σ) : Nat → Recorded σ
  | 0 => r
  | n + 1 => (r.run n).tick

/-- A tick; if it finds no work, the device that has paused is resumed. -/
def step (r : Recorded σ) : Recorded σ :=
  if r.cell.tick.2.1 then r.tick
  else
    match r.tick.cell.pausedSide? with
    | some s => { r.tick with cell := r.tick.cell.perform (.resume s.id) }
    | none => r.tick

/-- The run in steps after `m` ticks. -/
def steps (r : Recorded σ) : Nat → Recorded σ
  | 0 => r
  | m + 1 => (r.steps m).step

/-- A full run is over when a tick finds no work. -/
def Over (r : Recorded σ) : Prop := r.cell.tick.2.1 = false

/-- A run in steps is over when a tick finds no work and nothing has paused. -/
def StepsOver (r : Recorded σ) : Prop :=
  r.cell.tick.2.1 = false ∧ r.cell.tick.1.pausedSide? = none

theorem cell_tick (r : Recorded σ) : r.tick.cell = r.cell.tick.1 := rfl

theorem within_half (r : Recorded σ) (s : Side) : r.Within (r.half s) :=
  ⟨List.prefix_append _ _, List.prefix_append _ _⟩

/-- The turn of the device that has something to do. -/
def turn (r : Recorded σ) : Recorded σ := r.half (if r.cell.first.resting then .second else .first)

def after (r : Recorded σ) : Nat → Recorded σ
  | 0 => r
  | k + 1 => (r.after k).turn

theorem after_add (r : Recorded σ) (j k : Nat) : r.after (j + k) = (r.after j).after k := by
  induction k with
  | zero => rfl
  | succ k ih =>
    rw [← Nat.add_assoc, after, ih]
    rfl

theorem within_after (r : Recorded σ) (k : Nat) : r.Within (r.after k) := by
  induction k with
  | zero => exact .refl r
  | succ k ih => exact ih.trans (within_half _ _)

theorem within_after_of_le (r : Recorded σ) {j k : Nat} (h : j ≤ k) :
    (r.after j).Within (r.after k) := by
  obtain ⟨i, rfl⟩ := Nat.exists_eq_add_of_le h
  rw [after_add]
  exact within_after _ i

theorem half_of_resting {r : Recorded σ} {s : Side} (h : (r.cell.get s).resting) : r.half s = r := by
  have hline := Device.line?_of_not_running (Device.status_of_resting h)
  simp [half, Cell.tickSide_of_resting h, hline, Trace.moves]

theorem turn_of_resting {r : Recorded σ} (h : ∀ s, (r.cell.get s).resting) : r.turn = r :=
  half_of_resting (h _)

theorem after_of_resting {r : Recorded σ} (h : ∀ s, (r.cell.get s).resting) (k : Nat) :
    r.after k = r := by
  induction k with
  | zero => rfl
  | succ k ih => rw [after, ih, turn_of_resting h]

end Recorded

end TeachPendant
