import TeachPendant.Proofs.Stepping.Record

namespace TeachPendant

namespace Device

variable {σ : Type}

theorem paced_of_fresh {d : Device σ} (hx : d.execution = none) (hs : d.returnStack = [])
    (b : Bool) : d.paced b = d := by
  obtain ⟨id, library, execution, stack, frames, arm, abandoned⟩ := d
  obtain rfl : execution = none := hx
  obtain rfl : stack = [] := hs
  rfl

theorem start_paced {d : Device σ} (hx : d.execution = none) (program : String) (i : Nat) :
    d.start program .singleStep i =
      (d.start program .full i).map fun (d', trace) => (d'.paced false, trace) := by
  have hfresh : ({ d with returnStack := [] } : Device σ).paced false = { d with returnStack := [] } :=
    paced_of_fresh (d := { d with returnStack := [] }) hx rfl false
  unfold start
  split_ifs
  · rfl
  · cases hf : d.library.find? program with
    | none => rfl
    | some index =>
      obtain ⟨p, hp, -⟩ := Library.get?_of_find? hf
      have hp : ({ d with returnStack := [] } : Device σ).library.get?
          (⟨d.id, index⟩ : ProgramRef).index = some p := hp
      have hbegin := begin_paced hp i false
      rw [hfresh] at hbegin
      exact congrArg Except.ok hbegin

/-- Resuming a held device takes up the line before which it was held. -/
theorem resume_held {d : Device σ} {side : Side} (h : d.Sound side) (hf : d.Full)
    (hs : d.status? = some .running) :
    ∃ trace, (d.paced true).resume = .ok (d.paced false, trace) := by
  obtain ⟨x, hx, hxs⟩ := Option.map_eq_some_iff.mp hs
  have hb := isBusy_of_running hx (by simp [hxs, Status.isTerminal])
  obtain ⟨p, hp, hl⟩ := h.runs hb x hx
  have hline := hl (by simp [hxs, Status.standing])
  have hlt := hline.current_lt
  have hstart : Execution.start x.program p .full x.current = x := by
    have hm := (hf.run x hx).1.mode
    have hn := hline.next_eq
    rw [Execution.start_of_lt _ _ hlt, ← hxs, ← hm, ← hn]
  have hbegin : (d.begin x.program .full x.current).1 = d := by
    have hempty : p.isEmpty = false := by
      apply Bool.eq_false_iff.mpr
      intro he
      have hnil : p.lines = [] := List.isEmpty_iff.mp he
      simp [Program.length, hnil] at hlt
    rw [begin_of_some hp, hempty]
    simp only [Bool.false_and, Bool.false_eq_true, if_false, hstart, ← hx]
  have hpaced := begin_paced hp x.current true
  rw [hbegin] at hpaced
  have hrun : (d.paced true).execution = some (x.paced true) := by simp [paced, hx]
  have hstatus : (x.paced true).status = .done .stepped := by simp [Execution.paced, hxs]
  refine ⟨(d.begin x.program .full x.current).2, ?_⟩
  unfold resume
  rw [hrun]
  dsimp only
  rw [if_neg (by simp [hstatus])]
  exact congrArg Except.ok hpaced

end Device

namespace Cell

variable {σ : Type} [MotionService σ] {l : Side → Library} {c : Cell σ}

/-- A tick is idle only when both devices rest, if each one is idle only when it rests. -/
theorem tick_idle_iff_resting (h : ∀ t, (c.tickSide t).2.1 = false ↔ (c.get t).resting) :
    c.tick.2.1 = false ↔ ∀ s, (c.get s).resting := by
  have hsides : c.tick.2.1 = false ↔ (c.tickSide .first).2.1 = false ∧
      ((c.tickSide .first).1.tickSide .second).2.1 = false := by simp [tick]
  rw [hsides, h]
  constructor
  · rintro ⟨hfirst, hsecond⟩ s
    rw [tickSide_of_resting hfirst, h] at hsecond
    cases s with
    | first => exact hfirst
    | second => exact hsecond
  · intro hr
    refine ⟨hr .first, ?_⟩
    rw [tickSide_of_resting (hr .first), h]
    exact hr .second

theorem Solo.tick_idle_iff (hl : Linked l) (h : c.Solo l) :
    c.tick.2.1 = false ↔ ∀ s, (c.get s).resting :=
  tick_idle_iff_resting (h.busy_iff hl)

/-- The run in steps is idle with the full run, as long as it is not held. -/
theorem Solo.tick_paced_idle_iff (hl : Linked l) (h : c.Solo l) :
    (c.paced false).tick.2.1 = false ↔ ∀ s, (c.get s).resting := by
  have hresting (t : Side) : ((c.paced false).get t).resting = (c.get t).resting := by
    rw [get_paced, Device.resting_paced_false]
  have hbusy (t : Side) :
      ((c.paced false).tickSide t).2.1 = false ↔ ((c.paced false).get t).resting := by
    by_cases hr : (c.get t).resting
    · rw [tickSide_of_resting ((hresting t).trans hr), hresting]
      simp [hr]
    · obtain ⟨b, hb⟩ := h.tickSide_paced hl hr
      rw [hb, hresting]
      exact h.busy_iff hl t
  rw [tick_idle_iff_resting hbusy]
  simp only [hresting]

/-- A held cell finds no work, and resuming it takes up the run. -/
theorem Solo.held (h : c.Solo l) {s : Side} (hs : (c.get s).status? = some .running) :
    (∀ t, ((c.paced true).get t).resting) ∧ (c.paced true).pausedSide? = some s ∧
      (c.paced true).perform (.resume s.id) = c.paced false := by
  have hother : (c.get s.other).resting := h.other_resting fun hr => Device.status_of_resting hr hs
  have hrest : ∀ t, ((c.paced true).get t).resting := by
    simp only [get_paced]
    exact Side.forall_of s (Device.resting_held (h.plain s) hs) (Device.resting_paced hother true)
  have hstatus : ((c.get s).paced true).status? = some (.done .stepped) :=
    Device.status_paced_true hs
  have hunpaused : ((c.get s.other).paced true).status? ≠ some (.done .stepped) := by
    rw [Device.paced_of_not_running (Device.status_of_resting hother) true false,
      Device.status_paced_false]
    exact h.not_stepped s.other
  refine ⟨hrest, ?_, ?_⟩
  · unfold pausedSide?
    cases s with
    | first => simp [hstatus]
    | second =>
      have hfirst : ((c.get .first).paced true).status? ≠ some (.done .stepped) := hunpaused
      simp [hstatus, hfirst]
  · obtain ⟨trace, hresume⟩ := Device.resume_held (h.sound s) (h.plain s).toFull hs
    rw [← get_paced] at hresume
    rw [perform_resume hresume, put_paced_of_resting hother, put_get]

end Cell

end TeachPendant
