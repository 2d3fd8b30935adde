import TeachPendant.Proofs.Stepping.Held

namespace TeachPendant

namespace Recorded

variable {σ : Type}

def paced (b : Bool) (r : Recorded σ) : Recorded σ := { r with cell := r.cell.paced b }

/-- Held before a line, or the same as if not held. -/
theorem paced_cases (r : Recorded σ) (b : Bool) :
    r.paced b = r.paced false ∨ b = true ∧ ∃ s, (r.cell.get s).status? = some .running := by
  by_cases hs : ∃ s, (r.cell.get s).status? = some .running
  · cases b with
    | false => exact Or.inl rfl
    | true => exact Or.inr ⟨rfl, hs⟩
  · have hc := Cell.paced_of_not_running (fun s hn => hs ⟨s, hn⟩) b false
    exact Or.inl (by rw [paced, hc]; rfl)

theorem line?_paced_false (d : Device σ) : (d.paced false).line? = d.line? := by
  cases ha : d.abandoned <;> cases hx : d.execution <;> simp [Device.line?, Device.paced, ha, hx]

/-- Both runs have done the same, and left the registers, statuses, frames and arms, with their
poses, as the other one has; no device has a call to return from. -/
structure SameEnd (r r' : Recorded σ) : Prop where
  lines : r.lines = r'.lines
  moves : r.moves = r'.moves
  registers : r.cell.registers = r'.cell.registers
  status : ∀ s, (r.cell.get s).status? = (r'.cell.get s).status?
  arm : ∀ s, (r.cell.get s).arm = (r'.cell.get s).arm
  frames : ∀ s, (r.cell.get s).frames = (r'.cell.get s).frames
  emptied : ∀ s, (r.cell.get s).returnStack = [] ∧ (r'.cell.get s).returnStack = []

theorem sameEnd_paced {l : Side → Library} {r : Recorded σ} (h : r.cell.Solo l)
    (hr : ∀ s, (r.cell.get s).resting) (b : Bool) : r.SameEnd (r.paced b) := by
  have hc : r.paced b = r.paced false := by
    rw [paced, Cell.paced_of_not_running (fun s => Device.status_of_resting (hr s)) b false]
    rfl
  rw [hc]
  refine ⟨rfl, rfl, rfl, ?_, ?_, ?_, ?_⟩ <;> intro s <;> simp only [paced, Cell.get_paced]
  · rw [Device.status_paced_false]
  · rfl
  · rfl
  · have hstack := (h.over hr s).2
    simp [Device.paced, hstack]

variable [MotionService σ] {l : Side → Library} {r : Recorded σ}

theorem solo_after (hl : Linked l) (h : r.cell.Solo l) (k : Nat) : (r.after k).cell.Solo l := by
  induction k with
  | zero => exact h
  | succ k ih => exact ih.tickSide hl _

/-- The turn is that of the only device that may have something to do. -/
theorem turn_of_active (h : r.cell.Solo l) {t : Side} (hr : ¬ (r.cell.get t).resting) :
    r.turn = r.half t := by
  unfold turn
  cases t with
  | first =>
    have hfirst : ¬ r.cell.first.resting = true := hr
    rw [if_neg hfirst]
  | second =>
    have hfirst : r.cell.first.resting = true := h.other_resting hr
    rw [if_pos hfirst]

theorem half_eq_after (h : r.cell.Solo l) (t : Side) :
    ∃ k, r.half t = r.after k ∧ ((r.cell.get t).resting → k = 0) ∧
      (¬ (r.cell.get t).resting → k = 1) := by
  by_cases hr : (r.cell.get t).resting
  · exact ⟨0, half_of_resting hr, fun _ => rfl, fun hn => absurd hr hn⟩
  · exact ⟨1, (turn_of_active h hr).symm, fun hn => absurd hn hr, fun _ => rfl⟩

/-- A tick of the full run makes a turn, unless the run is over. -/
theorem tick_eq_after (hl : Linked l) (h : r.cell.Solo l) :
    ∃ k, r.tick = r.after k ∧ ((∃ t, ¬ (r.cell.get t).resting) → 1 ≤ k) := by
  obtain ⟨j, hj, hrest, hturn⟩ := half_eq_after h .first
  obtain ⟨k, hk, -, hturn'⟩ := half_eq_after (solo_after hl h j) .second
  refine ⟨j + k, by rw [tick, hj, hk, after_add], ?_⟩
  rintro ⟨t, ht⟩
  by_cases hfirst : (r.cell.get .first).resting
  · obtain rfl := hrest hfirst
    cases t with
    | first => exact absurd hfirst ht
    | second => exact (hturn' ht).symm ▸ Nat.le_add_left 1 0
  · rw [hturn hfirst]
    omega

theorem half_paced_of_active (hl : Linked l) (h : r.cell.Solo l) {t : Side}
    (hr : ¬ (r.cell.get t).resting) : ∃ b, (r.paced false).half t = (r.half t).paced b := by
  obtain ⟨b, hb⟩ := h.tickSide_paced hl hr
  refine ⟨b, ?_⟩
  simp only [half, paced, hb, Cell.get_paced, line?_paced_false]
  rfl

theorem half_paced (hl : Linked l) (h : r.cell.Solo l) (b : Bool) (t : Side) :
    ∃ k b', (r.paced b).half t = (r.after k).paced b' ∧
      ((r.cell.get t).resting → k = 0 ∧ b' = b) ∧
      (b = false → ¬ (r.cell.get t).resting → k = 1) := by
  have hrest {b : Bool} (hp : ((r.cell.get t).paced b).resting) :
      (r.paced b).half t = r.paced b := half_of_resting (by simpa [paced] using hp)
  by_cases hr : (r.cell.get t).resting
  · exact ⟨0, b, hrest (Device.resting_paced hr b), fun _ => ⟨rfl, rfl⟩, fun _ hn => absurd hr hn⟩
  · rcases r.paced_cases b with hb | ⟨rfl, s, hs⟩
    · obtain ⟨b', hb'⟩ := half_paced_of_active hl h hr
      rw [hb, hb', ← turn_of_active h hr]
      exact ⟨1, b', rfl, fun hn => absurd hn hr, fun _ _ => rfl⟩
    · obtain rfl : s = t := by
        rcases t.eq_or_eq_other s with rfl | rfl
        · rfl
        · exact absurd hs (Device.status_of_resting (h.other_resting hr))
      exact ⟨0, true, hrest (Device.resting_held (h.plain s) hs), fun hn => absurd hn hr, nofun⟩

/-- A tick of the run in steps makes turns of the full run, and at least one if it is not held. -/
theorem tick_paced (hl : Linked l) (h : r.cell.Solo l) :
    ∃ k b, (r.paced false).tick = (r.after k).paced b ∧
      ((∃ t, ¬ (r.cell.get t).resting) → 1 ≤ k) := by
  obtain ⟨j, b, hj, hrest, hturn⟩ := half_paced hl h false .first
  obtain ⟨k, b', hk, -, hturn'⟩ := half_paced hl (solo_after hl h j) b .second
  refine ⟨j + k, b', by rw [tick, hj, hk, after_add], ?_⟩
  rintro ⟨t, ht⟩
  by_cases hfirst : (r.cell.get .first).resting
  · obtain ⟨rfl, rfl⟩ := hrest hfirst
    cases t with
    | first => exact absurd hfirst ht
    | second => exact (hturn' rfl ht).symm ▸ Nat.le_add_left 1 0
  · rw [hturn rfl hfirst]
    omega

/-- Nothing is left to do. -/
def Resting (r : Recorded σ) : Prop := ∀ s, (r.cell.get s).resting

theorem tick_of_resting (h : r.Resting) : r.tick = r := by
  rw [tick, half_of_resting (h .first), half_of_resting (h .second)]

theorem idle_of_resting (h : r.Resting) : r.cell.tick.2.1 = false :=
  (Cell.tick_idle_iff_resting fun t => by simp [Cell.tickSide_of_resting (h t), h t]).mpr h

theorem resting_paced_iff (h : r.cell.Solo l) (b : Bool) :
    r.Resting ↔ (r.paced b).Resting ∧ (r.paced b).cell.pausedSide? = none := by
  have hnone : (r.paced false).cell.pausedSide? = none := by
    simp [Cell.pausedSide?, paced, h.not_stepped .first, h.not_stepped .second]
  have hresting : (r.paced false).Resting ↔ r.Resting :=
    forall_congr' fun s => by rw [paced, Cell.get_paced, Device.resting_paced_false]
  rcases r.paced_cases b with hb | ⟨rfl, s, hs⟩
  · rw [hb, hresting, hnone]
    simp
  · obtain ⟨-, hpaused, -⟩ := h.held hs
    have hsome : (r.paced true).cell.pausedSide? = some s := hpaused
    rw [hsome]
    exact ⟨fun hr => absurd hs (Device.status_of_resting (hr s)), fun hp => absurd hp.2 nofun⟩

theorem stepsOver_paced_iff (hl : Linked l) (h : r.cell.Solo l) (b : Bool) :
    (r.paced b).StepsOver ↔ r.Resting := by
  rw [resting_paced_iff h b]
  constructor
  · rintro ⟨hidle, hpaused⟩
    have hr : (r.paced b).Resting := by
      rcases r.paced_cases b with hb | ⟨rfl, s, hs⟩
      · rw [hb] at hidle ⊢
        have hr : r.Resting := (h.tick_paced_idle_iff hl).mp hidle
        exact ((resting_paced_iff h false).mp hr).1
      · exact (h.held hs).1
    rw [← cell_tick, tick_of_resting hr] at hpaused
    exact ⟨hr, hpaused⟩
  · rintro ⟨hr, hpaused⟩
    refine ⟨idle_of_resting hr, ?_⟩
    rw [← cell_tick, tick_of_resting hr]
    exact hpaused

/-- A held run is resumed. -/
theorem step_held (h : r.cell.Solo l) {s : Side} (hs : (r.cell.get s).status? = some .running) :
    (r.paced true).step = r.paced false := by
  obtain ⟨hrest, hpaused, hresume⟩ := h.held hs
  have hr : (r.paced true).Resting := hrest
  have hsome : (r.paced true).cell.pausedSide? = some s := hpaused
  unfold step
  rw [idle_of_resting hr, if_neg Bool.false_ne_true, tick_of_resting hr, hsome]
  simp only [paced, hresume]

theorem step_paced (hl : Linked l) (h : r.cell.Solo l) :
    ∃ k b, (r.paced false).step = (r.after k).paced b ∧ (¬ r.Resting → 1 ≤ k) := by
  obtain ⟨k, b, htick, hturn⟩ := tick_paced hl h
  unfold step
  cases hidle : (r.paced false).cell.tick.2.1 with
  | true => exact ⟨k, b, htick, fun hn => hturn (Classical.not_forall.mp hn)⟩
  | false =>
    have hr : r.Resting := (h.tick_paced_idle_iff hl).mp hidle
    obtain ⟨hp, hpaused⟩ := (resting_paced_iff h false).mp hr
    refine ⟨0, false, ?_, fun hn => absurd hr hn⟩
    rw [if_neg Bool.false_ne_true, tick_of_resting hp, hpaused]
    rfl

theorem steps_add (r : Recorded σ) (j k : Nat) : r.steps (j + k) = (r.steps j).steps k := by
  induction k with
  | zero => rfl
  | succ k ih =>
    rw [← Nat.add_assoc, steps, ih]
    rfl

/-- The run in steps is at a turn of the full run. -/
theorem steps_eq_after (hl : Linked l) (h : r.cell.Solo l) (m : Nat) :
    ∃ k b, (r.paced false).steps m = (r.after k).paced b := by
  induction m with
  | zero => exact ⟨0, false, rfl⟩
  | succ m ih =>
    obtain ⟨k, b, hk⟩ := ih
    have hsolo := solo_after hl h k
    rw [steps, hk]
    rcases (r.after k).paced_cases b with hb | ⟨rfl, s, hs⟩
    · obtain ⟨j, b', hj, -⟩ := step_paced hl hsolo
      exact ⟨k + j, b', by rw [hb, hj, after_add]⟩
    · exact ⟨k, false, step_held hsolo hs⟩

/-- One step or two make a turn, unless the run is over. -/
theorem steps_turn (hl : Linked l) (h : r.cell.Solo l) (b : Bool) :
    ∃ m k b', (r.paced b).steps m = (r.after k).paced b' ∧ (¬ r.Resting → 1 ≤ k) := by
  obtain ⟨k, b', hk, hturn⟩ := step_paced hl h
  rcases r.paced_cases b with hb | ⟨rfl, s, hs⟩
  · exact ⟨1, k, b', by rw [hb]; exact hk, hturn⟩
  · refine ⟨2, k, b', ?_, hturn⟩
    rw [steps, steps, steps, step_held h hs, hk]

/-- As many turns as wanted, or all that there are. -/
def Reaches (r : Recorded σ) (a k : Nat) : Prop := a ≤ k ∨ (r.after k).Resting

theorem Reaches.add {a j k : Nat} (h : r.Reaches a j)
    (hk : ¬ (r.after j).Resting → 1 ≤ k) : r.Reaches (a + 1) (j + k) := by
  by_cases hr : (r.after j).Resting
  · refine Or.inr ?_
    rw [after_add, after_of_resting hr]
    exact hr
  · have hle := h.resolve_right hr
    have hpos := hk hr
    exact Or.inl (by omega)

theorem Reaches.within {a k : Nat} (h : r.Reaches a k) : (r.after a).Within (r.after k) := by
  rcases Nat.le_total a k with hle | hle
  · exact within_after_of_le r hle
  · rcases h with ha | hr
    · obtain rfl := Nat.le_antisymm ha hle
      exact .refl _
    · obtain ⟨i, rfl⟩ := Nat.exists_eq_add_of_le hle
      rw [after_add, after_of_resting hr]
      exact .refl _

theorem after_eq_of_resting {a k : Nat} (ha : (r.after a).Resting) (hk : (r.after k).Resting) :
    r.after a = r.after k := by
  rcases Nat.le_total a k with hle | hle
  · obtain ⟨i, rfl⟩ := Nat.exists_eq_add_of_le hle
    rw [after_add, after_of_resting ha]
  · obtain ⟨i, rfl⟩ := Nat.exists_eq_add_of_le hle
    rw [after_add, after_of_resting hk]

theorem Reaches.resting {a k : Nat} (h : r.Reaches a k) (ha : (r.after a).Resting) :
    (r.after k).Resting := by
  rcases h with hle | hr
  · obtain ⟨i, rfl⟩ := Nat.exists_eq_add_of_le hle
    rw [after_add, after_of_resting ha]
    exact ha
  · exact hr

theorem run_reaches (hl : Linked l) (h : r.cell.Solo l) (n : Nat) :
    ∃ a, r.run n = r.after a ∧ r.Reaches n a := by
  induction n with
  | zero => exact ⟨0, rfl, Or.inl (Nat.le_refl 0)⟩
  | succ n ih =>
    obtain ⟨a, ha, hreach⟩ := ih
    obtain ⟨k, hk, hturn⟩ := tick_eq_after hl (solo_after hl h a)
    refine ⟨a + k, by rw [run, ha, hk, after_add], hreach.add fun hr => ?_⟩
    exact hturn (Classical.not_forall.mp hr)

theorem steps_reach (hl : Linked l) (h : r.cell.Solo l) (a : Nat) :
    ∃ m k b, (r.paced false).steps m = (r.after k).paced b ∧ r.Reaches a k := by
  induction a with
  | zero => exact ⟨0, 0, false, rfl, Or.inl (Nat.le_refl 0)⟩
  | succ a ih =>
    obtain ⟨m, k, b, hk, hreach⟩ := ih
    obtain ⟨m', j, b', hj, hturn⟩ := steps_turn hl (solo_after hl h k) b
    exact ⟨m + m', k + j, b', by rw [steps_add, hk, hj, after_add], hreach.add hturn⟩

/-- The runs of two cells, one in full mode and one in steps: the same lines are run one after
another, with the same registers and frames after each, and the same moves are asked for; one run
ends if and only if the other does, and in the same way. -/
structure SameRun (full stepped : Cell σ) : Prop where
  forth : ∀ n, ∃ m, ((ofCell full).run n).Within ((ofCell stepped).steps m)
  back : ∀ m, ∃ n, ((ofCell stepped).steps m).Within ((ofCell full).run n)
  ends : (∃ n, ((ofCell full).run n).Over) ↔ ∃ m, ((ofCell stepped).steps m).StepsOver
  alike : ∀ n m, ((ofCell full).run n).Over → ((ofCell stepped).steps m).StepsOver →
    ((ofCell full).run n).tick.SameEnd ((ofCell stepped).steps m).tick

theorem sameRun_paced {c : Cell σ} (hl : Linked l) (h : c.Solo l) :
    SameRun c (c.paced false) := by
  obtain ⟨r, hr⟩ : ∃ r, r = ofCell c := ⟨_, rfl⟩
  have hsolo : r.cell.Solo l := hr ▸ h
  have hpaced : ofCell (c.paced false) = r.paced false := by
    rw [hr]
    rfl
  have hover (a : Nat) : (r.after a).Over ↔ (r.after a).Resting :=
    (solo_after hl hsolo a).tick_idle_iff hl
  have hstepsOver (k : Nat) (b : Bool) : ((r.after k).paced b).StepsOver ↔ (r.after k).Resting :=
    stepsOver_paced_iff hl (solo_after hl hsolo k) b
  constructor <;> rw [hpaced, ← hr]
  · intro n
    obtain ⟨a, ha, -⟩ := run_reaches hl hsolo n
    obtain ⟨m, k, b, hk, hreach⟩ := steps_reach hl hsolo a
    rw [ha]
    exact ⟨m, hk ▸ hreach.within⟩
  · intro m
    obtain ⟨k, b, hk⟩ := steps_eq_after hl hsolo m
    obtain ⟨a, ha, hreach⟩ := run_reaches hl hsolo k
    rw [hk]
    exact ⟨k, ha ▸ hreach.within⟩
  · constructor
    · rintro ⟨n, hn⟩
      obtain ⟨a, ha, -⟩ := run_reaches hl hsolo n
      obtain ⟨m, k, b, hk, hreach⟩ := steps_reach hl hsolo a
      rw [ha, hover] at hn
      refine ⟨m, ?_⟩
      rw [hk, hstepsOver]
      exact hreach.resting hn
    · rintro ⟨m, hm⟩
      obtain ⟨k, b, hk⟩ := steps_eq_after hl hsolo m
      obtain ⟨a, ha, hreach⟩ := run_reaches hl hsolo k
      rw [hk, hstepsOver] at hm
      refine ⟨k, ?_⟩
      rw [ha, hover]
      exact hreach.resting hm
  · intro n m hn hm
    obtain ⟨a, ha, -⟩ := run_reaches hl hsolo n
    obtain ⟨k, b, hk⟩ := steps_eq_after hl hsolo m
    rw [ha, hover] at hn
    rw [hk, hstepsOver] at hm
    have hrest := ((resting_paced_iff (solo_after hl hsolo k) b).mp hm).1
    rw [ha, hk, after_eq_of_resting hn hm, tick_of_resting hm, tick_of_resting hrest]
    exact sameEnd_paced (solo_after hl hsolo k) hm b

end Recorded

namespace Cell

variable {σ : Type}

theorem linked_build (registers : RegisterBank) (first second : Library) (arm : Side → σ) :
    Linked fun s => ((build registers first second arm).1.get s).library := by
  have hl := linked_mapCalls fun s : Side => if s = .first then first else second
  have hlibrary : (fun s => ((build registers first second arm).1.get s).library) =
      fun s : Side => (if s = .first then first else second).mapCalls
        (Linking.linkTarget [first, second]) := by
    funext s
    cases s <;> rfl
  rw [hlibrary]
  exact hl

theorem start_eq_of_sideOf {c : Cell σ} {device : UInt8} {t : Side} (ht : sideOf device = .ok t)
    (program : String) (mode : RunMode) (line : Nat) :
    c.start device program mode line =
      ((c.get t).start program mode line).map fun (d, trace) => (c.put t d, trace) := by
  unfold start
  rw [ht]
  rfl

/-- A device of a cell just built is started in both modes. -/
theorem start_singleStep {c : Cell σ} (hx : ∀ s, (c.get s).execution = none)
    (hs : ∀ s, (c.get s).returnStack = []) (device : UInt8) (program : String) (line : Nat) :
    c.start device program .singleStep line =
      (c.start device program .full line).map fun (c', trace) => (c'.paced false, trace) := by
  have hpaced : c.paced false = c := by
    have hfirst : c.first.paced false = c.first :=
      Device.paced_of_fresh (hx .first) (hs .first) false
    have hsecond : c.second.paced false = c.second :=
      Device.paced_of_fresh (hx .second) (hs .second) false
    simp only [paced, hfirst, hsecond]
  cases ht : sideOf device with
  | error e =>
    unfold start
    rw [ht]
    rfl
  | ok t =>
    rw [start_eq_of_sideOf ht, start_eq_of_sideOf ht, Device.start_paced (hx t)]
    cases (c.get t).start program .full line with
    | error e => rfl
    | ok taken =>
      simp only [Except.map]
      rw [← put_paced, hpaced]

theorem solo_of_start [MotionService σ] (registers : RegisterBank) (first second : Library)
    (arm : Side → σ) {device : UInt8} {program : String} {line : Nat} {c' : Cell σ} {trace : Trace}
    (h : (build registers first second arm).1.start device program .full line = .ok (c', trace)) :
    c'.Solo fun s => ((build registers first second arm).1.get s).library := by
  cases ht : sideOf device with
  | error e =>
    unfold start at h
    rw [ht] at h
    cases h
  | ok t =>
    rw [start_eq_of_sideOf ht] at h
    cases hd : ((build registers first second arm).1.get t).start program .full line with
    | error e =>
      rw [hd] at h
      cases h
    | ok taken =>
      rw [hd] at h
      obtain ⟨rfl, rfl⟩ := Prod.mk.inj (Except.ok.inj h)
      exact (fresh_build registers first second arm).solo hd

/-- Single stepping is the same run as a full run. -/
theorem single_stepping [MotionService σ] (registers : RegisterBank) (first second : Library)
    (arm : Side → σ) (device : UInt8) (program : String) (line : Nat) :
    let c := (build registers first second arm).1
    (∃ e, c.start device program .full line = .error e ∧
      c.start device program .singleStep line = .error e) ∨
    ∃ full stepped trace, c.start device program .full line = .ok (full, trace) ∧
      c.start device program .singleStep line = .ok (stepped, trace) ∧
      Recorded.SameRun full stepped := by
  intro c
  have hfresh : c.Fresh := fresh_build registers first second arm
  have hsteps := start_singleStep hfresh.unstarted hfresh.uncalled device program line
  cases hfull : c.start device program .full line with
  | error e =>
    rw [hfull] at hsteps
    exact Or.inl ⟨e, rfl, hsteps⟩
  | ok taken =>
    obtain ⟨full, trace⟩ := taken
    rw [hfull] at hsteps
    have hsolo := solo_of_start registers first second arm hfull
    have hl := linked_build registers first second arm
    exact Or.inr ⟨full, full.paced false, trace, rfl, hsteps, Recorded.sameRun_paced hl hsolo⟩

end Cell

end TeachPendant
