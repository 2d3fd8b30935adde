import Mathlib.Data.List.Destutter
import TeachPendant.Arm.Instant
import TeachPendant.Proofs.Cell.Bystander
import TeachPendant.Proofs.Stepping.Abreast
import TeachPendant.Proofs.Stepping.SameRun

namespace TeachPendant

section Destutter

variable {α : Type} [DecidableEq α]

/-- A new last value is kept if it differs from the one before. -/
theorem destutter'_concat (l : List α) (a x : α) :
    (l ++ [x]).destutter' (· ≠ ·) a =
      l.destutter' (· ≠ ·) a ++ if l.getLastD a ≠ x then [x] else [] := by
  induction l generalizing a with
  | nil =>
    rw [List.nil_append, List.destutter'_singleton, List.destutter'_nil, List.getLastD_nil]
    split_ifs <;> rfl
  | cons y l ih =>
    rw [List.cons_append, List.getLastD_cons]
    by_cases hy : a ≠ y
    · rw [List.destutter'_cons_pos _ hy, List.destutter'_cons_pos _ hy, ih, List.cons_append]
    · rw [List.destutter'_cons_neg _ hy, List.destutter'_cons_neg _ hy, ih]
      rw [Decidable.not_not.mp hy]

theorem destutter'_prefix (l m : List α) (a : α) :
    l.destutter' (· ≠ ·) a <+: (l ++ m).destutter' (· ≠ ·) a := by
  induction m using List.reverseRecOn with
  | nil => simp
  | append_singleton m x ih =>
    rw [← List.append_assoc, destutter'_concat]
    exact ih.trans (List.prefix_append _ _)

end Destutter

/-- The registers of a cell and the frames of its devices. -/
abbrev Memory := RegisterBank × Frames × Frames

def LineRun.memory (l : LineRun) : Memory := (l.registers, l.frames)

namespace Device

variable {σ : Type} {d : Device σ}

theorem frames_acceptCall {d' : Device σ} {target : CallTarget} {f : ReturnFrame} {trace : Trace}
    (h : d.acceptCall target f = .ok (d', trace)) : d'.frames = d.frames := by
  obtain ⟨-, ref, p, -, hp, -, rfl⟩ := of_acceptCall h
  have hbegin := begin_of_some (d := { d with returnStack := f :: d.returnStack }) hp f.mode 0
  rw [hbegin]

theorem frames_resumeAfterCall (d : Device σ) : d.resumeAfterCall.frames = d.frames := by
  unfold resumeAfterCall
  split
  · rfl
  · split <;> rfl

/-- A turn in which no line is run changes neither registers nor frames. -/
theorem still_of_no_line [MotionService σ] (h : d.line? = none) (registers : RegisterBank) :
    (d.tick registers).registers = registers ∧ (d.tick registers).device.frames = d.frames := by
  have ht := d.ticked registers
  generalize d.tick registers = t at ht ⊢
  have hline {x : Execution} {p : Program} (quiet : d.abandoned = none) (hx : d.execution = some x)
      (hp : d.library.get? x.program.index = some p) (hs : x.status = .running) : False := by
    simp [line?, quiet, hx, hp, hs] at h
  cases ht with
  | reported | unstarted | polled | waiting | returnedOver | returnedHere | stopped => exact ⟨rfl, rfl⟩
  | lost | returnLost => exact ⟨rfl, frames_fail _ _⟩
  | faulted quiet hx hp hs | advanced quiet hx hp hs | calledOver quiet hx hp hs
  | calledHere quiet hx hp hs | refused quiet hx hp hs => exact (hline quiet hx hp hs).elim

end Device

namespace Cell

variable {σ : Type} {c c' : Cell σ}

def memory (c : Cell σ) : Memory := (c.registers, c.first.frames, c.second.frames)

theorem memory_congr (hr : c'.registers = c.registers)
    (hf : ∀ s, (c'.get s).frames = (c.get s).frames) : c'.memory = c.memory := by
  have hfirst : c'.first.frames = c.first.frames := hf .first
  have hsecond : c'.second.frames = c.second.frames := hf .second
  rw [memory, hr, hfirst, hsecond, memory]

theorem Follows.memory_eq {b : BlankLines} (h : c.Follows b c') : c'.memory = c.memory :=
  memory_congr h.registers fun s => (h.devices s).beside.frames

theorem registers_route (c : Cell σ) (s : Side) (event : DeviceEvent) :
    (c.route s event).1.registers = c.registers := by
  cases event with
  | idle | busy => rfl
  | crossCall target frame =>
    simp only [route, routeCall]
    split
    · exact registers_put _ _ _
    · split
      · exact registers_put _ _ _
      · exact registers_put _ _ _
  | callFailed caller reason =>
    simp only [route, routeFailure]
    split
    · rfl
    · split_ifs
      · exact registers_put _ _ _
      · rfl
  | returned frame =>
    simp only [route, routeReturn]
    split
    · rfl
    · exact registers_put _ _ _

variable [MotionService σ]

theorem Sound.memory_tickSide (hc : c.Sound) {s : Side} (h : (c.get s).line? = none) :
    (c.tickSide s).1.memory = c.memory := by
  obtain ⟨hregisters, hframes⟩ := Device.still_of_no_line h c.registers
  refine memory_congr ((registers_route _ s _).trans hregisters) ?_
  refine hc.forall_tickSide s (P := fun t d => d.frames = (c.get t).frames) hframes ?_ rfl ?_ ?_ ?_
  · exact fun cause _ => (Device.frames_fail _ cause).trans hframes
  · exact fun _ _ _ _ taken => Device.frames_acceptCall taken
  · exact fun cause _ => Device.frames_fail _ cause
  · exact Device.frames_resumeAfterCall _

end Cell

namespace Recorded

variable {σ : Type} {start : Memory} {r r' : Recorded σ}

/-- The registers and frames that the lines have left one after another, beginning with `start`,
where they differ from those before. -/
def memories (start : Memory) (r : Recorded σ) : List Memory :=
  (r.lines.map (·.memory)).destutter' (· ≠ ·) start

/-- The registers and frames are those that the last line has left. -/
def Remembers (start : Memory) (r : Recorded σ) : Prop :=
  (r.lines.map (·.memory)).getLastD start = r.cell.memory

theorem Within.memories (h : r.Within r') (start : Memory) :
    r.memories start <+: r'.memories start := by
  obtain ⟨rest, hrest⟩ := h.1
  rw [Recorded.memories, Recorded.memories, ← hrest, List.map_append]
  exact destutter'_prefix _ _ _

variable [MotionService σ]

/-- A turn adds to the record what it changes. -/
theorem Remembers.half (h : r.Remembers start) (hc : r.cell.Sound) (s : Side) :
    (r.half s).Remembers start ∧ (r.half s).memories start = r.memories start ++
      if r.cell.memory ≠ (r.half s).cell.memory then [(r.half s).cell.memory] else [] := by
  cases hl : (r.cell.get s).line? with
  | none =>
    have hstill : (r.half s).cell.memory = r.cell.memory := hc.memory_tickSide hl
    have hlines : (r.half s).lines = r.lines := by simp [Recorded.half, hl]
    rw [Remembers, memories, hlines, hstill, if_neg (by simp), List.append_nil]
    exact ⟨h, rfl⟩
  | some line =>
    have hlines : (r.half s).lines.map (·.memory) =
        r.lines.map (·.memory) ++ [(r.half s).cell.memory] := by
      simp [Recorded.half, hl, LineRun.memory, Cell.memory]
    rw [Remembers, memories, hlines, destutter'_concat, h]
    exact ⟨List.getLastD_concat, rfl⟩

/-- Both records tell of the same moves and changes. -/
structure SameSoFar (start : Memory) (r r' : Recorded σ) : Prop where
  moves : r'.moves = r.moves
  memories : r'.memories start = r.memories start
  remembers : r.Remembers start
  remembers' : r'.Remembers start

variable {b : BlankLines} {l l' : Side → Library}

theorem SameSoFar.half (h : r.SameSoFar start r') (hc : r.cell.Abreast b r'.cell)
    (hs : r.cell.Solo l) (hs' : r'.cell.Solo l') (t : Side) :
    (r.half t).SameSoFar start (r'.half t) ∧ (r.half t).cell.Follows b (r'.half t).cell := by
  obtain ⟨hfollows, hmoves⟩ := hc.tickSide hs.sound hs'.sound (fun s => (hs.plain s).toFull) t
  obtain ⟨hremembers, hmemories⟩ := h.remembers.half hs.sound t
  obtain ⟨hremembers', hmemories'⟩ := h.remembers'.half hs'.sound t
  have hbefore := hc.follows.memory_eq
  have hafter : (r'.half t).cell.memory = (r.half t).cell.memory := hfollows.memory_eq
  refine ⟨⟨?_, ?_, hremembers, hremembers'⟩, hfollows⟩
  · show r'.moves ++ _ = r.moves ++ _
    rw [h.moves, hmoves]
  · rw [hmemories, hmemories', h.memories, hbefore, hafter]

/-- The turn on a blank line leaves no trace. -/
theorem SameSoFar.stutter (h : r.SameSoFar start r') (hc : r.cell.Follows b r'.cell)
    (hs' : r'.cell.Solo l') {t : Side} (hl : (r.cell.get t).Lags b (r'.cell.get t))
    (ho : (r.cell.get t.other).Mirrors b (r'.cell.get t.other)) :
    r.SameSoFar start (r'.half t) ∧ r.cell.Abreast b (r'.half t).cell := by
  obtain ⟨habreast, hmoves⟩ := Cell.Abreast.of_lags hc.registers hl ho (hs'.plain t).toFull
    ((hs'.plain t).quiet_of_running hl.status?_eq)
  obtain ⟨hremembers', hmemories'⟩ := h.remembers'.half hs'.sound t
  have hstill : (r'.half t).cell.memory = r'.cell.memory :=
    habreast.follows.memory_eq.trans hc.memory_eq.symm
  refine ⟨⟨?_, ?_, h.remembers, hremembers'⟩, habreast⟩
  · show r'.moves ++ _ = r.moves
    rw [hmoves, List.append_nil, h.moves]
  · rw [hmemories', hstill, if_neg (by simp), List.append_nil, h.memories]

/-- After no turn or one the second run is on the line of the first one. -/
theorem SameSoFar.catchUp (h : r.SameSoFar start r') (hc : r.cell.Follows b r'.cell)
    (hs' : r'.cell.Solo l') :
    ∃ k, r.SameSoFar start (r'.after k) ∧ r.cell.Abreast b (r'.after k).cell := by
  rcases hc.abreast_or_lags hs' with habreast | ⟨t, hlags, hother, hactive⟩
  · exact ⟨0, h, habreast⟩
  · refine ⟨1, ?_⟩
    show r.SameSoFar start r'.turn ∧ r.cell.Abreast b r'.turn.cell
    rw [turn_of_active hs' hactive]
    exact h.stutter hc hs' hlags hother

omit [MotionService σ] in
theorem resting_iff_of_abreast (hc : r.cell.Abreast b r'.cell) : r'.Resting ↔ r.Resting :=
  forall_congr' fun s => by rw [(hc.devices s).resting_eq]

omit [MotionService σ] in
/-- A run that has nothing left to do is not on a blank line. -/
theorem resting_of_follows (hs' : r'.cell.Solo l') (hc : r.cell.Follows b r'.cell)
    (hr : r'.Resting) : r.Resting := by
  rcases hc.abreast_or_lags hs' with habreast | ⟨t, -, -, hactive⟩
  · exact (resting_iff_of_abreast habreast).mp hr
  · exact absurd (hr t) hactive

/-- A turn that both runs make. -/
theorem SameSoFar.turn (h : r.SameSoFar start r') (hc : r.cell.Abreast b r'.cell)
    (hs : r.cell.Solo l) (hs' : r'.cell.Solo l') :
    r.turn.SameSoFar start r'.turn ∧ r.turn.cell.Follows b r'.turn.cell := by
  have hside : r'.cell.first.resting = r.cell.first.resting := (hc.devices .first).resting_eq
  unfold Recorded.turn
  rw [hside]
  exact h.half hc hs hs' _

/-- The second run comes to every place to which the first one comes. -/
theorem SameSoFar.exists_abreast (h : r.SameSoFar start r') (hc : r.cell.Abreast b r'.cell)
    (hl : Linked l) (hl' : Linked l') (hs : r.cell.Solo l) (hs' : r'.cell.Solo l') (a : Nat) :
    ∃ k, (r.after a).SameSoFar start (r'.after k) ∧
      (r.after a).cell.Abreast b (r'.after k).cell := by
  induction a with
  | zero => exact ⟨0, h, hc⟩
  | succ a ih =>
    obtain ⟨k, hsame, habreast⟩ := ih
    obtain ⟨hturn, hfollows⟩ := hsame.turn habreast (solo_after hl hs a) (solo_after hl' hs' k)
    have hsolo : (r'.after k).turn.cell.Solo l' := solo_after hl' hs' (k + 1)
    obtain ⟨j, hj, hcaught⟩ := hturn.catchUp hfollows hsolo
    refine ⟨k + 1 + j, ?_, ?_⟩ <;> rw [after_add r' (k + 1) j]
    · exact hj
    · exact hcaught

/-- Everywhere the second run is on the line on which the first one is at some time, or on a blank
line before it. -/
theorem SameSoFar.exists_follows (h : r.SameSoFar start r') (hc : r.cell.Abreast b r'.cell)
    (hl : Linked l) (hl' : Linked l') (hs : r.cell.Solo l) (hs' : r'.cell.Solo l') (k : Nat) :
    ∃ a, (r.after a).SameSoFar start (r'.after k) ∧
      (r.after a).cell.Follows b (r'.after k).cell := by
  induction k with
  | zero => exact ⟨0, h, hc.follows⟩
  | succ k ih =>
    obtain ⟨a, hsame, hfollows⟩ := ih
    have hsolo := solo_after hl' hs' k
    rcases hfollows.abreast_or_lags hsolo with habreast | ⟨t, hlags, hother, hactive⟩
    · exact ⟨a + 1, hsame.turn habreast (solo_after hl hs a) hsolo⟩
    · obtain ⟨hstutter, habreast⟩ := hsame.stutter hfollows hsolo hlags hother
      rw [← turn_of_active hsolo hactive] at hstutter habreast
      exact ⟨a, hstutter, habreast.follows⟩

end Recorded

namespace Cell

variable {σ : Type} {c c' : Cell σ} {b : BlankLines} {l l' : Side → Library}

/-- The registers, the frames, the arms with their poses, and the statuses are the same. -/
structure SameState (c c' : Cell σ) : Prop where
  registers : c'.registers = c.registers
  frames : ∀ s, (c'.get s).frames = (c.get s).frames
  arm : ∀ s, (c'.get s).arm = (c.get s).arm
  status : ∀ s, (c'.get s).status? = (c.get s).status?

theorem Abreast.sameState (h : c.Abreast b c') : c.SameState c' :=
  ⟨h.registers, fun s => (h.devices s).frames, fun s => (h.devices s).arm,
    fun s => (h.devices s).status?_eq⟩

end Cell

namespace Recorded

variable {σ : Type} [MotionService σ] {c c' : Cell σ} {b : BlankLines} {l l' : Side → Library}

/-- The moves asked for in the first `n` ticks. -/
def movesOf (c : Cell σ) (n : Nat) : List Move := ((ofCell c).run n).moves

/-- The registers and frames at the beginning and, as they change, in the first `n` ticks. -/
def memoriesOf (c : Cell σ) (n : Nat) : List Memory := ((ofCell c).run n).memories c.memory

/-- The runs of two cells ask for the same moves one after another, and change the registers and the
frames in the same way; one run ends if and only if the other does, and leaves the same. -/
structure SameDeeds (c c' : Cell σ) : Prop where
  forth : ∀ n, ∃ m, movesOf c n <+: movesOf c' m ∧ memoriesOf c n <+: memoriesOf c' m
  back : ∀ m, ∃ n, movesOf c' m <+: movesOf c n ∧ memoriesOf c' m <+: memoriesOf c n
  ends : (∃ n, ((ofCell c).run n).Over) ↔ ∃ m, ((ofCell c').run m).Over
  alike : ∀ n m, ((ofCell c).run n).Over → ((ofCell c').run m).Over →
    movesOf c' m = movesOf c n ∧ memoriesOf c' m = memoriesOf c n ∧
      ((ofCell c).run n).cell.SameState ((ofCell c').run m).cell

theorem sameDeeds_of_abreast (hc : c.Abreast b c') (hl : Linked l) (hl' : Linked l')
    (hs : c.Solo l) (hs' : c'.Solo l') : SameDeeds c c' := by
  have hmemory : c'.memory = c.memory := hc.follows.memory_eq
  obtain ⟨r, hr⟩ : ∃ r, r = ofCell c := ⟨_, rfl⟩
  obtain ⟨r', hr'⟩ : ∃ r', r' = ofCell c' := ⟨_, rfl⟩
  have hsame : r.SameSoFar c.memory r' := by
    rw [hr, hr']
    exact ⟨rfl, rfl, rfl, hmemory.symm⟩
  have habreast : r.cell.Abreast b r'.cell := by
    rw [hr, hr']
    exact hc
  have hsolo : r.cell.Solo l := hr ▸ hs
  have hsolo' : r'.cell.Solo l' := hr' ▸ hs'
  have hover (a : Nat) : (r.after a).Over ↔ (r.after a).Resting :=
    (solo_after hl hsolo a).tick_idle_iff hl
  have hover' (k : Nat) : (r'.after k).Over ↔ (r'.after k).Resting :=
    (solo_after hl' hsolo' k).tick_idle_iff hl'
  have hahead (a : Nat) := hsame.exists_abreast habreast hl hl' hsolo hsolo' a
  have hbehind (k : Nat) := hsame.exists_follows habreast hl hl' hsolo hsolo' k
  constructor <;> simp only [movesOf, memoriesOf, hmemory, ← hr, ← hr']
  · intro n
    obtain ⟨a, ha, -⟩ := run_reaches hl hsolo n
    obtain ⟨k, hk, -⟩ := hahead a
    obtain ⟨j, hj, hreach⟩ := run_reaches hl' hsolo' k
    rw [ha, ← hk.moves, ← hk.memories]
    exact ⟨k, hj ▸ hreach.within.2, hj ▸ hreach.within.memories _⟩
  · intro m
    obtain ⟨k, hk, -⟩ := run_reaches hl' hsolo' m
    obtain ⟨a, ha, -⟩ := hbehind k
    obtain ⟨j, hj, hreach⟩ := run_reaches hl hsolo a
    rw [hk, ha.moves, ha.memories]
    exact ⟨a, hj ▸ hreach.within.2, hj ▸ hreach.within.memories _⟩
  · constructor
    · rintro ⟨n, hn⟩
      obtain ⟨a, ha, -⟩ := run_reaches hl hsolo n
      obtain ⟨k, -, hk⟩ := hahead a
      obtain ⟨j, hj, hreach⟩ := run_reaches hl' hsolo' k
      rw [ha, hover, ← resting_iff_of_abreast hk] at hn
      refine ⟨k, ?_⟩
      rw [hj, hover']
      exact hreach.resting hn
    · rintro ⟨m, hm⟩
      obtain ⟨k, hk, -⟩ := run_reaches hl' hsolo' m
      obtain ⟨a, -, ha⟩ := hbehind k
      obtain ⟨j, hj, hreach⟩ := run_reaches hl hsolo a
      rw [hk, hover'] at hm
      refine ⟨a, ?_⟩
      rw [hj, hover]
      exact hreach.resting (resting_of_follows (solo_after hl' hsolo' k) ha hm)
  · intro n m hn hm
    obtain ⟨a, ha, -⟩ := run_reaches hl hsolo n
    obtain ⟨k, hk, -⟩ := run_reaches hl' hsolo' m
    obtain ⟨j, hj, hcaught⟩ := hahead a
    rw [ha, hover, ← resting_iff_of_abreast hcaught] at hn
    rw [hk, hover'] at hm
    rw [ha, hk, after_eq_of_resting hm hn]
    exact ⟨hj.moves, hj.memories, hcaught.sameState⟩

end Recorded

namespace Cell

variable {σ : Type} [MotionService σ]

/-- A blank line does not change what a run does. With it before any line of a program, or at the end,
every run that is started on a line of a program does what the run that is started on the same line
does without it. -/
theorem blank_line_same_deeds (registers : RegisterBank) (first second : Library) (arm : Side → σ)
    {e : Side} {k j : Nat} {p : Program} (commented : Bool) :
    let built := (build registers first second arm).1
    (built.library e).get? k = some p → 0 < p.length → j ≤ p.length →
    ∃ edited id, built.editLibrary e.id (·.insertLine k j (.mk .blank commented)) = .ok (edited, id) ∧
      ∀ s name index q line, (built.library s).find? name = some index →
        (built.library s).get? index = some q → line < q.length →
        ∃ plain trace padded trace', built.start s.id name .full line = .ok (plain, trace) ∧
          edited.start s.id name .full (if s = e ∧ index = k ∧ j ≤ line then line + 1 else line) =
            .ok (padded, trace') ∧
          Recorded.SameDeeds plain padded := by
  intro built hp hpos hj
  have hfresh : built.Fresh := fresh_build registers first second arm
  have hlinked : Linked built.library := linked_build registers first second arm
  obtain ⟨m, id, hinsert, hm⟩ := Library.padded_insertLine hp hpos hj commented
  have hedited := hfresh.withLibrary e m
  have habreast := hfresh.abreast hm
  have hlinked' := habreast.linked hfresh.sound hlinked
  refine ⟨_, id, hfresh.editLibrary hinsert, fun s name index q line hfind hq hline => ?_⟩
  generalize built.put e { built.get e with library := m } = edited at *
  obtain ⟨d, trace, d', trace', hstart, hstart', hstarted⟩ :=
    habreast.start (hfresh.not_busy s) hfind hq hline
  have hside : sideOf s.id = .ok s := by simp [sideOf]
  have hline' : shifted (if (built.get s).id = e.id then if index = k then some j else none else none)
      line = if s = e ∧ index = k ∧ j ≤ line then line + 1 else line := by
    have hid : s.id = e.id ↔ s = e := ⟨Side.id_injective, congrArg Side.id⟩
    rw [(hfresh.sound s).id_eq]
    by_cases hs : s = e <;> by_cases hi : index = k <;> simp [hid, hs, hi, shifted]
  refine ⟨built.put s d, trace, edited.put s d', trace', ?_, ?_,
    Recorded.sameDeeds_of_abreast hstarted hlinked hlinked' (hfresh.solo hstart)
      (hedited.solo hstart')⟩
  · rw [start_eq_of_sideOf hside, hstart]
    rfl
  · rw [start_eq_of_sideOf hside, ← hline', hstart']
    rfl

/-- `MAIN` calls `WORK` on the other device, which jumps over a line, writes, calls `SUB`, which
selects a frame, and moves. -/
def ferry : Cell InstantArm :=
  (build (.ofSizes 0 2 1)
    ⟨[.written "MAIN" [.call { program := "WORK", device := 1 }, .setIo 0 true,
        .call { program := "SUB", device := 0 },
        .motion { kind := .joint, target := .register 0, speed := .zero false }],
      .written "SUB" [.selectFrame .tool 2]]⟩
    ⟨[.written "WORK" [.setIo 1 true, .jump 5, .blank, .label 5]]⟩ fun _ => {}).1

/-- A blank line where the call of `WORK` returns to. -/
theorem blank_line_same_deeds_ferry :
    ∃ p, (ferry.library .first).get? 0 = some p ∧ 0 < p.length ∧ 1 ≤ p.length ∧
      ∃ edited id, ferry.editLibrary 0 (·.insertLine 0 1 (.mk .blank false)) = .ok (edited, id) ∧
        ∃ plain trace padded trace', ferry.start 0 "MAIN" .full 0 = .ok (plain, trace) ∧
          edited.start 0 "MAIN" .full 0 = .ok (padded, trace') ∧
          Recorded.SameDeeds plain padded := by
  obtain ⟨p, hp, hlength⟩ : ∃ p, (ferry.library .first).get? 0 = some p ∧ p.length = 4 := ⟨_, rfl, rfl⟩
  have hfind : (ferry.library .first).find? "MAIN" = some 0 := by decide
  have hpos : 0 < p.length := by omega
  have hline : 1 ≤ p.length := by omega
  obtain ⟨edited, id, hedit, hruns⟩ :=
    blank_line_same_deeds (.ofSizes 0 2 1) _ _ (fun _ => ({} : InstantArm)) false hp hpos hline
  exact ⟨p, hp, hpos, hline, edited, id, hedit, hruns .first "MAIN" 0 p 0 hfind hp hpos⟩

end Cell

end TeachPendant
