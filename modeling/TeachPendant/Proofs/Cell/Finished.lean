import TeachPendant.Arm.Instant
import TeachPendant.Proofs.Cell.Turn

namespace TeachPendant

namespace Device

variable {σ : Type}

/-- The run is over, well or not, and there is nobody to return to. -/
structure Finished (d : Device σ) (x : Execution) : Prop where
  execution : d.execution = some x
  terminal : x.status.isTerminal = true
  stack : d.returnStack = []

/-- The next turn looks for the program of the run, and the library has nothing in its place. -/
def MissesProgram (d : Device σ) (x : Execution) : Prop :=
  d.abandoned = none ∧ d.library.get? x.program.index = none

/-- The fault of a run without its program. -/
def missing (d : Device σ) (x : Execution) : Error :=
  .outside "program" x.program.index d.library.length

/-- The next turn gives the run another status than it has. -/
def LosesRun (d : Device σ) (x : Execution) : Prop :=
  d.MissesProgram x ∧ x.status ≠ .fault (d.missing x)

namespace Finished

variable {d : Device σ} {x : Execution}

theorem fail (h : d.Finished x) (cause : Error) : (d.fail cause).1.Finished (x.fail cause) where
  execution := by rw [execution_fail, h.execution, Option.map_some]
  terminal := rfl
  stack := returnStack_fail d cause

theorem not_awaitingCall (h : d.Finished x) : d.status? ≠ some .awaitingCall := by
  intro hs
  have ht := h.terminal
  rw [status?, h.execution, Option.map_some, Option.some.injEq] at hs
  rw [hs] at ht
  cases ht

theorem resumeAfterCall (h : d.Finished x) : d.resumeAfterCall = d := by
  have hx : x.status ≠ .awaitingCall := by
    intro hs
    have ht := h.terminal
    rw [hs] at ht
    cases ht
  cases hp : d.library.get? x.program.index with
  | none => simp only [Device.resumeAfterCall, h.execution, hp]
  | some p =>
    simp only [Device.resumeAfterCall, h.execution, hp, Execution.resumeAfterCall, if_neg hx]
    rw [← h.execution]

variable [MotionService σ]

/-- The own turn of a device whose run is over. -/
theorem tick (h : d.Finished x) (registers : RegisterBank) :
    (∀ target frame, (d.tick registers).event ≠ .crossCall target frame) ∧
      (d.MissesProgram x → (d.tick registers).device.Finished (x.fail (d.missing x))) ∧
      (¬ d.MissesProgram x → (d.tick registers).device.Finished x) := by
  have ht := d.ticked registers
  generalize d.tick registers = t at ht ⊢
  have live {y : Execution} (hy : d.execution = some y) (hs : y.status.isTerminal = false) :
      False := by
    obtain rfl := Option.some.inj (h.execution.symm.trans hy)
    exact absurd (h.terminal.symm.trans hs) nofun
  cases ht with
  | reported report =>
    refine ⟨nofun, fun hm => ?_, fun _ => ⟨h.execution, h.terminal, h.stack⟩⟩
    cases hm.1.symm.trans report
  | unstarted quiet hx => cases hx.symm.trans h.execution
  | lost quiet hx hp =>
    obtain rfl := Option.some.inj (h.execution.symm.trans hx)
    exact ⟨nofun, fun _ => h.fail _, fun hm => absurd ⟨quiet, hp⟩ hm⟩
  | faulted _ hx _ hs | advanced _ hx _ hs | calledOver _ hx _ hs | calledHere _ hx _ hs
  | refused _ hx _ hs => exact (live hx (by rw [hs]; rfl)).elim
  | polled _ hx _ hs | waiting _ hx _ hs => exact (live hx (by rw [hs]; rfl)).elim
  | returnedOver _ _ _ _ hr | returnLost _ _ _ _ hr | returnedHere _ _ _ _ hr =>
    cases hr.symm.trans h.stack
  | stopped quiet hx hp =>
    obtain rfl := Option.some.inj (h.execution.symm.trans hx)
    refine ⟨nofun, fun hm => ?_, fun _ => h⟩
    cases hm.2.symm.trans hp

end Finished

end Device

namespace Cell

variable {σ : Type}

/-- The command begins, resumes or ends a run of the device `s`. -/
def Command.Concerns (s : Side) : Command σ → Prop
  | .start device _ _ _ | .resume device | .halt device => device = s.id
  | .haltAll => True
  | _ => False

/-- The move begins, resumes or ends a run of the device `s`, or is its turn. -/
def Move.Concerns (s : Side) : Move σ → Prop
  | .start side _ _ _ | .resume side | .halt side | .tick side => side = s
  | _ => False

theorem Command.not_concerns_moves {s : Side} {k : Command σ} (hk : ¬ k.Concerns s)
    (hn : k ≠ .tick) : ∀ m ∈ k.moves, ¬ m.Concerns s ∧ ∀ side, m ≠ .tick side := by
  have apart {device : UInt8} {side : Side} (hd : device ≠ s.id)
      (hs : Side.ofId? device = some side) : side ≠ s := by
    rintro rfl
    exact hd (Side.eq_of_ofId? hs)
  cases k with
  | start device | resume device | halt device =>
    intro m hm
    simp only [Command.moves, Option.mem_toList, Option.map_eq_some_iff] at hm
    obtain ⟨side, hs, rfl⟩ := hm
    refine ⟨apart hk hs, ?_⟩
    rintro _ ⟨⟩
  | haltAll => exact absurd trivial hk
  | relink | write | drift =>
    intro m hm
    obtain rfl := List.mem_singleton.mp hm
    refine ⟨id, ?_⟩
    rintro _ ⟨⟩
  | edit device =>
    intro m hm
    simp only [Command.moves, Option.mem_toList, Option.map_eq_some_iff] at hm
    obtain ⟨side, -, rfl⟩ := hm
    refine ⟨id, ?_⟩
    rintro _ ⟨⟩
  | tick => exact absurd rfl hn

variable [MotionService σ] {c : Cell σ} {s : Side} {x : Execution}

/-- In a tick of the cell the device `s` takes a call of the other one. The first device has had
its turn by then, the second one has not. -/
def TakesCallInTick (c : Cell σ) : Side → Prop
  | .first => (c.tickSide .first).1.TakesCall .first
  | .second => c.TakesCall .second

/-- In none of its ticks does the device `s` take a call, and no command concerns it. -/
def Unprompted (s : Side) : Cell σ → List (Command σ) → Prop
  | _, [] => True
  | c, k :: ks =>
    ¬ k.Concerns s ∧ (k = .tick → ¬ c.TakesCallInTick s) ∧ Unprompted s (c.perform k) ks

theorem finished_move (hx : (c.get s).Finished x) {m : Move σ} (hm : ¬ m.Concerns s)
    (hn : ∀ side, m ≠ .tick side) : ((c.move m).get s).Finished x := by
  have hput {side : Side} (hs : side ≠ s) (d : Device σ) : (c.put side d).get s = c.get s := by
    obtain rfl := (s.eq_or_eq_other side).resolve_left hs
    exact get_other_put c s d
  have hlibrary (d : Device σ) (hd : d = c.get s) (l : Library) :
      ({ d with library := l } : Device σ).Finished x :=
    hd ▸ ⟨hx.execution, hx.terminal, hx.stack⟩
  cases m with
  | start side program mode line =>
    simp only [move]
    split
    · rwa [hput hm]
    · exact hx
  | resume side =>
    simp only [move]
    split
    · rwa [hput hm]
    · exact hx
  | halt side => rwa [move, hput hm]
  | relink =>
    rw [move, get_relink]
    exact hlibrary _ rfl _
  | write registers => rwa [move, get_registers]
  | edit side change =>
    simp only [move]
    split_ifs
    · exact hx
    · by_cases hs : side = s
      · subst hs
        rw [get_put]
        exact hlibrary _ rfl _
      · rwa [hput hs]
  | drift side arm =>
    rw [move]
    by_cases hs : side = s
    · subst hs
      rw [get_put]
      exact ⟨hx.execution, hx.terminal, hx.stack⟩
    · rwa [hput hs]
  | tick side => exact absurd rfl (hn side)

theorem finished_tickSide (hc : c.Sound) (hx : (c.get s).Finished x) :
    ((c.get s).MissesProgram x →
        ((c.tickSide s).1.get s).Finished (x.fail ((c.get s).missing x))) ∧
      (¬ (c.get s).MissesProgram x → ((c.tickSide s).1.get s).Finished x) := by
  obtain ⟨hevent, hturn⟩ := hx.tick c.registers
  rcases hc.get_tickSide s with hs | ⟨target, frame, cause, he, -⟩
  · rwa [hs]
  · exact absurd he (hevent target frame)

/-- The turn of the other device does not touch a device whose run is over, unless that one takes a
call. -/
theorem get_tickSide_other_of_finished (hc : c.Sound) (hx : (c.get s).Finished x)
    (hn : ¬ c.TakesCall s) : (c.tickSide s.other).1.get s = c.get s := by
  have hr := hc.reached_tickSide_other s
  generalize (c.tickSide s.other).1.get s = d at hr
  cases hr with
  | untouched => rfl
  | called takes => exact absurd takes hn
  | failed waits => exact absurd waits hx.not_awaitingCall
  | resumed => exact hx.resumeAfterCall

/-- A tick of the cell ends like the turn of the device alone. -/
theorem finished_tick (hc : c.Sound) (hx : (c.get s).Finished x) (hn : ¬ c.TakesCallInTick s) :
    ((c.get s).MissesProgram x → (c.tick.1.get s).Finished (x.fail ((c.get s).missing x))) ∧
      (¬ (c.get s).MissesProgram x → (c.tick.1.get s).Finished x) := by
  have htick : c.tick.1 = ((c.tickSide .first).1.tickSide .second).1 := rfl
  have hfirst : (c.tickSide .first).1.Sound := (sound_exchange_tickSide hc .first).1
  rw [htick]
  cases s with
  | first =>
    obtain ⟨hm, hk⟩ := finished_tickSide hc hx
    have hsame {y : Execution} (hy : ((c.tickSide .first).1.get .first).Finished y) :
        (((c.tickSide .first).1.tickSide .second).1.get .first).Finished y :=
      (get_tickSide_other_of_finished hfirst hy hn).symm ▸ hy
    exact ⟨fun h => hsame (hm h), fun h => hsame (hk h)⟩
  | second =>
    have hsame : (c.tickSide .first).1.get .second = c.get .second :=
      get_tickSide_other_of_finished (s := .second) hc hx hn
    have h := finished_tickSide hfirst (hsame.symm ▸ hx)
    rwa [hsame] at h

theorem finished_perform (hx : (c.get s).Finished x) {k : Command σ} (hk : ¬ k.Concerns s)
    (hn : k ≠ .tick) : ((c.perform k).get s).Finished x := by
  rw [perform_eq_moves]
  have hms := Command.not_concerns_moves hk hn
  generalize k.moves = ms at hms
  induction ms generalizing c with
  | nil => exact hx
  | cons m ms ih =>
    obtain ⟨⟨hm, hmn⟩, hms⟩ := List.forall_mem_cons.mp hms
    exact ih (finished_move hx hm hmn) hms

theorem sound_operate (hc : c.Sound) (ks : List (Command σ)) : (c.operate ks).Sound := by
  rw [operate_eq_moves]
  exact foldl_move_of_invariant (fun _ m h => h.move m) hc _

theorem unprompted_append {before after : List (Command σ)} :
    Unprompted s c (before ++ after) ↔
      Unprompted s c before ∧ Unprompted s (c.operate before) after := by
  induction before generalizing c with
  | nil => simp [Unprompted, operate]
  | cons k before ih =>
    have hk := ih (c := c.perform k)
    simp only [List.cons_append, Unprompted, hk, and_assoc]
    rfl

/-- The run stays over, on its line and in its mode. -/
theorem finished_operate (hc : c.Sound) (hx : (c.get s).Finished x) {ks : List (Command σ)}
    (hk : Unprompted s c ks) :
    ∃ status, ((c.operate ks).get s).Finished { x with status := status } := by
  induction ks generalizing c x with
  | nil => exact ⟨x.status, hx⟩
  | cons k ks ih =>
    obtain ⟨hconcerns, htick, hrest⟩ := hk
    have hnext : ∃ status, ((c.perform k).get s).Finished { x with status := status } := by
      by_cases hn : k = .tick
      · subst hn
        obtain ⟨hmissed, hkept⟩ := finished_tick hc hx (htick rfl)
        by_cases hm : (c.get s).MissesProgram x
        · exact ⟨_, hmissed hm⟩
        · exact ⟨_, hkept hm⟩
      · exact ⟨_, finished_perform hx hconcerns hn⟩
    obtain ⟨status, hy⟩ := hnext
    have hrun := ih (sound_operate hc [k]) hy hrest
    exact hrun

/-- A tick in which the run is not lost. -/
theorem kept_tick (hc : c.Sound) (hx : (c.get s).Finished x) (hn : ¬ c.TakesCallInTick s)
    (hl : ¬ (c.get s).LosesRun x) : (c.tick.1.get s).Finished x := by
  obtain ⟨hmissed, hkept⟩ := finished_tick hc hx hn
  by_cases hm : (c.get s).MissesProgram x
  · have hs : x.status = .fault ((c.get s).missing x) := Decidable.not_not.mp fun hs => hl ⟨hm, hs⟩
    have hsame : x.fail ((c.get s).missing x) = x := by rw [Execution.fail, ← hs]
    exact hsame ▸ hmissed hm
  · exact hkept hm

/-- The run is kept as it is exactly as long as no tick misses its program. -/
theorem kept_operate_iff (hc : c.Sound) (hx : (c.get s).Finished x) {ks : List (Command σ)}
    (hk : Unprompted s c ks) :
    (∀ before, before <+: ks → ((c.operate before).get s).execution = some x) ↔
      ∀ before, before ++ [.tick] <+: ks → ¬ ((c.operate before).get s).LosesRun x := by
  constructor
  · rintro hkept before ⟨after, rfl⟩ ⟨hm, hs⟩
    rw [List.append_assoc, unprompted_append] at hk
    obtain ⟨hbefore, -, htick, -⟩ := hk
    have hsound := sound_operate hc before
    have hrun : ((c.operate before).get s).Finished x := by
      obtain ⟨status, hy⟩ := finished_operate hc hx hbefore
      have hsame := hy.execution.symm.trans (hkept before ⟨[.tick] ++ after, by simp⟩)
      rwa [Option.some.inj hsame] at hy
    have hfailed := ((finished_tick hsound hrun (htick rfl)).1 hm).execution
    have hlater := hkept (before ++ [.tick]) ⟨after, rfl⟩
    rw [operate_append] at hlater
    exact hs (congrArg Execution.status (Option.some.inj (hlater.symm.trans hfailed)))
  · intro hkept before hbefore
    induction ks generalizing c before with
    | nil =>
      obtain rfl := List.prefix_nil.mp hbefore
      exact hx.execution
    | cons k ks ih =>
      obtain ⟨hconcerns, htick, hrest⟩ := hk
      have hnext : ((c.perform k).get s).Finished x := by
        by_cases hn : k = .tick
        · subst hn
          exact kept_tick hc hx (htick rfl) (hkept [] ⟨ks, rfl⟩)
        · exact finished_perform hx hconcerns hn
      cases before with
      | nil => exact hx.execution
      | cons k' before =>
        obtain ⟨rfl, hb⟩ := List.cons_prefix_cons.mp hbefore
        refine ih (sound_operate hc [k']) hnext hrest (fun earlier he => ?_) before hb
        exact hkept (k' :: earlier) (List.cons_prefix_cons.mpr ⟨rfl, he⟩)

/-- A run that is over stays over on its line and in its mode, and stays as it is, status included,
exactly as long as no tick finds its program gone from the library. -/
theorem Reachable.finished_iff (h : c.Reachable) (hx : (c.get s).Finished x)
    {ks : List (Command σ)} (hk : Unprompted s c ks) :
    (∃ status, ((c.operate ks).get s).Finished { x with status := status }) ∧
      ((∀ before, before <+: ks → ((c.operate before).get s).execution = some x) ↔
        ∀ before, before ++ [.tick] <+: ks → ¬ ((c.operate before).get s).LosesRun x) :=
  ⟨finished_operate h.sound hx hk, kept_operate_iff h.sound hx hk⟩

/-- A program of one line has been run to its end on the first device. -/
def ranOnce : Cell InstantArm :=
  (build (.ofSizes 0 0 0) ⟨[.written "MAIN" [.blank]]⟩ ⟨[]⟩ fun _ => {}).1.operate
    [.start 0 "MAIN" .full 0, .tick]

/-- The run of `MAIN`, done. -/
def ranOnceRun : Execution := ⟨⟨0, 0⟩, 0, 1, .full, .done .endOfProgram⟩

/-- A program is put behind the one that was run. -/
theorem finished_iff_ranOnce :
    let ks : List (Command InstantArm) := [.edit 0 fun l => ⟨l.programs ++ [.named "NEXT"]⟩, .tick]
    (ranOnce.get .first).Finished ranOnceRun ∧ Unprompted .first ranOnce ks ∧
      ∀ before, before <+: ks → ((ranOnce.operate before).get .first).execution = some ranOnceRun := by
  intro ks
  have hc : ranOnce.Reachable := ⟨_, _, _, _, _, rfl⟩
  have hx : (ranOnce.get .first).Finished ranOnceRun := ⟨by decide, rfl, by decide⟩
  have hidle : (((ranOnce.perform (.edit 0 fun l => ⟨l.programs ++ [.named "NEXT"]⟩)).tickSide
      .first).1.second.tick ranOnce.registers).event = .idle := by decide
  have hk : Unprompted .first ranOnce ks := by
    refine ⟨id, nofun, id, ?_, trivial⟩
    rintro - ⟨target, frame, r, he, -⟩
    exact absurd (hidle.symm.trans he) nofun
  refine ⟨hx, hk, (Reachable.finished_iff hc hx hk).2.mpr fun before hb => ?_⟩
  -- The one tick comes after the edit.
  cases before with
  | nil => cases (List.cons_prefix_cons.mp hb).1
  | cons k before =>
    obtain ⟨rfl, hb⟩ := List.cons_prefix_cons.mp hb
    cases before with
    | nil =>
      rintro ⟨⟨-, hm⟩, -⟩
      cases hm
    | cons k' before => simpa using List.cons_prefix_cons.mp hb

/-- The program is taken out of the library, and the next tick fails the run that was done. -/
theorem not_kept_removed :
    let ks : List (Command InstantArm) := [.edit 0 fun _ => ⟨[]⟩, .tick]
    ranOnce.Reachable ∧ (ranOnce.get .first).Finished ranOnceRun ∧ Unprompted .first ranOnce ks ∧
      ((ranOnce.operate ks).get .first).status? = some (.fault (.outside "program" 0 0)) := by
  intro ks
  have hidle : (((ranOnce.perform (.edit 0 fun _ => ⟨[]⟩)).tickSide
      .first).1.second.tick ranOnce.registers).event = .idle := by decide
  refine ⟨⟨_, _, _, _, _, rfl⟩, ⟨by decide, rfl, by decide⟩, ⟨id, nofun, id, ?_, trivial⟩, by decide⟩
  rintro - ⟨target, frame, r, he, -⟩
  exact absurd (hidle.symm.trans he) nofun

end Cell

end TeachPendant
