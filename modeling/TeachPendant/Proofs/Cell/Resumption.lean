import TeachPendant.Proofs.Cell.Libraries
import TeachPendant.Proofs.Cell.Pointers

namespace TeachPendant

/-- The edits of a library, one of which changes a single program at its place. -/
inductive LibraryEdit
  | add (p : Program)
  | remove (i : Nat)
  | rename (i : Nat) (name : String)
  | alter (i : Nat) (change : Program → Program)

namespace LibraryEdit

def apply (l : Library) : LibraryEdit → Except Error Library
  | .add p => (l.add p).map (·.1)
  | .remove i => (l.remove i).map (·.1)
  | .rename i name => l.rename i name
  | .alter i change => .ok ⟨l.programs.modify i change⟩

/-- Where a program goes by an edit. -/
def follow : LibraryEdit → Nat → Option Nat
  | .remove k, i => if i = k then none else if k < i then some (i - 1) else some i
  | .add _, i | .rename _ _, i | .alter _ _, i => some i

/-- What an edit makes of the program at a place. -/
def edited (i : Nat) (p : Program) : LibraryEdit → Program
  | .rename k name => if k = i then { p with name } else p
  | .alter k change => if k = i then change p else p
  | .add _ | .remove _ => p

variable {l l' : Library} {e : LibraryEdit} {i j : Nat} {p : Program}

/-- A program is found where it went. -/
theorem get?_follow (h : e.apply l = .ok l') (hp : l.get? i = some p) (hj : e.follow i = some j) :
    l'.get? j = some (e.edited i p) := by
  have hlt : i < l.programs.length := (List.getElem?_eq_some_iff.mp hp).1
  cases e with
  | add q =>
    cases hj
    simp only [apply, Library.add] at h
    split at h <;> cases h
    simpa [Library.get?, edited, List.getElem?_append_left hlt] using hp
  | remove k =>
    simp only [apply, Library.remove] at h
    split at h <;> cases h
    simp only [follow] at hj
    split_ifs at hj with hk hki
    · cases hj
      have hle : k ≤ i - 1 := by omega
      have hi : i - 1 + 1 = i := by omega
      simpa [Library.get?, edited, List.getElem?_eraseIdx_of_ge hle, hi] using hp
    · cases hj
      have hik : i < k := by omega
      simpa [Library.get?, edited, List.getElem?_eraseIdx_of_lt hik] using hp
  | rename k name =>
    cases hj
    simp only [apply, Library.rename] at h
    split at h
    · cases h
    · split at h
      · next q hq =>
        cases h
        by_cases hk : k = i
        · subst hk
          obtain rfl := Option.some.inj (hq.symm.trans hp)
          simp [Library.get?, Library.replace, edited, List.getElem?_set_self hlt]
        · simpa [Library.get?, Library.replace, edited, hk, List.getElem?_set_ne hk] using hp
      · cases h
  | alter k change =>
    cases hj
    cases h
    by_cases hk : k = i
    · subst hk
      have hp : l.programs[k]? = some p := hp
      simp [Library.get?, edited, hp]
    · simpa [Library.get?, edited, hk, List.getElem?_modify] using hp

end LibraryEdit

namespace Device

variable {σ : Type} {d d' : Device σ} {side : Side}

/-- The place of the program on which the device is paused. -/
def pausedOn? (d : Device σ) : Option Nat :=
  match d.execution with
  | some x => if x.status = .done .stepped then some x.program.index else none
  | none => none

theorem pausedOn?_eq_some {i : Nat} : d.pausedOn? = some i ↔
    ∃ x, d.execution = some x ∧ x.status = .done .stepped ∧ x.program.index = i := by
  unfold pausedOn?
  split
  · next x hx =>
    rw [hx]
    split_ifs with hs
    · simp [hs]
    · simp [hs]
  · next hx => simp [hx]

theorem pausedOn?_of_status {s : Status} (h : d.status? = some s) (hs : s ≠ .done .stepped) :
    d.pausedOn? = none := by
  obtain ⟨x, hx, rfl⟩ := Option.map_eq_some_iff.mp h
  simp [pausedOn?, hx, hs]

/-- How a device may come to be paused, or stay so, by what is done to it: it does not pause, it
stays as it was, or it pauses on a program that it has. -/
inductive Pausing (d d' : Device σ) : Prop
  | going (h : d'.pausedOn? = none)
  | still (execution : d'.execution = d.execution) (stack : d'.returnStack = d.returnStack)
  | fresh (before : d.pausedOn? = none) (equipped : d'.Equipped)

theorem pausedOn?_fail (d : Device σ) (cause : Error) : (d.fail cause).1.pausedOn? = none := by
  unfold pausedOn?
  rw [execution_fail]
  cases d.execution with
  | none => rfl
  | some x => rfl

theorem pausedOn?_begin {ref : ProgramRef} {p : Program} (hp : d.library.get? ref.index = some p)
    (mode : RunMode) (i : Nat) : (d.begin ref mode i).1.pausedOn? = none := by
  rw [begin_of_some hp]
  refine pausedOn?_of_status rfl ?_
  split_ifs
  · nofun
  · unfold Execution.start
    split_ifs <;> nofun

theorem pausedOn?_halt [MotionService σ] (d : Device σ) : d.halt.1.pausedOn? = none := by
  obtain ⟨x, arm, he, hx⟩ := d.halt_eq
  rw [he, dropCallChain_eq]
  cases x with
  | none => rfl
  | some y =>
    refine pausedOn?_of_status rfl ?_
    simp [hx y rfl]

/-- A busy device has the program that it runs. -/
theorem Sound.equipped_of_busy (h : d.Sound side) (hb : d.isBusy = true) : d.Equipped := by
  intro x hx
  obtain ⟨p, hp, -⟩ := h.runs hb x hx
  rw [hp]
  rfl

namespace Pausing

theorem refl (d : Device σ) : d.Pausing d := .still rfl rfl

theorem resumeAfterCall (h : d.Sound side) : d.Pausing d.resumeAfterCall := by
  by_cases hs : d.status? = some .awaitingCall
  · have hb : d.isBusy = true := by simp [isBusy, isActive, hs, Status.isTerminal]
    have he := h.equipped_of_busy hb
    exact .fresh (pausedOn?_of_status hs (by decide)) (Blames.resumeAfterCall h he).equipped
  · rw [resumeAfterCall_of_not_waiting hs]
    exact refl d

theorem tick [MotionService σ] (h : d.Sound side) (registers : RegisterBank) :
    d.Pausing (d.tick registers).device := by
  have hfresh {x : Execution} (hx : d.execution = some x) (hs : x.status ≠ .done .stepped)
      (hb : d.isBusy = true) : d.Pausing (d.tick registers).device :=
    .fresh (pausedOn?_of_status (by rw [status?, hx]; rfl) hs)
      (Blames.tick h (h.equipped_of_busy hb) registers).equipped
  have ht := d.ticked registers
  generalize d.tick registers = t at ht hfresh ⊢
  cases ht with
  | reported | unstarted | waiting | stopped => exact .still rfl rfl
  | lost => exact .going (pausedOn?_fail d _)
  | faulted _ hx _ hs | advanced _ hx _ hs | calledOver _ hx _ hs | calledHere _ hx _ hs
  | refused _ hx _ hs =>
    exact hfresh hx (by simp [hs]) (isBusy_of_running hx (by simp [hs, Status.isTerminal]))
  | polled _ hx _ hs =>
    exact hfresh hx (by simp [hs]) (isBusy_of_running hx (by simp [hs, Status.isTerminal]))
  | returnedOver _ hx _ hs hr | returnLost _ hx _ hs hr | returnedHere _ hx _ hs hr =>
    exact hfresh hx (by simp [hs]) (by simp [isBusy, hr])

end Pausing

end Device

namespace Cell

variable {σ : Type} {c : Cell σ}

theorem pausing_put {s : Side} {d : Device σ} (h : (c.get s).Pausing d) (t : Side) :
    (c.get t).Pausing ((c.put s d).get t) := by
  rcases s.eq_or_eq_other t with rfl | rfl
  · rwa [get_put]
  · rw [get_put_other]
    exact .refl _

variable [MotionService σ]

/-- Whatever is done to a cell, apart from edits. -/
theorem Sound.pausing_move (hc : c.Sound) {m : Move σ} (hm : m.edits = false) (s : Side) :
    (c.get s).Pausing ((c.move m).get s) := by
  cases m with
  | start side program mode line =>
    simp only [Cell.move]
    split
    · next started =>
      obtain ⟨-, index, p, hp, -, rfl⟩ := Device.of_start started
      exact pausing_put (.going (Device.pausedOn?_begin hp mode line)) s
    · exact .refl _
  | resume side =>
    simp only [Cell.move]
    split
    · next resumed =>
      refine pausing_put ?_ s
      rcases Device.of_resume resumed with rfl | ⟨x, p, -, -, hp, rfl⟩
      · exact .refl _
      · exact .going (Device.pausedOn?_begin hp x.mode x.current)
    · exact .refl _
  | halt side => exact pausing_put (.going (Device.pausedOn?_halt _)) s
  | relink =>
    rw [Cell.move, get_relink]
    exact .still rfl rfl
  | write registers =>
    rw [Cell.move, get_registers]
    exact .refl _
  | edit => cases hm
  | drift side arm => exact pausing_put (d := { c.get side with arm }) (.still rfl rfl) s
  | tick side =>
    refine hc.forall_tickSide side (P := fun t d => (c.get t).Pausing d) ?_ ?_ ?_ ?_ ?_ ?_ s
    · exact .tick (hc side) c.registers
    · exact fun cause _ => .going (Device.pausedOn?_fail _ cause)
    · exact .refl _
    · intro target frame d trace taken
      obtain ⟨-, ref, p, -, hp, -, rfl⟩ := Device.of_acceptCall taken
      exact .going (Device.pausedOn?_begin (d := { c.get side.other with
        returnStack := frame :: (c.get side.other).returnStack }) hp frame.mode 0)
    · exact fun cause _ => .going (Device.pausedOn?_fail _ cause)
    · exact .resumeAfterCall (hc side.other)

/-- No program gets lost without an edit. -/
theorem present_move {m : Move σ} (hm : m.edits = false) {s : Side} {i : Nat}
    (h : ((c.library s).get? i).isSome) : (((c.move m).library s).get? i).isSome := by
  rcases Move.relinks_or_keeps hm with rfl | hk
  · simpa [Cell.move, library_relink, relinked] using h
  · rw [library_move hk]
    exact h

end Cell

/-- A cell in which it is noted for every paused device where the program on which it paused stands
by now, which is nowhere once that has been taken out. -/
structure Tracked (σ : Type) where
  cell : Cell σ
  place : Side → Option (Option Nat) := fun _ => none

namespace Tracked

variable {σ : Type} [MotionService σ] {w : Tracked σ}

/-- The note is made when the device pauses, and kept as long as it is paused. -/
def move (w : Tracked σ) (m : Cell.Move σ) : Tracked σ where
  cell := w.cell.move m
  place := fun s =>
    match ((w.cell.move m).get s).pausedOn? with
    | none => none
    | some i => if (w.cell.get s).pausedOn?.isSome then w.place s else some (some i)

omit [MotionService σ] in
/-- An edit moves programs; one that is refused does nothing. -/
def edit (w : Tracked σ) (s : Side) (e : LibraryEdit) : Tracked σ :=
  match w.cell.editLibrary s.id fun l => (e.apply l).map fun l' => (l', ()) with
  | .error _ => w
  | .ok (cell, _) =>
    { cell, place := fun t => if t = s then (w.place t).map (·.bind e.follow) else w.place t }

/-- From a cell just built, by edits of its libraries and anything else in any order. -/
inductive Reachable : Tracked σ → Prop
  | built (registers : RegisterBank) (first second : Library) (arm : Side → σ) :
      Reachable { cell := (Cell.build registers first second arm).1 }
  | move {w : Tracked σ} (h : Reachable w) {m : Cell.Move σ} (hm : m.edits = false) :
      Reachable (w.move m)
  | edit {w : Tracked σ} (h : Reachable w) (s : Side) (e : LibraryEdit) : Reachable (w.edit s e)

omit [MotionService σ] in
/-- An edit that is made, on a device that has nothing to do. -/
theorem edit_cases (w : Tracked σ) (s : Side) (e : LibraryEdit) : w.edit s e = w ∨
    ∃ l, (w.cell.get s).isBusy = false ∧ e.apply (w.cell.library s) = .ok l ∧
      w.edit s e = {
        cell := w.cell.put s { w.cell.get s with library := l }
        place := fun t => if t = s then (w.place t).map (·.bind e.follow) else w.place t } := by
  cases hb : (w.cell.get s).isBusy with
  | true => exact Or.inl (by simp [edit, Cell.editLibrary, Cell.sideOf, hb, bind, Except.bind])
  | false =>
    cases hl : e.apply (w.cell.get s).library with
    | error cause =>
      exact Or.inl (by simp [edit, Cell.editLibrary, Cell.sideOf, hb, hl, bind, Except.bind, Except.map])
    | ok l =>
      refine Or.inr ⟨l, rfl, hl, ?_⟩
      simp [edit, Cell.editLibrary, Cell.sideOf, hb, hl, bind, Except.bind, Except.map]

/-- The notes are right: a program that is noted to stand somewhere is there, and while a device has
callers to return to nobody takes the program away. -/
structure Kept (w : Tracked σ) : Prop where
  sound : w.cell.Sound
  noted : ∀ s i, (w.cell.get s).pausedOn? = some i → ∃ place, w.place s = some place ∧
    (∀ j, place = some j → ((w.cell.library s).get? j).isSome) ∧
    ((w.cell.get s).returnStack ≠ [] → place = some i)

theorem kept_move (h : w.Kept) {m : Cell.Move σ} (hm : m.edits = false) : (w.move m).Kept := by
  refine ⟨h.sound.move m, fun s i hi => ?_⟩
  have hi : ((w.cell.move m).get s).pausedOn? = some i := hi
  cases h.sound.pausing_move hm s with
  | going hn => exact absurd (hn.symm.trans hi) nofun
  | still hx hr =>
    have hbefore : (w.cell.get s).pausedOn? = some i := by
      rw [← hi, Device.pausedOn?, Device.pausedOn?, hx]
    obtain ⟨place, hplace, hpresent, hstack⟩ := h.noted s i hbefore
    refine ⟨place, ?_, fun j hj => Cell.present_move hm (hpresent j hj), fun hs => ?_⟩
    · simp [move, hi, hbefore, hplace]
    · have hs : ((w.cell.move m).get s).returnStack ≠ [] := hs
      exact hstack (hr ▸ hs)
  | fresh hbefore he =>
    obtain ⟨x, hx, -, rfl⟩ := Device.pausedOn?_eq_some.mp hi
    refine ⟨some x.program.index, by simp [move, hi, hbefore], ?_, fun _ => rfl⟩
    rintro j ⟨⟩
    exact he x hx

omit [MotionService σ] in
theorem kept_edit (h : w.Kept) (s : Side) (e : LibraryEdit) : (w.edit s e).Kept := by
  rcases w.edit_cases s e with he | ⟨l, hb, hl, he⟩
  · rwa [he]
  rw [he]
  refine ⟨fun t => ?_, fun t i hi => ?_⟩
  · rcases s.eq_or_eq_other t with rfl | rfl
    · rw [Cell.get_put]
      exact (h.sound t).edit hb l
    · rw [Cell.get_put_other]
      exact h.sound s.other
  · rcases s.eq_or_eq_other t with rfl | rfl
    · rw [Cell.get_put] at hi
      obtain ⟨place, hplace, hpresent, -⟩ := h.noted t i hi
      refine ⟨place.bind e.follow, by simp [hplace], fun j hj => ?_, fun hs => ?_⟩
      · obtain ⟨k, hk, hj⟩ := Option.bind_eq_some_iff.mp hj
        obtain ⟨p, hp⟩ := Option.isSome_iff_exists.mp (hpresent k hk)
        have hmoved := LibraryEdit.get?_follow hl hp hj
        simp [Cell.library, hmoved]
      · exact absurd (by simpa using Device.returnStack_of_not_busy hb) hs
    · obtain ⟨place, hplace, hpresent, hstack⟩ := h.noted s.other i (by simpa using hi)
      refine ⟨place, by simp [hplace], fun j hj => ?_, fun hs => hstack (by simpa using hs)⟩
      simpa [Cell.library] using hpresent j hj

theorem Reachable.kept (h : w.Reachable) : w.Kept := by
  induction h with
  | built registers first second arm =>
    refine ⟨Cell.sound_build registers first second arm, fun s i hi => ?_⟩
    cases s <;> cases hi
  | move _ hm ih => exact kept_move ih hm
  | edit _ s e ih => exact kept_edit ih s e

end Tracked

namespace Device

variable {σ : Type} {d : Device σ} {side : Side}

/-- The device goes on with the program that stands at this place, from the line on which it had
paused. -/
def ContinuesAt (d : Device σ) (paused : Execution) (place : Option Nat) : Prop :=
  ∃ i p, place = some i ∧ d.library.get? i = some p ∧
    d.execution = some (.start ⟨paused.program.device, i⟩ p paused.mode paused.current)

/-- A run begins in the program that it is given; where there is none, the device stays as it was. -/
theorem program_begin {x : Execution} (hx : d.execution = some x) {mode : RunMode} {i : Nat}
    {y : Execution} (hy : (d.begin x.program mode i).1.execution = some y) :
    y.program = x.program := by
  cases hp : d.library.get? x.program.index with
  | none =>
    simp only [begin, hp, hx, Option.some.injEq] at hy
    rw [hy]
  | some p =>
    rw [begin_of_some hp, Option.some.injEq] at hy
    rw [← hy]
    split_ifs
    · rfl
    · unfold Execution.start
      split_ifs <;> rfl

/-- The place at which a paused run stands is the one at which its device goes on. -/
theorem continuesAt_begin_iff (h : d.Sound side) {x : Execution} (hx : d.execution = some x)
    (hs : x.status = .done .stepped) {place : Option Nat}
    (hplace : ∀ j, place = some j → (d.library.get? j).isSome) :
    (d.begin x.program x.mode x.current).1.ContinuesAt x place ↔ place = some x.program.index := by
  constructor
  · rintro ⟨i, p, rfl, -, hrun⟩
    have hprogram := program_begin hx hrun
    have hi : (Execution.start ⟨x.program.device, i⟩ p x.mode x.current).program.index = i := by
      unfold Execution.start
      split_ifs <;> rfl
    rw [← hprogram, hi]
  · intro hindex
    obtain ⟨p, hp⟩ := Option.isSome_iff_exists.mp (hplace _ hindex)
    refine ⟨x.program.index, p, hindex, by rw [library_begin, hp], ?_⟩
    have hlines : ¬ (p.isEmpty && !d.returnStack.isEmpty) = true := by
      intro hempty
      obtain ⟨hnone, hcallers⟩ := Bool.and_eq_true_iff.mp hempty
      have hb : d.isBusy = true := by simpa [isBusy] using Or.inr hcallers
      have hlt := (h.line_of_standing hb hx hp (by simp [hs, Status.standing])).current_lt
      have hzero : p.lines.length = 0 := List.isEmpty_iff_length_eq_zero.mp hnone
      exact absurd hlt (by simp [Program.length, hzero])
    rw [begin_of_some hp, if_neg hlines]

end Device

namespace Tracked

variable {σ : Type} [MotionService σ] {w : Tracked σ}

/-- A paused device is never refused, and it goes on with the program on which it paused exactly if
that program stands where it stood when the device paused. With callers to return to it always does. -/
theorem Reachable.resume_iff (h : w.Reachable) {s : Side} {x : Execution}
    (hx : (w.cell.get s).execution = some x) (hs : x.status = .done .stepped) :
    ∃ place d trace, w.place s = some place ∧ (w.cell.get s).resume = .ok (d, trace) ∧
      (d.ContinuesAt x place ↔ place = some x.program.index) ∧
      ((w.cell.get s).returnStack ≠ [] → place = some x.program.index) := by
  have hk := h.kept
  have hpaused : (w.cell.get s).pausedOn? = some x.program.index :=
    Device.pausedOn?_eq_some.mpr ⟨x, hx, hs, rfl⟩
  obtain ⟨place, hplace, hpresent, hstack⟩ := hk.noted s _ hpaused
  have hresume : (w.cell.get s).resume =
      .ok ((w.cell.get s).begin x.program x.mode x.current) := by
    simp [Device.resume, hx, hs]
  exact ⟨place, _, _, hplace, hresume,
    Device.continuesAt_begin_iff (hk.sound s) hx hs hpresent, hstack⟩

/-- The first device has paused in `MAIN`, between two other programs. -/
def pausedInMain : Tracked InstantArm :=
  let lines : List Action := [.blank, .blank, .blank]
  let w : Tracked InstantArm := { cell := (Cell.build (.ofSizes 0 0 0)
    ⟨[.written "FIRST" lines, .written "MAIN" lines, .written "OTHER" lines]⟩ {} fun _ => {}).1 }
  (w.move (.start .first "MAIN" .singleStep 0)).move (.tick .first)

theorem reachable_pausedInMain : pausedInMain.Reachable :=
  .move (.move (.built _ _ _ _) rfl) rfl

/-- Programs are added, renamed and taken out behind `MAIN`, which goes on all the same. -/
theorem resume_iff_editedBehind :
    let w := ((pausedInMain.edit .first (.add (.named "NEW"))).edit .first (.rename 1 "WORK")).edit
      .first (.remove 2)
    let x : Execution := ⟨⟨0, 1⟩, 1, 2, .singleStep, .done .stepped⟩
    w.Reachable ∧ w.cell.first.execution = some x ∧ w.place .first = some (some 1) ∧
      ∃ d trace, w.cell.first.resume = .ok (d, trace) ∧ d.ContinuesAt x (some 1) := by
  intro w x
  have hw : w.Reachable := .edit (.edit (.edit reachable_pausedInMain _ _) _ _) _ _
  have hx : w.cell.first.execution = some x := by decide
  have hp : w.place .first = some (some 1) := by decide
  obtain ⟨place, d, trace, hplace, hresume, hiff, -⟩ :=
    Reachable.resume_iff hw (s := .first) (x := x) hx rfl
  obtain rfl : some 1 = place := Option.some.inj (hp.symm.trans hplace)
  exact ⟨hw, hx, hp, d, trace, hresume, hiff.mpr rfl⟩

/-- The program before `MAIN` is taken out, so that `MAIN` moves down; resumed, the device goes on
with `OTHER`. It is not refused either when it is `MAIN` that is taken out. -/
theorem other_program_resumed :
    (∃ w : Tracked InstantArm, w.Reachable ∧ w.place .first = some (some 0) ∧
      (w.cell.first.library.get? 0).map (·.name) = some "MAIN" ∧
      ∃ d trace, w.cell.first.resume = .ok (d, trace) ∧
        d.execution = some ⟨⟨0, 1⟩, 1, 2, .singleStep, .running⟩ ∧
        (d.library.get? 1).map (·.name) = some "OTHER") ∧
    ∃ w : Tracked InstantArm, w.Reachable ∧ w.place .first = some none ∧
      ∃ d trace, w.cell.first.resume = .ok (d, trace) ∧
        d.execution = some ⟨⟨0, 1⟩, 1, 2, .singleStep, .running⟩ ∧
        (d.library.get? 1).map (·.name) = some "OTHER" := by
  refine ⟨⟨pausedInMain.edit .first (.remove 0), .edit reachable_pausedInMain _ _, by decide,
    by decide, _, _, rfl, by decide, by decide⟩, ?_⟩
  exact ⟨pausedInMain.edit .first (.remove 1), .edit reachable_pausedInMain _ _, by decide,
    _, _, rfl, by decide, by decide⟩

end Tracked

end TeachPendant
