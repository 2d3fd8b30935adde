import TeachPendant.Proofs.Cell.CallNumbers

namespace TeachPendant

namespace Device

variable {σ : Type}

/-- A call that returns does not fail. -/
theorem status_resumeAfterCall_ne {d : Device σ} {side : Side} (h : d.Sound side)
    (hs : d.status? = some .awaitingCall) (cause : Error) :
    d.resumeAfterCall.status? ≠ some (.fault cause) := by
  obtain ⟨x, hx, hxs⟩ := Option.map_eq_some_iff.mp hs
  have hb := isBusy_of_running hx (by simp [hxs, Status.isTerminal])
  obtain ⟨p, hp, hl⟩ := h.runs hb x hx
  have hm := ((hl (by simp [hxs, Status.standing])).withStatus .running).settled_moveOn rfl
  have hd : d.resumeAfterCall.status? =
      some (({ x with status := .running } : Execution).moveOn p).status := by
    simp [resumeAfterCall, Execution.resumeAfterCall, status?, hx, hp, hxs]
  intro hf
  have he := Option.some.inj (hd.symm.trans hf)
  have hn := hm.not_broken
  rw [he] at hn
  cases hn

end Device

namespace Cell

variable {σ : Type} [MotionService σ]

/-- A waiting device does not fail a call of its own. -/
theorem not_callFailed_of_own_tick {c : Cell σ} (hc : c.Sound) {s : Side} {id : UInt8}
    {reason : String} (hs : (c.get s).status? = some .awaitingCall) :
    ((c.tickSide s).1.get s).status? ≠ some (.fault (.callFailed id reason)) := by
  obtain ⟨hd, he⟩ := (hc s).tick_of_waiting c.registers hs
  have hsame : (c.tickSide s).1.get s = ((c.get s).tick c.registers).device := by
    rcases he with he | ⟨told, he⟩
    · simp [tickSide, he, route]
    · simp only [tickSide, he, route, routeFailure, Side.ofId?_id]
      split_ifs <;> simp [failSide]
  rw [hsame, hd]
  simp

/-- Only the report of the other device fails the call that a device waits for. -/
theorem reported_of_callFailed {c : Cell σ} (hc : c.Sound) {t r : Side} {id : UInt8}
    {reason : String} (hs : (c.get t).status? = some .awaitingCall)
    (hf : ((c.tickSide r).1.get t).status? = some (.fault (.callFailed id reason))) :
    r = t.other ∧ id = r.id ∧ (c.get r).abandoned = some (t.id, reason) := by
  rcases r.eq_or_eq_other t with rfl | rfl
  · exact absurd hf (not_callFailed_of_own_tick hc hs)
  refine ⟨(Side.other_other r).symm, ?_⟩
  have ha := Device.answers_tick (hc r) c.registers
  have hwaits (h : (c.get r.other).status? = some (.fault (.callFailed id reason))) : False :=
    nomatch hs.symm.trans h
  simp only [tickSide] at hf
  generalize (c.get r).tick c.registers = u at ha hf
  obtain ⟨d, registers, event, trace⟩ := u
  cases event with
  | idle | busy => exact (hwaits (by simpa [route] using hf)).elim
  | crossCall target frame =>
    -- The device that waits is busy, so it takes no call and the caller breaks off.
    have hbusy : (c.get r.other).isBusy = true := by
      simp [Device.isBusy, Device.isActive, hs, Status.isTerminal]
    simp only [route, routeCall] at hf
    split at hf
    · exact (hwaits (by simpa [failSide] using hf)).elim
    · next callee hcallee =>
      obtain rfl : callee = r.other := Side.eq_other_of_ofId? hcallee ((hc r).id_eq ▸ ha.1)
      simp [Device.acceptCall, hbusy, failSide] at hf
      exact (hwaits hf).elim
  | callFailed caller told =>
    obtain ⟨hreport, -⟩ := ha
    obtain rfl : caller = r.other.id := (hc r).report caller told hreport
    simp only [route, routeFailure, Side.ofId?_id, get_registers, get_put_other, hs, if_true,
      failSide, get_put, Device.status?_fail, Option.map_some] at hf
    cases hf
    exact ⟨rfl, hreport⟩
  | returned frame =>
    have hd : frame.device = r.other.id := (hc r).toFramed.device_of_caller ha.1
    simp only [route, routeReturn, hd, Side.ofId?_id, get_put, get_registers, get_put_other] at hf
    exact absurd hf (Device.status_resumeAfterCall_ne (hc r.other) hs _)

end Cell

/-- A cell with the numbers of the calls that were made since it was built. -/
structure Watched (σ : Type) where
  cell : Cell σ
  calls : Ledger := {}

namespace Watched

variable {σ : Type} [MotionService σ]

def move (w : Watched σ) (m : Cell.Move σ) : Watched σ :=
  ⟨w.cell.move m, w.calls.note w.cell.bonds (w.cell.move m).bonds⟩

def moves (w : Watched σ) (ms : List (Cell.Move σ)) : Watched σ := ms.foldl move w

def operate (w : Watched σ) (ks : List (Cell.Command σ)) : Watched σ :=
  w.moves (ks.flatMap Cell.Command.moves)

/-- Reached from a cell just built, by moves in any order; so also between the two halves of a
tick. -/
def Reachable (w : Watched σ) : Prop :=
  ∃ registers first second arm ms,
    w = moves { cell := (Cell.build registers first second arm).1 } ms

theorem cell_moves (w : Watched σ) (ms : List (Cell.Move σ)) :
    (w.moves ms).cell = ms.foldl Cell.move w.cell := by
  induction ms generalizing w with
  | nil => rfl
  | cons m ms ih => exact ih (w.move m)

/-- Watching does not change what a cell does. -/
theorem cell_operate (w : Watched σ) (ks : List (Cell.Command σ)) :
    (w.operate ks).cell = w.cell.operate ks := by
  rw [operate, cell_moves, Cell.operate_eq_moves]

theorem exists_watched {c : Cell σ} (h : c.Reachable) : ∃ w : Watched σ, w.Reachable ∧ w.cell = c := by
  obtain ⟨registers, first, second, arm, ks, rfl⟩ := h
  exact ⟨operate { cell := (Cell.build registers first second arm).1 } ks,
    ⟨registers, first, second, arm, _, rfl⟩, cell_operate _ ks⟩

theorem kept_moves {w : Watched σ} (hs : w.cell.Sound) (hk : w.calls.Kept w.cell.bonds)
    (ms : List (Cell.Move σ)) :
    (w.moves ms).cell.Sound ∧ (w.moves ms).calls.Kept (w.moves ms).cell.bonds := by
  induction ms generalizing w with
  | nil => exact ⟨hs, hk⟩
  | cons m ms ih =>
    have hm : (w.move m).cell.Sound := hs.move m
    exact ih hm (hk.exchange (hs.exchange m))

theorem Reachable.kept {w : Watched σ} (h : w.Reachable) :
    w.cell.Sound ∧ w.calls.Kept w.cell.bonds := by
  obtain ⟨registers, first, second, arm, ms, rfl⟩ := h
  refine kept_moves (Cell.sound_build registers first second arm) ⟨fun s => ?_, ?_, ?_, ?_⟩ ms
  · cases s <;> exact ⟨rfl, rfl, rfl⟩
  all_goals simp

/-- A report fails the call that it is about, unless the device that reports has taken a later call
from the same caller by then: it fails that one instead. -/
theorem Reachable.report_iff {w : Watched σ} (h : w.Reachable) {t r : Side} {id : UInt8}
    {reason : String} (hs : (w.cell.get t).status? = some .awaitingCall)
    (hf : ((w.move (.tick r)).cell.get t).status? = some (.fault (.callFailed id reason))) :
    r = t.other ∧ id = r.id ∧ ∃ m n, (w.calls.of r).report = some m ∧
      (w.calls.of t).waits = some n ∧ m ≤ n ∧ (m = n ↔ (w.cell.get r).caller? = none) := by
  obtain ⟨hsound, hk⟩ := h.kept
  obtain ⟨rfl, hid, hreport⟩ := Cell.reported_of_callFailed hsound hs hf
  refine ⟨rfl, hid, ?_⟩
  have hserves : (w.calls.of t.other).serves.isSome = (w.cell.get t.other).caller?.isSome :=
    (hk.fit t.other).serves
  have hdropped : (w.calls.of t.other).report.isSome = true := by
    rw [(hk.fit t.other).report]
    simp [Cell.bonds, Device.bond, hreport]
  have hwaiting : (w.calls.of t).waits.isSome = true := by
    rw [(hk.fit t).waits, Option.isSome_iff_ne_none]
    exact fun hn => (Device.waiting?_eq_none_iff _).mp hn hs
  obtain ⟨m, hm⟩ := Option.isSome_iff_exists.mp hdropped
  obtain ⟨n, hn⟩ := Option.isSome_iff_exists.mp hwaiting
  refine ⟨m, n, hm, hn, ?_⟩
  rcases hk.answered t n hn with hc | ⟨hc, hr⟩
  · have hlt : m < n := hk.older t.other m n hm hc
    have hcaller : (w.cell.get t.other).caller? ≠ none := by
      rw [← Option.isSome_iff_ne_none, ← hserves, hc]
      rfl
    exact ⟨by omega, by simp [hcaller]; omega⟩
  · obtain rfl : m = n := Option.some.inj (hm.symm.trans hr)
    have hcaller : (w.cell.get t.other).caller? = none := by
      rw [hc] at hserves
      exact Option.isNone_iff_eq_none.mp (by simpa using hserves.symm)
    simp [hcaller]

/-- The first device calls the second one; after these commands the first half of a tick is made. -/
def halfway (ks : List (Cell.Command InstantArm)) : Watched InstantArm :=
  moves { cell := Cell.oneCall } (ks.flatMap Cell.Command.moves ++ [.tick .first])

/-- The call is dropped and its caller is told. -/
theorem report_iff_halted :
    let w := halfway [.start 0 "MAIN" .full 0, .tick, .halt 1]
    (w.cell.get .first).status? = some .awaitingCall ∧
      ((w.move (.tick .second)).cell.get .first).status? =
        some (.fault (.callFailed 1 "halted")) ∧
      ∃ m n, (w.calls.of .second).report = some m ∧ (w.calls.of .first).waits = some n ∧ m ≤ n ∧
        (m = n ↔ (w.cell.get .second).caller? = none) := by
  intro w
  have hw : w.Reachable := ⟨_, _, _, _, _, rfl⟩
  have hs : (w.cell.get .first).status? = some .awaitingCall := by decide
  have hf : ((w.move (.tick .second)).cell.get .first).status? =
      some (.fault (.callFailed 1 "halted")) := by decide
  obtain ⟨-, -, hnumbers⟩ := Reachable.report_iff hw hs hf
  exact ⟨hs, hf, hnumbers⟩

/-- Both devices are halted, and the program that calls is started again: the report of the first
call fails the second one, which the other device goes on to work for. -/
theorem stale_report_restarted :
    let w := halfway [.start 0 "MAIN" .full 0, .tick, .haltAll, .start 0 "MAIN" .full 0]
    (w.cell.get .first).status? = some .awaitingCall ∧
      ((w.move (.tick .second)).cell.get .first).status? =
        some (.fault (.callFailed 1 "halted")) ∧
      ((w.move (.tick .second)).cell.get .second).status? = some .running ∧
      (w.calls.of .second).report = some 0 ∧ (w.calls.of .first).waits = some 1 ∧
      (w.calls.of .second).serves = some 1 := by
  decide

end Watched

end TeachPendant
