import TeachPendant.Linking
import TeachPendant.Proofs.Cell.Line
import TeachPendant.Proofs.Instruction.Errors

namespace TeachPendant

namespace Instruction

section Made

variable {c : Context} {table : PositionTable} {effect : Effect} {target : CallTarget}

mutual

/-- A call that is made stands in the instruction. -/
theorem call_mem : ∀ i : Instruction, i.execute c table = .ok effect → effect.flow = .call target →
    target ∈ i.calls
  | .mk action commented, h, hf => by
    simp only [Instruction.execute] at h
    split_ifs at h
    · cases h
      cases hf
    · exact actionCall_mem action h hf

theorem actionCall_mem : ∀ action : Action, action.execute c table = .ok effect →
    effect.flow = .call target → target ∈ actionCalls action
  | .blank, h, hf | .label _, h, hf | .jump _, h, hf => by
    cases h
    cases hf
  | .call t, h, hf => by
    cases h
    cases hf
    exact List.mem_singleton_self target
  | .motion _, h, hf | .selectFrame _ _, h, hf | .setIo _ _, h, hf => by
    simp only [Action.execute, bind, Except.bind] at h
    split at h <;> cases h
    cases hf
  | .assign place expression, h, hf => by
    simp only [Action.execute, bind, Except.bind] at h
    split at h
    · cases h
    · split at h <;> cases h
      cases hf
  | .ifThen condition body, h, hf => by
    simp only [Action.execute] at h
    split at h
    · cases h
    · exact call_mem body h hf
    · cases h
      cases hf
    · cases h
  | .select argument cases, h, hf => by
    simp only [Action.execute] at h
    exact caseCall_mem cases h hf

theorem caseCall_mem {argument : Operand} : ∀ cases : List SelectCase,
    executeCases c table argument cases = .ok effect → effect.flow = .call target →
    target ∈ caseCalls cases
  | [], h, hf => by
    cases h
    cases hf
  | .mk value body :: rest, h, hf => by
    simp only [executeCases] at h
    split_ifs at h
    · exact List.mem_append_left _ (call_mem body h hf)
    · cases h
      cases hf
    · exact List.mem_append_right _ (caseCall_mem rest h hf)

end

end Made

section Mapped

variable (f : CallTarget → CallTarget)

mutual

@[simp] theorem calls_mapCalls : ∀ i : Instruction, (i.mapCalls f).calls = i.calls.map f
  | .mk action _ => actionCalls_mapCalls action

theorem actionCalls_mapCalls : ∀ action : Action,
    actionCalls (mapActionCalls f action) = (actionCalls action).map f
  | .call _ => rfl
  | .ifThen _ body => calls_mapCalls body
  | .select _ cases => caseCalls_mapCalls cases
  | .blank | .motion _ | .selectFrame _ _ | .setIo _ _ | .label _ | .jump _ | .assign _ _ => rfl

theorem caseCalls_mapCalls : ∀ cases : List SelectCase,
    caseCalls (mapCaseCalls f cases) = (caseCalls cases).map f
  | [] => rfl
  | .mk _ body :: rest => by
    rw [mapCaseCalls, caseCalls, caseCalls, calls_mapCalls body, caseCalls_mapCalls rest,
      List.map_append]

end

end Mapped

end Instruction

@[simp] theorem Program.calls_mapCalls (p : Program) (f : CallTarget → CallTarget) :
    (p.mapCalls f).calls = p.calls.map f := by
  simp [Program.calls, Program.mapCalls, List.flatMap_map, List.map_flatMap]

@[simp] theorem Library.calls_mapCalls (l : Library) (f : CallTarget → CallTarget) :
    (l.mapCalls f).calls = l.calls.map f := by
  simp [Library.calls, Library.mapCalls, List.flatMap_map, List.map_flatMap]

/-- The calls of a line stand in the library. -/
theorem Library.mem_calls {l : Library} {p : Program} {i : Instruction} {index line : Nat}
    {target : CallTarget} (hp : l.get? index = some p) (hi : p.instruction? line = some i)
    (ht : target ∈ i.calls) : target ∈ l.calls := by
  obtain ⟨entry, hentry, rfl⟩ := Option.map_eq_some_iff.mp hi
  have hline : target ∈ p.calls :=
    List.mem_flatMap.mpr ⟨entry, List.mem_of_getElem? hentry, ht⟩
  exact List.mem_flatMap.mpr ⟨p, List.mem_of_getElem? hp, hline⟩

/-- A run that broke off at a call with nowhere to go. -/
def Status.unresolved : Status → Bool
  | .fault (.unresolvedCall _ _) => true
  | _ => false

namespace Execution

/-- The call that the current line makes, with a link or without. -/
def call? (x : Execution) (p : Program) (c : Context) : Option CallTarget :=
  if x.status ≠ .running then none
  else
    match p.instruction? x.current with
    | none => none
    | some i =>
      if x.mode = .backward ∧ ¬ i.isMotion then none
      else
        match i.execute c p.positions with
        | .error _ => none
        | .ok effect =>
          match effect.flow with
          | .call target => some target
          | .next | .jump _ | .move _ => none

theorem moveOn_resolved {x : Execution} (p : Program) (h : x.status.unresolved = false) :
    (x.moveOn p).status.unresolved = false := by
  unfold moveOn
  split_ifs
  · rfl
  · rfl
  · exact h
  · rfl

variable {σ : Type} [MotionService σ] {x : Execution} {p : Program}

theorem of_call? {c : Context} {target : CallTarget} (h : x.call? p c = some target) :
    x.status = .running ∧ ∃ i effect, p.instruction? x.current = some i ∧
      ¬ (x.mode = .backward ∧ ¬ i.isMotion) ∧ i.execute c p.positions = .ok effect ∧
      effect.flow = .call target := by
  unfold call? at h
  split_ifs at h with hs
  cases hi : p.instruction? x.current with
  | none => simp [hi] at h
  | some i =>
    simp only [hi] at h
    split_ifs at h with hb
    cases he : i.execute c p.positions with
    | error e => simp [he] at h
    | ok effect =>
      simp only [he] at h
      refine ⟨Decidable.not_not.mp hs, i, effect, rfl, hb, he, ?_⟩
      cases hf : effect.flow with
      | next | jump | move => simp [hf] at h
      | call t =>
        rw [hf] at h
        rw [Option.some.inj h]

theorem step_of_call? {c : Context} {target : CallTarget} (h : x.call? p c = some target)
    (arm : σ) : ∃ effect, effect.flow = .call target ∧ x.step p c arm = x.follow p effect arm := by
  obtain ⟨hs, i, effect, hi, hb, he, hf⟩ := of_call? h
  refine ⟨effect, hf, ?_⟩
  simp only [step, hs, ne_eq, not_true_eq_false, if_false, hi, if_neg hb, he]

/-- A step hands out the call of the line, if the call has a link, and no other. -/
theorem call_step (x : Execution) (p : Program) (c : Context) (arm : σ) :
    (x.step p c arm).call = (x.call? p c).filter (·.link.isSome) := by
  unfold step call?
  split_ifs with hs
  · rfl
  · cases p.instruction? x.current with
    | none => rfl
    | some i =>
      dsimp only
      split_ifs with hb
      · rfl
      · cases i.execute c p.positions with
        | error e =>
          dsimp only
          split_ifs <;> rfl
        | ok effect =>
          simp only [follow]
          cases effect.flow with
          | next | move => rfl
          | jump label =>
            dsimp only
            cases p.findLabel label <;> rfl
          | call t => cases hk : t.link <;> simp [Option.filter, hk]

/-- A step makes a call only through a linked call instruction on its line. -/
theorem call_of_step {c : Context} {arm : σ} {target : CallTarget}
    (h : (x.step p c arm).call = some target) :
    ∃ i effect, p.instruction? x.current = some i ∧ i.execute c p.positions = .ok effect ∧
      effect.flow = .call target ∧ target.link.isSome := by
  rw [call_step, Option.filter_eq_some_iff] at h
  obtain ⟨-, i, effect, hi, -, he, hf⟩ := of_call? h.1
  exact ⟨i, effect, hi, he, hf, h.2⟩

theorem call_of_follow_unresolved {effect : Effect} {arm : σ} (hx : x.status.unresolved = false)
    (h : (x.follow p effect arm).execution.status.unresolved = true) :
    ∃ target, effect.flow = .call target ∧ target.link = none := by
  unfold follow at h
  cases hf : effect.flow with
  | next =>
    simp only [hf, moveOn_resolved p hx] at h
    cases h
  | jump label =>
    simp only [hf] at h
    split at h
    · next i hi =>
      have hjump : ({ x with next := i } : Execution).status.unresolved = false := hx
      rw [moveOn_resolved p hjump] at h
      cases h
    · cases h
  | move m =>
    rw [hf] at h
    cases h
  | call target =>
    refine ⟨target, rfl, ?_⟩
    cases hk : target.link with
    | none => rfl
    | some ref =>
      simp only [hf, hk] at h
      cases h

/-- A running program breaks off in this way only at a call that has no link. -/
theorem call_of_step_unresolved {c : Context} {arm : σ} (hs : x.status = .running)
    (h : (x.step p c arm).execution.status.unresolved = true) :
    ∃ i target, p.instruction? x.current = some i ∧ target ∈ i.calls ∧ target.link = none := by
  have hx : x.status.unresolved = false := by
    rw [hs]
    rfl
  have hmove : (x.moveOn p).status.unresolved = false := moveOn_resolved p hx
  have hstep := stepped x p c arm
  generalize x.step p c arm = s at hstep h
  cases hstep with
  | stopped hstopped => exact absurd hs hstopped
  | lost => cases h
  | passed | skipped => exact absurd (hmove.symm.trans h) nofun
  | broken _ _ _ he hfatal =>
    have hskipped := Instruction.execute_fails c p.positions _ _ he
    exact absurd (hfatal.symm.trans hskipped) nofun
  | followed _ hi _ he =>
    obtain ⟨target, hf, hk⟩ := call_of_follow_unresolved hx h
    exact ⟨_, target, hi, Instruction.call_mem _ he hf, hk⟩

end Execution

end TeachPendant
