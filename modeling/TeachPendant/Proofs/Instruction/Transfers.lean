import Mathlib.Tactic.SplitIfs
import TeachPendant.Instruction.Execute

namespace TeachPendant

/-- Whether the flow leaves the order of the lines. -/
def Flow.isTransfer : Flow → Bool
  | .jump _ | .call _ => true
  | .next | .move _ => false

namespace Instruction

mutual

/-- The jumps and calls in order, those of nested instructions included and those of commented ones
left out. -/
def transfers : Instruction → List Flow
  | .mk action commented => if commented then [] else actionTransfers action

def actionTransfers : Action → List Flow
  | .jump label => [.jump label]
  | .call target => [.call target]
  | .ifThen _ body => body.transfers
  | .select _ cases => caseTransfers cases
  | _ => []

def caseTransfers : List SelectCase → List Flow
  | [] => []
  | .mk _ body :: rest => body.transfers ++ caseTransfers rest

end

section Made

variable {c : Context} {table : PositionTable} {effect : Effect}

mutual

/-- A transfer that is made stands in the instruction. -/
theorem transfer_mem : ∀ i : Instruction, i.execute c table = .ok effect →
    effect.flow.isTransfer = true → effect.flow ∈ i.transfers
  | .mk action commented, h, hf => by
    simp only [Instruction.execute] at h
    split_ifs at h with hcommented
    · cases h
      cases hf
    · rw [transfers, if_neg hcommented]
      exact actionTransfer_mem action h hf

theorem actionTransfer_mem : ∀ action : Action, action.execute c table = .ok effect →
    effect.flow.isTransfer = true → effect.flow ∈ actionTransfers action
  | .blank, h, hf | .label _, h, hf => by
    cases h
    cases hf
  | .jump label, h, hf => by
    cases h
    exact List.mem_singleton_self _
  | .call t, h, hf => by
    cases h
    exact List.mem_singleton_self _
  | .motion _, h, hf | .selectFrame _ _, h, hf | .setIo _ _, h, hf => by
    simp only [Action.execute, bind, Except.bind] at h
    split at h <;> cases h
    cases hf
  | .assign place expression, h, hf => by
    simp only [Action.execute, bind, Except.bind] at h
    split at h
    · cases h
    · split at h <;> cases h
      cases hf
  | .ifThen condition body, h, hf => by
    simp only [Action.execute] at h
    split at h
    · cases h
    · exact transfer_mem body h hf
    · cases h
      cases hf
    · cases h
  | .select argument cases, h, hf => by
    simp only [Action.execute] at h
    exact caseTransfer_mem cases h hf

theorem caseTransfer_mem {argument : Operand} : ∀ cases : List SelectCase,
    executeCases c table argument cases = .ok effect → effect.flow.isTransfer = true →
    effect.flow ∈ caseTransfers cases
  | [], h, hf => by
    cases h
    cases hf
  | .mk value body :: rest, h, hf => by
    simp only [executeCases] at h
    split_ifs at h
    · exact List.mem_append_left _ (transfer_mem body h hf)
    · cases h
      cases hf
    · exact List.mem_append_right _ (caseTransfer_mem rest h hf)

end

end Made

end Instruction

end TeachPendant
