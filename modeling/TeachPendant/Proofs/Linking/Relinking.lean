import TeachPendant.Proofs.Linking.Calls

namespace TeachPendant

/-- Induction over an instruction and the instructions in it. -/
theorem Instruction.induction {P : Instruction → Prop}
    (single : ∀ action commented, (∀ condition body, action ≠ .ifThen condition body) →
      (∀ argument cases, action ≠ .select argument cases) → P (.mk action commented))
    (ifThen : ∀ condition body commented, P body → P (.mk (.ifThen condition body) commented))
    (select : ∀ argument cases commented, (∀ value body, .mk value body ∈ cases → P body) →
      P (.mk (.select argument cases) commented))
    (i : Instruction) : P i := by
  induction hn : sizeOf i using Nat.strongRecOn generalizing i with
  | ind n ih =>
    subst hn
    obtain ⟨action, commented⟩ := i
    cases action with
    | ifThen condition body =>
      have hs : sizeOf (Instruction.mk (.ifThen condition body) commented) =
          1 + (1 + sizeOf condition + sizeOf body) + sizeOf commented := by
        rw [Instruction.mk.sizeOf_spec, Action.ifThen.sizeOf_spec]
      have hb : P body := ih (sizeOf body) (by omega) body rfl
      exact ifThen condition body commented hb
    | select argument cases =>
      have hs : sizeOf (Instruction.mk (.select argument cases) commented) =
          1 + (1 + sizeOf argument + sizeOf cases) + sizeOf commented := by
        rw [Instruction.mk.sizeOf_spec, Action.select.sizeOf_spec]
      refine select argument cases commented fun value body hm => ?_
      have hc := List.sizeOf_lt_of_mem hm
      rw [SelectCase.mk.sizeOf_spec] at hc
      exact ih (sizeOf body) (by omega) body rfl
    | _ => exact single _ _ nofun nofun

/-- Changes every call target of one case. -/
def SelectCase.mapCalls (f : CallTarget → CallTarget) : SelectCase → SelectCase
  | .mk value body => .mk value (body.mapCalls f)

namespace Instruction

theorem mapCaseCalls_eq (f : CallTarget → CallTarget) (cases : List SelectCase) :
    mapCaseCalls f cases = cases.map (SelectCase.mapCalls f) := by
  induction cases with
  | nil => rfl
  | cons c cases ih =>
    obtain ⟨value, body⟩ := c
    rw [mapCaseCalls, ih, List.map_cons, SelectCase.mapCalls]

theorem mapCalls_mapCalls (f g : CallTarget → CallTarget) (i : Instruction) :
    (i.mapCalls f).mapCalls g = i.mapCalls fun t => g (f t) := by
  induction i using Instruction.induction with
  | single action commented hi hs =>
    cases action with
    | ifThen condition body => exact absurd rfl (hi condition body)
    | select argument cases => exact absurd rfl (hs argument cases)
    | _ => simp [mapCalls, mapActionCalls]
  | ifThen condition body commented hb => simp [mapCalls, mapActionCalls, hb]
  | select argument cases commented hb =>
    have hc : ∀ c ∈ cases, (c.mapCalls f).mapCalls g = c.mapCalls fun t => g (f t) := by
      rintro ⟨value, body⟩ hm
      simp [SelectCase.mapCalls, hb value body hm]
    simpa [mapCalls, mapActionCalls, mapCaseCalls_eq] using hc

end Instruction

theorem Program.mapCalls_mapCalls (f g : CallTarget → CallTarget) (p : Program) :
    (p.mapCalls f).mapCalls g = p.mapCalls fun t => g (f t) := by
  simp [mapCalls, Instruction.mapCalls_mapCalls]

theorem Library.mapCalls_mapCalls (f g : CallTarget → CallTarget) (l : Library) :
    (l.mapCalls f).mapCalls g = l.mapCalls fun t => g (f t) := by
  simp [mapCalls, Program.mapCalls_mapCalls]

/-- A call as it is written. -/
def CallTarget.unlinked (t : CallTarget) : CallTarget := { t with link := none }

namespace Linking

variable {f : CallTarget → CallTarget} {t : CallTarget}

@[simp] theorem lastNamed_mapCalls (name : String) (i : Nat) (ps : List Program) :
    lastNamed name i (ps.map (·.mapCalls f)) = lastNamed name i ps := by
  induction ps generalizing i with
  | nil => rfl
  | cons p ps ih =>
    rw [List.map_cons, lastNamed, lastNamed, ih]
    rfl

@[simp] theorem linkFrom_mapCalls (d : Nat) (libraries : List Library) :
    linkFrom t d (libraries.map (·.mapCalls f)) = linkFrom t d libraries := by
  induction libraries generalizing d with
  | nil => rfl
  | cons l libraries ih =>
    rw [List.map_cons, linkFrom, linkFrom, ih, Library.mapCalls, lastNamed_mapCalls]

theorem linkFrom_unlinked (d : Nat) (libraries : List Library) :
    linkFrom t.unlinked d libraries = linkFrom t d libraries := by
  induction libraries generalizing d with
  | nil => rfl
  | cons l libraries ih =>
    rw [linkFrom, linkFrom, ih]
    rfl

theorem linkTarget_unlinked (libraries : List Library) :
    linkTarget libraries t.unlinked = linkTarget libraries t := by
  rw [linkTarget, linkTarget, linkOf, linkFrom_unlinked]
  rfl

theorem linkTarget_mapCalls (hf : ∀ t, (f t).unlinked = t.unlinked) (libraries : List Library) :
    linkTarget (libraries.map (·.mapCalls f)) (f t) = linkTarget libraries t := by
  rw [← linkTarget_unlinked, hf, linkTarget_unlinked, linkTarget, linkOf, linkFrom_mapCalls]
  rfl

end Linking

open Linking

/-- Libraries that differ in the links of their calls alone are linked alike. -/
theorem linkCalls_mapCalls {f : CallTarget → CallTarget} (hf : ∀ t, (f t).unlinked = t.unlinked)
    (libraries : List Library) :
    linkCalls (libraries.map (·.mapCalls f)) = linkCalls libraries := by
  have hk (t : CallTarget) : linkOf (libraries.map (·.mapCalls f)) (f t) = linkOf libraries t :=
    congrArg CallTarget.link (linkTarget_mapCalls hf libraries)
  have hp (t : CallTarget) : (f t).program = t.program := by
    show (f t).unlinked.program = t.unlinked.program
    rw [hf]
  have hd (t : CallTarget) : (f t).device = t.device := by
    show (f t).unlinked.device = t.unlinked.device
    rw [hf]
  have hc : ((libraries.map (·.mapCalls f)).flatMap (·.calls)) =
      (libraries.flatMap (·.calls)).map f := by
    simp [List.flatMap_map, List.map_flatMap]
  rw [linkCalls, linkCalls, hc]
  refine Prod.ext ?_ ?_
  · simp [Library.mapCalls_mapCalls, linkTarget_mapCalls hf]
  · simp [List.filter_map, hk, hp, hd, Function.comp_def]

theorem linkCalls_linkCalls (libraries : List Library) :
    linkCalls (linkCalls libraries).1 = linkCalls libraries :=
  linkCalls_mapCalls (f := linkTarget libraries) (fun _ => rfl) libraries

end TeachPendant
