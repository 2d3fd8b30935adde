import Mathlib.Data.List.Forall2
import TeachPendant.Proofs.Linking.Relinking

namespace TeachPendant

/-- The calls name the same program of the same device. -/
structure CallTarget.SameButLink (t u : CallTarget) : Prop where
  program : t.program = u.program
  device : t.device = u.device

mutual

/-- The instructions differ in the links of calls at most. -/
inductive Instruction.SameButLinks : Instruction → Instruction → Prop
  | mk (commented : Bool) {action action' : Action} (h : Action.SameButLinks action action') :
      Instruction.SameButLinks (.mk action commented) (.mk action' commented)

inductive Action.SameButLinks : Action → Action → Prop
  | same (action : Action) : Action.SameButLinks action action
  | call {target target' : CallTarget} (h : target.SameButLink target') :
      Action.SameButLinks (.call target) (.call target')
  | ifThen (condition : Expression) {body body' : Instruction}
      (h : Instruction.SameButLinks body body') :
      Action.SameButLinks (.ifThen condition body) (.ifThen condition body')
  | select (argument : Operand) {cases cases' : List SelectCase}
      (h : CasesSameButLinks cases cases') :
      Action.SameButLinks (.select argument cases) (.select argument cases')

inductive CasesSameButLinks : List SelectCase → List SelectCase → Prop
  | nil : CasesSameButLinks [] []
  | cons (value : Operand) {body body' : Instruction} {rest rest' : List SelectCase}
      (h : Instruction.SameButLinks body body') (hrest : CasesSameButLinks rest rest') :
      CasesSameButLinks (.mk value body :: rest) (.mk value body' :: rest')

end

theorem CallTarget.sameButLink_iff {t u : CallTarget} :
    t.SameButLink u ↔ t.unlinked = u.unlinked := by
  obtain ⟨program, device, link⟩ := t
  obtain ⟨program', device', link'⟩ := u
  constructor
  · rintro ⟨rfl, rfl⟩
    rfl
  · intro h
    cases h
    exact ⟨rfl, rfl⟩

namespace Instruction.SameButLinks

mutual

theorem unlinked_eq : ∀ {i j : Instruction}, i.SameButLinks j →
    i.mapCalls .unlinked = j.mapCalls .unlinked
  | _, _, .mk commented h => by rw [mapCalls, mapCalls, action_eq h]

theorem action_eq : ∀ {a b : Action}, a.SameButLinks b →
    mapActionCalls .unlinked a = mapActionCalls .unlinked b
  | _, _, .same action => rfl
  | _, _, .call h => congrArg Action.call (CallTarget.sameButLink_iff.mp h)
  | _, _, .ifThen condition h => by rw [mapActionCalls, mapActionCalls, unlinked_eq h]
  | _, _, .select argument h => by rw [mapActionCalls, mapActionCalls, cases_eq h]

theorem cases_eq : ∀ {cs ds : List SelectCase}, CasesSameButLinks cs ds →
    mapCaseCalls .unlinked cs = mapCaseCalls .unlinked ds
  | _, _, .nil => rfl
  | _, _, .cons value h hrest => by rw [mapCaseCalls, mapCaseCalls, unlinked_eq h, cases_eq hrest]

end

mutual

theorem of_unlinked : ∀ {i j : Instruction}, i.mapCalls .unlinked = j.mapCalls .unlinked →
    i.SameButLinks j
  | .mk a commented, .mk b commented', h => by
    obtain ⟨ha, rfl⟩ := Instruction.mk.inj h
    exact .mk commented (of_action ha)

theorem of_action : ∀ {a b : Action},
    mapActionCalls .unlinked a = mapActionCalls .unlinked b → a.SameButLinks b
  | .call t, b, h => by
    cases b with
    | call u => exact .call (CallTarget.sameButLink_iff.mpr (Action.call.inj h))
    | _ => nomatch h
  | .ifThen condition body, b, h => by
    cases b with
    | ifThen condition' body' =>
      obtain ⟨rfl, hbody⟩ := Action.ifThen.inj h
      exact .ifThen condition (of_unlinked hbody)
    | _ => nomatch h
  | .select argument cases, b, h => by
    cases b with
    | select argument' cases' =>
      obtain ⟨rfl, hcases⟩ := Action.select.inj h
      exact .select argument (of_cases hcases)
    | _ => nomatch h
  | .blank, b, h | .motion _, b, h | .selectFrame _ _, b, h | .setIo _ _, b, h | .label _, b, h
  | .jump _, b, h | .assign _ _, b, h => by
    cases b <;> cases h
    exact .same _

theorem of_cases : ∀ {cs ds : List SelectCase},
    mapCaseCalls .unlinked cs = mapCaseCalls .unlinked ds → CasesSameButLinks cs ds
  | [], [], _ => .nil
  | [], .mk _ _ :: _, h => nomatch h
  | .mk _ _ :: _, [], h => nomatch h
  | .mk value body :: cs, .mk value' body' :: ds, h => by
    obtain ⟨hcase, hrest⟩ := List.cons.inj h
    obtain ⟨rfl, hbody⟩ := SelectCase.mk.inj hcase
    exact .cons value (of_unlinked hbody) (of_cases hrest)

end

end Instruction.SameButLinks

/-- What is the same but for links is what is the same without them. -/
theorem Instruction.sameButLinks_iff {i j : Instruction} :
    i.SameButLinks j ↔ i.mapCalls .unlinked = j.mapCalls .unlinked :=
  ⟨SameButLinks.unlinked_eq, SameButLinks.of_unlinked⟩

theorem Instruction.sameButLinks_mapCalls {f : CallTarget → CallTarget}
    (hf : ∀ t, (f t).unlinked = t.unlinked) (i : Instruction) : i.SameButLinks (i.mapCalls f) := by
  rw [sameButLinks_iff, mapCalls_mapCalls]
  simp only [hf]

section Lists

variable {α : Type} {R : α → α → Prop} {as bs : List α}

theorem getElem?_of_forall₂ (h : List.Forall₂ R as bs) (i : Nat) :
    as[i]? = none ∧ bs[i]? = none ∨ ∃ a b, as[i]? = some a ∧ bs[i]? = some b ∧ R a b := by
  induction h generalizing i with
  | nil => exact Or.inl ⟨rfl, rfl⟩
  | cons hab _ ih =>
    cases i with
    | zero => exact Or.inr ⟨_, _, rfl, rfl, hab⟩
    | succ i => exact ih i

theorem findIdx?_of_forall₂ {f : α → Bool} (h : List.Forall₂ R as bs)
    (hf : ∀ a b, R a b → f b = f a) : bs.findIdx? f = as.findIdx? f := by
  induction h with
  | nil => rfl
  | cons hab _ ih => rw [List.findIdx?_cons, List.findIdx?_cons, hf _ _ hab, ih]

theorem flatMap_of_forall₂ {β : Type} {f : α → List β} (h : List.Forall₂ R as bs)
    (hf : ∀ a b, R a b → f b = f a) : bs.flatMap f = as.flatMap f := by
  induction h with
  | nil => rfl
  | cons hab _ ih => rw [List.flatMap_cons, List.flatMap_cons, hf _ _ hab, ih]

theorem map_eq_map_iff_forall₂ {β : Type} {f : α → β} :
    as.map f = bs.map f ↔ List.Forall₂ (fun a b => f a = f b) as bs := by
  rw [← List.forall₂_eq_eq_eq, List.forall₂_map_left_iff, List.forall₂_map_right_iff]

end Lists

/-- The lines of the programs, under the same identities, differ in the links of calls at most. -/
structure Program.SameButLinks (p q : Program) : Prop where
  name_eq : p.name = q.name
  positions_eq : p.positions = q.positions
  nextId_eq : p.nextId = q.nextId
  lines : List.Forall₂ (fun a b => a.id = b.id ∧ a.instruction.SameButLinks b.instruction)
    p.lines q.lines

def Library.SameButLinks (l m : Library) : Prop :=
  List.Forall₂ Program.SameButLinks l.programs m.programs

theorem Program.sameButLinks_iff {p q : Program} :
    p.SameButLinks q ↔ p.mapCalls .unlinked = q.mapCalls .unlinked := by
  have hlines : (p.mapCalls .unlinked).lines = (q.mapCalls .unlinked).lines ↔
      List.Forall₂ (fun a b => a.id = b.id ∧ a.instruction.SameButLinks b.instruction)
        p.lines q.lines := by
    simp only [mapCalls, map_eq_map_iff_forall₂, Line.mk.injEq, Instruction.sameButLinks_iff]
  constructor
  · intro h
    have hl := hlines.mpr h.lines
    simp only [mapCalls, Program.mk.injEq] at hl ⊢
    exact ⟨h.name_eq, hl, h.positions_eq, h.nextId_eq⟩
  · intro h
    obtain ⟨hname, -, hpositions, hid⟩ := Program.mk.inj h
    exact ⟨hname, hpositions, hid, hlines.mp (congrArg Program.lines h)⟩

theorem Library.sameButLinks_iff {l m : Library} :
    l.SameButLinks m ↔ l.mapCalls .unlinked = m.mapCalls .unlinked := by
  have hp : Program.SameButLinks = fun p q => p.mapCalls .unlinked = q.mapCalls .unlinked := by
    funext p q
    exact propext Program.sameButLinks_iff
  simp only [SameButLinks, mapCalls, Library.mk.injEq, map_eq_map_iff_forall₂, hp]

/-- Changing nothing but the links of calls changes nothing but links. -/
theorem Library.sameButLinks_mapCalls {f : CallTarget → CallTarget}
    (hf : ∀ t, (f t).unlinked = t.unlinked) (l : Library) : l.SameButLinks (l.mapCalls f) := by
  rw [sameButLinks_iff, mapCalls_mapCalls]
  simp only [hf]

/-- The programs say the same, whatever their lines are known by and their calls linked to. -/
structure Program.SameText (p q : Program) : Prop where
  name_eq : p.name = q.name
  positions_eq : p.positions = q.positions
  lines : List.Forall₂ (fun a b => a.instruction.SameButLinks b.instruction) p.lines q.lines

def Library.SameText (l m : Library) : Prop :=
  List.Forall₂ Program.SameText l.programs m.programs

end TeachPendant
