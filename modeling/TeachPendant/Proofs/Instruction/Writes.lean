import TeachPendant.Proofs.Instruction.Footprint
import TeachPendant.Proofs.Instruction.InPlace

namespace TeachPendant

open Number

/-- What can hold a value of its own. A position register has one spot for each component. -/
inductive Spot
  | data (index : Nat)
  | io (index : Nat)
  | component (index : Nat) (axis : UInt64)
  | frame (kind : FrameKind)
  deriving DecidableEq

/-- What a spot holds. -/
inductive SpotValue
  | number (x : Single)
  | flag (b : Bool)
  | frame (index : UInt64)
  deriving DecidableEq

/-- What the register at a place holds. -/
def Register.value? {α : Type} (l : List (Register α)) (i : Nat) : Option α := (l[i]?).map (·.value)

def Frames.get (f : Frames) : FrameKind → UInt64
  | .tool => f.tool
  | .user => f.user

/-- What a spot holds in a context, if it is there. -/
def Context.content? (c : Context) : Spot → Option SpotValue
  | .data i => (Register.value? c.registers.data i).map .number
  | .io i => (Register.value? c.registers.io i).map .flag
  | .component i axis =>
    ((Register.value? c.registers.positions i).bind (·.component? axis)).map .number
  | .frame kind => some (.frame (c.frames.get kind))

/-- The comments of all registers, and thereby how many there are. -/
def RegisterBank.comments (b : RegisterBank) : List String × List String × List String :=
  (b.data.map (·.comment), b.io.map (·.comment), b.positions.map (·.comment))

/-- Setting one spot, or a position register as a whole. -/
inductive Write
  | spot (spot : Spot) (x : SpotValue)
  | position (index : Nat) (p : Point)
  deriving DecidableEq

/-- What the write puts into a spot, if it sets it. -/
def Write.content? : Write → Spot → Option SpotValue
  | .spot s x, t => if t = s then some x else none
  | .position i p, .component j axis => if j = i then (p.component? axis).map .number else none
  | .position _ _, _ => none

/-- The context `c'` is `c` with this one write: the spots that it sets were there and hold what it
sets, and all else is as before. -/
structure Write.Leads (w : Write) (c c' : Context) : Prop where
  set : ∀ spot x, w.content? spot = some x → (c.content? spot).isSome ∧ c'.content? spot = some x
  kept : ∀ spot, w.content? spot = none → c'.content? spot = c.content? spot
  comments : c'.registers.comments = c.registers.comments
  pose : c'.pose = c.pose
  device : c'.device = c.device

namespace Register

variable {α : Type} {l : List (Register α)} {i : Nat} {r : Register α}

theorem map_comment_set (h : l[i]? = some r) (x : α) :
    (l.set i { r with value := x }).map (·.comment) = l.map (·.comment) := by
  have hcomment : (l.map (·.comment))[i]? = some r.comment := by
    rw [List.getElem?_map, h, Option.map_some]
  obtain ⟨hi, hcomment⟩ := List.getElem?_eq_some_iff.mp hcomment
  rw [List.map_set, ← hcomment, List.set_getElem_self]

theorem value?_eq (h : l[i]? = some r) : value? l i = some r.value := by
  rw [value?, h, Option.map_some]

theorem value?_set (h : l[i]? = some r) (x : α) (j : Nat) :
    value? (l.set i { r with value := x }) j = if j = i then some x else value? l j := by
  obtain ⟨hi, -⟩ := List.getElem?_eq_some_iff.mp h
  unfold value?
  split_ifs with hj
  · rw [hj, List.getElem?_set_self hi, Option.map_some]
  · rw [List.getElem?_set_ne (Ne.symm hj)]

end Register

namespace Point

/-- All points have the same components. -/
theorem isSome_component? (p q : Point) (axis : UInt64) :
    (p.component? axis).isSome = (q.component? axis).isSome := by
  unfold component?
  split <;> rfl

theorem component?_setComponent? {p q : Point} {axis : UInt64} {x : Single}
    (h : p.setComponent? axis x = some q) (a : UInt64) :
    q.component? a = if a = axis then some x else p.component? a := by
  unfold setComponent? at h
  split at h <;> cases h <;> unfold component? <;> split <;> simp_all

end Point

namespace Write.Leads

variable {c c' : Context} {i : UInt64} {b : RegisterBank}

theorem of_spot {spot : Spot} {x : SpotValue} (hthere : (c.content? spot).isSome)
    (hcontent : ∀ s, c'.content? s = if s = spot then some x else c.content? s)
    (hcomments : c'.registers.comments = c.registers.comments) (hpose : c'.pose = c.pose)
    (hdevice : c'.device = c.device) : (Write.spot spot x).Leads c c' := by
  refine ⟨fun s y hy => ?_, fun s hn => ?_, hcomments, hpose, hdevice⟩
  · rw [Write.content?] at hy
    split_ifs at hy with hs
    rw [hcontent, if_pos hs, hs]
    exact ⟨hthere, hy⟩
  · rw [Write.content?] at hn
    split_ifs at hn with hs
    rw [hcontent, if_neg hs]

theorem of_setData {x : Single} (h : c.registers.setData i x = .ok b) :
    (Write.spot (.data i.toNat) (.number x)).Leads c { c with registers := b } := by
  unfold RegisterBank.setData at h
  split at h <;> cases h
  next r hr =>
  refine of_spot ?_ (fun s => ?_) ?_ rfl rfl
  · rw [Context.content?, Register.value?_eq hr]
    rfl
  · cases s with
    | data j =>
      simp only [Context.content?, Register.value?_set hr, Spot.data.injEq]
      split_ifs <;> rfl
    | io | component | frame => rfl
  · simp only [RegisterBank.comments, Register.map_comment_set hr]

theorem of_setIo {x : Bool} (h : c.registers.setIo i x = .ok b) :
    (Write.spot (.io i.toNat) (.flag x)).Leads c { c with registers := b } := by
  unfold RegisterBank.setIo at h
  split at h <;> cases h
  next r hr =>
  refine of_spot ?_ (fun s => ?_) ?_ rfl rfl
  · rw [Context.content?, Register.value?_eq hr]
    rfl
  · cases s with
    | io j =>
      simp only [Context.content?, Register.value?_set hr, Spot.io.injEq]
      split_ifs <;> rfl
    | data | component | frame => rfl
  · simp only [RegisterBank.comments, Register.map_comment_set hr]

theorem of_setPosition {p : Point} (h : c.registers.setPosition i p = .ok b) :
    (Write.position i.toNat p).Leads c { c with registers := b } := by
  unfold RegisterBank.setPosition at h
  split at h <;> cases h
  next r hr =>
  refine ⟨fun s y hy => ?_, fun s hn => ?_, ?_, rfl, rfl⟩
  · cases s with
    | component j axis =>
      rw [Write.content?] at hy
      split_ifs at hy with hj
      have hthere : (r.value.component? axis).isSome := by
        rw [r.value.isSome_component? p, ← Option.isSome_map (f := SpotValue.number), hy]
        rfl
      simp only [Context.content?, hj, Register.value?_eq hr, Register.value?_set hr, if_true,
        Option.bind_some, Option.isSome_map]
      exact ⟨hthere, hy⟩
    | data | io | frame => cases hy
  · cases s with
    | component j axis =>
      simp only [Context.content?, Register.value?_set hr]
      split_ifs with hj
      · -- Where the new point has no component, the old one has none.
        rw [Write.content?, if_pos hj, Option.map_eq_none_iff] at hn
        have hnone : r.value.component? axis = none := by
          rw [← Option.not_isSome_iff_eq_none, r.value.isSome_component? p, hn]
          exact Bool.false_ne_true
        rw [hj, Register.value?_eq hr, Option.bind_some, Option.bind_some, hn, hnone]
      · rfl
    | data | io | frame => rfl
  · simp only [RegisterBank.comments, Register.map_comment_set hr]

theorem of_setComponent {axis : UInt64} {x : Single}
    (h : c.registers.setComponent i axis x = .ok b) :
    (Write.spot (.component i.toNat axis) (.number x)).Leads c { c with registers := b } := by
  unfold RegisterBank.setComponent RegisterBank.getPosition RegisterBank.setPosition at h
  split at h
  · cases h
  next p hp =>
  split at h
  · next q hq =>
    split at hp <;> cases hp
    next r hr =>
    rw [hr] at h
    cases h
    have hcomponents := Point.component?_setComponent? hq
    refine of_spot ?_ (fun s => ?_) ?_ rfl rfl
    · rw [Context.content?, Register.value?_eq hr, Option.bind_some, Option.isSome_map,
        r.value.isSome_component? q, hcomponents, if_pos rfl]
      rfl
    · cases s with
      | component j a =>
        simp only [Context.content?, Register.value?_set hr, Spot.component.injEq]
        by_cases hj : j = i.toNat
        · simp only [hj, if_true, true_and, Register.value?_eq hr, Option.bind_some, hcomponents]
          split_ifs <;> rfl
        · simp only [hj, if_false, false_and]
      | data | io | frame => rfl
    · simp only [RegisterBank.comments, Register.map_comment_set hr]
  · cases h

theorem of_selectFrame {kind : FrameKind} {index : UInt64} {frames : Frames}
    (h : c.selectFrame kind index = .ok frames) :
    (Write.spot (.frame kind) (.frame index)).Leads c { c with frames } := by
  unfold Context.selectFrame at h
  split_ifs at h
  refine of_spot rfl (fun s => ?_) rfl rfl rfl
  cases s with
  | frame k => cases kind <;> cases k <;> cases h <;> rfl
  | data | io | component => rfl

end Write.Leads

namespace Instruction

variable (c : Context)

mutual

/-- The action that a run of the instruction comes to. Where nothing runs it is a blank. -/
def ran : Instruction → Action
  | .mk action commented => if commented then .blank else actionRan action

def actionRan : Action → Action
  | .ifThen condition body =>
    match condition.evaluate c with
    | .ok (.flag true) => body.ran
    | _ => .blank
  | .select argument cases => caseRan argument cases
  | action => action

def caseRan (argument : Operand) : List SelectCase → Action
  | [] => .blank
  | .mk value body :: rest =>
    if value.sameValue c argument then if body.isTransfer then body.ran else .blank
    else caseRan argument rest

end

variable {c} {table : PositionTable} {effect : Effect}

mutual

/-- An instruction that succeeds does what the action does that it comes to. -/
theorem execute_ran : ∀ i : Instruction, i.execute c table = .ok effect →
    (i.ran c).isSimple ∧ (i.ran c).execute c table = .ok effect
  | .mk action commented, h => by
    rw [execute] at h
    rw [ran]
    cases commented with
    | true => exact ⟨rfl, h⟩
    | false => exact execute_actionRan action h

theorem execute_actionRan : ∀ action : Action, action.execute c table = .ok effect →
    (actionRan c action).isSimple ∧ (actionRan c action).execute c table = .ok effect
  | .ifThen condition body, h => by
    rw [Action.execute] at h
    rw [actionRan]
    cases hv : condition.evaluate c with
    | error e =>
      rw [hv] at h
      cases h
    | ok v =>
      rw [hv] at h
      cases v with
      | flag b => cases b with
        | true => exact execute_ran body h
        | false => exact ⟨rfl, h⟩
      | number | point => cases h
  | .select argument cases, h => by
    rw [Action.execute] at h
    exact execute_caseRan cases h
  | .blank, h | .motion _, h | .selectFrame _ _, h | .setIo _ _, h | .label _, h | .jump _, h
  | .call _, h | .assign _ _, h => ⟨rfl, h⟩

theorem execute_caseRan {argument : Operand} : ∀ cases : List SelectCase,
    executeCases c table argument cases = .ok effect →
    (caseRan c argument cases).isSimple ∧
      (caseRan c argument cases).execute c table = .ok effect
  | [], h => ⟨rfl, h⟩
  | .mk value body :: rest, h => by
    rw [executeCases] at h
    rw [caseRan]
    split_ifs at h ⊢
    · exact execute_ran body h
    · exact ⟨rfl, h⟩
    · exact execute_caseRan rest h

end

end Instruction

/-- What storing a value sets, if the target can hold it. -/
def RegisterTarget.write? : RegisterTarget → Value → Option Write
  | .data i, .number x => some (.spot (.data i.toNat) (.number x))
  | .component i axis, .number x => some (.spot (.component i.toNat axis) (.number x))
  | .io i, .flag b => some (.spot (.io i.toNat) (.flag b))
  | .position i, .point p => some (.position i.toNat p)
  | _, _ => none

/-- What the action names to be set, an assignment the value that its expression has. -/
def Action.write? (c : Context) : Action → Option Write
  | .selectFrame kind index => some (.spot (.frame kind) (.frame index))
  | .setIo i b => some (.spot (.io i.toNat) (.flag b))
  | .assign target expression =>
    match Sequence.evaluate c expression with
    | .ok v => target.write? v
    | .error _ => none
  | .blank | .motion _ | .label _ | .jump _ | .call _ | .ifThen _ _ | .select _ _ => none

namespace Context

variable {c : Context} {b : RegisterBank}

theorem leads_of_store : ∀ (target : RegisterTarget) (v : Value), c.store target v = .ok b →
    ∃ w, target.write? v = some w ∧ w.Leads c { c with registers := b }
  | .data _, .number _, h => ⟨_, rfl, .of_setData h⟩
  | .component _ _, .number _, h => ⟨_, rfl, .of_setComponent h⟩
  | .io _, .flag _, h => ⟨_, rfl, .of_setIo h⟩
  | .position _, .point _, h => ⟨_, rfl, .of_setPosition h⟩

end Context

namespace Action

variable {c : Context} {table : PositionTable} {effect : Effect} {a : Action}

/-- An action by itself hands on a flow and changes nothing, or goes on after its write. -/
theorem leads_of_execute (hs : a.isSimple) (h : a.execute c table = .ok effect) :
    (effect = c.goOn effect.flow ∧ (effect.flow = .next → a.write? c = none)) ∨
      effect.flow = .next ∧ ∃ w, a.write? c = some w ∧
        w.Leads c { c with registers := effect.registers, frames := effect.frames } := by
  cases a with
  | blank | label | jump | call =>
    cases h
    exact Or.inl ⟨rfl, fun _ => rfl⟩
  | motion m =>
    simp only [execute, bind, Except.bind] at h
    split at h <;> cases h
    exact Or.inl ⟨rfl, fun _ => rfl⟩
  | selectFrame kind index =>
    simp only [execute, bind, Except.bind] at h
    split at h
    · cases h
    · next hset =>
      cases h
      exact Or.inr ⟨rfl, _, rfl, .of_selectFrame hset⟩
  | setIo i x =>
    simp only [execute, bind, Except.bind] at h
    split at h
    · cases h
    · next hset =>
      cases h
      exact Or.inr ⟨rfl, _, rfl, .of_setIo hset⟩
  | assign target expression =>
    simp only [execute, bind, Except.bind] at h
    split at h
    · cases h
    next v hv =>
    split at h
    · cases h
    · next hstore =>
      cases h
      obtain ⟨w, hw, hleads⟩ := Context.leads_of_store target v hstore
      refine Or.inr ⟨rfl, w, ?_, hleads⟩
      rw [write?, hv]
      exact hw
  | ifThen | select => cases hs

end Action

/-- Run in place, an instruction ends as its execution does. If it fails or hands on a jump, a call or
a move, the context is as before; if it goes on, the context differs by what the action that ran names
to be set, and by nothing where that names nothing. -/
theorem Instruction.perform_leads (i : Instruction) (table : PositionTable) (c : Context) :
    let r := InPlace.run (i.perform table) c
    r.1 = (i.execute c table).map Effect.flow ∧
      (∀ effect, i.execute c table = .ok effect →
        effect.registers = r.2.registers ∧ effect.frames = r.2.frames) ∧
      (r.1 ≠ .ok .next → r.2 = c) ∧
      (r.1 = .ok .next → match (i.ran c).write? c with
        | none => r.2 = c
        | some w => w.Leads c r.2) := by
  intro r
  have hr : r = c.after (i.execute c table) := run_perform table c i
  clear_value r
  obtain ⟨outcome, c'⟩ := r
  cases h : i.execute c table with
  | error e =>
    rw [h] at hr
    obtain ⟨rfl, rfl⟩ := Prod.mk.inj hr
    refine ⟨rfl, fun effect he => ?_, fun _ => rfl, fun hflow => ?_⟩
    · cases he
    · cases hflow
  | ok effect =>
    rw [h] at hr
    obtain ⟨rfl, rfl⟩ := Prod.mk.inj hr
    obtain ⟨hsimple, hran⟩ := execute_ran i h
    refine ⟨rfl, fun effect' he => ?_, fun hflow => ?_, fun hflow => ?_⟩
    · cases he
      exact ⟨rfl, rfl⟩
    · rcases Action.leads_of_execute hsimple hran with ⟨hsame, -⟩ | ⟨hnext, -⟩
      · rw [hsame]
        rfl
      · exact absurd (congrArg Except.ok hnext) hflow
    · have hnext : effect.flow = .next := Except.ok.inj hflow
      rcases Action.leads_of_execute hsimple hran with ⟨hsame, hnone⟩ | ⟨-, w, hw, hleads⟩
      · rw [hnone hnext, hsame]
        rfl
      · rw [hw]
        exact hleads

end TeachPendant
