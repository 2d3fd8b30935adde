import TeachPendant.Proofs.Instruction.Agreement
import TeachPendant.Proofs.Linking.Relinking

namespace TeachPendant

namespace Instruction

mutual

/-- The actions that a run of the instruction can come to: its own and those of the instructions in
it, except where they are commented. -/
def live : Instruction → List Action
  | .mk action commented => if commented then [] else actionLive action

def actionLive : Action → List Action
  | .ifThen condition body => .ifThen condition body :: body.live
  | .select argument cases => .select argument cases :: caseLive cases
  | action => [action]

def caseLive : List SelectCase → List Action
  | [] => []
  | .mk _ body :: rest => body.live ++ caseLive rest

end

end Instruction

def PositionRef.registers : PositionRef → List RegisterName
  | .taught _ => []
  | .register i => [.position i]

def Motion.registers (m : Motion) : List RegisterName :=
  m.target.registers ++ m.offset.toList.flatMap PositionRef.registers ++
    m.via.toList.flatMap PositionRef.registers

def SelectCase.value : SelectCase → Operand
  | .mk value _ => value

namespace Action

/-- The registers that an action reads, apart from those read by the instructions in it. -/
def reads : Action → List RegisterName
  | .motion m => m.registers
  | .assign _ expression => (Expression.sequence expression).registers
  | .ifThen condition _ => condition.registers
  | .select argument cases => argument.registers ++ cases.flatMap (·.value.registers)
  | .blank | .selectFrame _ _ | .setIo _ _ | .label _ | .jump _ | .call _ => []

def writes : Action → List RegisterName
  | .setIo i _ => [.io i]
  | .assign target _ => [target.register]
  | .blank | .motion _ | .selectFrame _ _ | .label _ | .jump _ | .call _ | .ifThen _ _
  | .select _ _ => []

def callees : Action → List CallTarget
  | .call target => [target]
  | .blank | .motion _ | .selectFrame _ _ | .setIo _ _ | .label _ | .jump _ | .assign _ _
  | .ifThen _ _ | .select _ _ => []

/-- Everything that the action names is among the registers `R`. -/
def Within (R : RegisterName → Prop) (action : Action) : Prop :=
  (∀ r ∈ action.reads, R r) ∧ ∀ r ∈ action.writes, R r

end Action

/-- The same flow and frames, and banks that agree on `R`. -/
structure Effect.AgreeOn (R : RegisterName → Prop) (e e' : Effect) : Prop where
  flow : e.flow = e'.flow
  frames : e.frames = e'.frames
  registers : e.registers.AgreeOn R e'.registers

section Agreeing

variable {R : RegisterName → Prop} {c c' : Context} (table : PositionTable)

theorem PositionRef.resolve_eq (h : c.AgreeOn R c') {p : PositionRef}
    (hp : ∀ r ∈ p.registers, R r) : p.resolve c table = p.resolve c' table := by
  cases p with
  | taught slot => rfl
  | register i => exact h.registers.getPosition_eq (hp _ (List.mem_singleton_self _))

theorem Motion.move_eq (h : c.AgreeOn R c') {m : Motion} (hm : ∀ r ∈ m.registers, R r) :
    m.move c table = m.move c' table := by
  have htarget : m.target.resolve c table = m.target.resolve c' table :=
    PositionRef.resolve_eq table h fun r hr => hm r (by simp [registers, hr])
  have hoffset (p : PositionRef) (hp : m.offset = some p) :
      p.resolve c table = p.resolve c' table :=
    PositionRef.resolve_eq table h fun r hr => hm r (by simp [registers, hp, hr])
  have hvia (p : PositionRef) (hp : m.via = some p) : p.resolve c table = p.resolve c' table :=
    PositionRef.resolve_eq table h fun r hr => hm r (by simp [registers, hp, hr])
  have hresolved : m.resolveTarget c table = m.resolveTarget c' table := by
    unfold resolveTarget
    rw [htarget]
    cases ho : m.offset with
    | none => rfl
    | some p => simp only [hoffset p ho]
  have hpassed : m.resolveVia c table = m.resolveVia c' table := by
    unfold resolveVia
    split
    · next p _ hp => rw [hvia p hp]
    · rfl
    · rfl
  simp only [move, hresolved, hpassed, h.device]

namespace Context.AgreeOn

theorem goOn (h : c.AgreeOn R c') (flow : Flow) : (c.goOn flow).AgreeOn R (c'.goOn flow) :=
  ⟨rfl, h.frames, h.registers⟩

theorem selectFrame_eq (h : c.AgreeOn R c') (kind : FrameKind) (index : UInt64) :
    c.selectFrame kind index = c'.selectFrame kind index := by
  simp only [selectFrame, h.frames]

end Context.AgreeOn

namespace Instruction

mutual

/-- An instruction all of whose names are in `R` ends alike in both contexts. -/
theorem execute_agree (h : c.AgreeOn R c') : ∀ i : Instruction, (∀ a ∈ i.live, a.Within R) →
    EndsAlike (Effect.AgreeOn R) (i.execute c table) (i.execute c' table)
  | .mk action commented, hi => by
    rw [execute, execute]
    cases commented with
    | true => exact .ok (h.goOn .next)
    | false => exact action_agree h action hi

theorem action_agree (h : c.AgreeOn R c') : ∀ action : Action,
    (∀ a ∈ actionLive action, a.Within R) →
    EndsAlike (Effect.AgreeOn R) (action.execute c table) (action.execute c' table)
  | .blank, _ | .label _, _ | .jump _, _ | .call _, _ => .ok (h.goOn _)
  | .motion m, hi => by
    have hm := m.move_eq table h (hi _ (List.mem_singleton_self _)).1
    exact (EndsAlike.of_eq hm).bind fun _ _ he => he ▸ .ok (h.goOn _)
  | .selectFrame kind index, _ =>
    (EndsAlike.of_eq (h.selectFrame_eq kind index)).bind fun _ _ he => .ok ⟨rfl, he, h.registers⟩
  | .setIo i x, _ => (h.registers.setIo i x).bind fun _ _ hb => .ok ⟨rfl, h.frames, hb⟩
  | .assign target expression, hi => by
    obtain ⟨hr, hw⟩ := hi _ (List.mem_singleton_self _)
    have hvalue := h.evaluate_eq (e := .sequence expression) hr
    refine (EndsAlike.of_eq hvalue).bind fun v _ he => he ▸ ?_
    have hstore := h.store (hw _ (List.mem_singleton_self _)) v
    exact hstore.bind fun _ _ hb => .ok ⟨rfl, h.frames, hb⟩
  | .ifThen condition body, hi => by
    have hvalue := h.evaluate_eq (hi _ List.mem_cons_self).1
    have hbody := execute_agree h body fun a ha => hi a (List.mem_cons_of_mem _ ha)
    rw [Action.execute, Action.execute, hvalue]
    split
    · exact .error _
    · exact hbody
    · exact .ok (h.goOn _)
    · exact .error _
  | .select argument cases, hi => by
    have hread := (hi _ List.mem_cons_self).1
    rw [Action.execute, Action.execute]
    refine cases_agree h argument (fun r hr => hread r (List.mem_append_left _ hr)) cases
      (fun k hk r hr => hread r (List.mem_append_right _ (List.mem_flatMap.mpr ⟨k, hk, hr⟩)))
      fun a ha => hi a (List.mem_cons_of_mem _ ha)

theorem cases_agree (h : c.AgreeOn R c') (argument : Operand)
    (hargument : ∀ r ∈ argument.registers, R r) : ∀ cases : List SelectCase,
    (∀ k ∈ cases, ∀ r ∈ k.value.registers, R r) → (∀ a ∈ caseLive cases, a.Within R) →
    EndsAlike (Effect.AgreeOn R) (executeCases c table argument cases)
      (executeCases c' table argument cases)
  | [], _, _ => .ok (h.goOn _)
  | .mk value body :: rest, hvalues, hi => by
    have hvalue := h.resolve_eq (o := value) (hvalues _ List.mem_cons_self)
    have hsame : value.sameValue c argument = value.sameValue c' argument := by
      rw [Operand.sameValue, Operand.sameValue, hvalue, h.resolve_eq hargument]
    have hbody := execute_agree h body fun a ha => hi a (List.mem_append_left _ ha)
    have hrest := cases_agree h argument hargument rest
      (fun k hk => hvalues k (List.mem_cons_of_mem _ hk))
      fun a ha => hi a (List.mem_append_right _ ha)
    rw [executeCases, executeCases, hsame]
    split_ifs
    · exact hbody
    · exact .ok (h.goOn _)
    · exact hrest

end

end Instruction

end Agreeing

/-- Holds no instructions of its own. -/
def Action.isSimple : Action → Bool
  | .ifThen _ _ | .select _ _ => false
  | .blank | .motion _ | .selectFrame _ _ | .setIo _ _ | .label _ | .jump _ | .call _
  | .assign _ _ => true

namespace Instruction

variable {c : Context} {table : PositionTable} {effect : Effect}

/-- The effect of one of these actions, or none. -/
def ComesTo (actions : List Action) (c : Context) (table : PositionTable) (effect : Effect) : Prop :=
  effect = c.goOn .next ∨
    ∃ a ∈ actions, a.isSimple = true ∧ a.execute c table = .ok effect

theorem ComesTo.mono {as bs : List Action} (h : ComesTo as c table effect) (hsub : as ⊆ bs) :
    ComesTo bs c table effect := by
  rcases h with h | ⟨a, ha, hs⟩
  · exact Or.inl h
  · exact Or.inr ⟨a, hsub ha, hs⟩

mutual

/-- Whatever its nesting, an instruction that succeeds does nothing or what one action in it does. -/
theorem comesTo : ∀ i : Instruction, i.execute c table = .ok effect →
    ComesTo i.live c table effect
  | .mk action commented, h => by
    rw [execute] at h
    cases commented with
    | true => exact Or.inl (Except.ok.inj h).symm
    | false => exact action_comesTo action h

theorem action_comesTo : ∀ action : Action, action.execute c table = .ok effect →
    ComesTo (actionLive action) c table effect
  | .ifThen condition body, h => by
    rw [Action.execute] at h
    split at h
    · cases h
    · exact (comesTo body h).mono (List.subset_cons_self _ _)
    · exact Or.inl (Except.ok.inj h).symm
    · cases h
  | .select argument cases, h => by
    rw [Action.execute] at h
    exact (cases_comesTo cases h).mono (List.subset_cons_self _ _)
  | .blank, h | .motion _, h | .selectFrame _ _, h | .setIo _ _, h | .label _, h | .jump _, h
  | .call _, h | .assign _ _, h => Or.inr ⟨_, List.mem_singleton_self _, rfl, h⟩

theorem cases_comesTo {argument : Operand} : ∀ cases : List SelectCase,
    executeCases c table argument cases = .ok effect → ComesTo (caseLive cases) c table effect
  | [], h => Or.inl (Except.ok.inj h).symm
  | .mk value body :: rest, h => by
    rw [executeCases] at h
    split_ifs at h
    · exact (comesTo body h).mono (List.subset_append_left _ _)
    · exact Or.inl (Except.ok.inj h).symm
    · exact (cases_comesTo rest h).mono (List.subset_append_right _ _)

end

end Instruction

namespace Action

variable {c : Context} {table : PositionTable} {effect : Effect} {a : Action}

/-- Registers that are not written keep what they hold. -/
theorem agreeOn_of_execute {R : RegisterName → Prop} (hs : a.isSimple = true)
    (hw : ∀ r ∈ a.writes, ¬ R r) (h : a.execute c table = .ok effect) :
    c.registers.AgreeOn R effect.registers := by
  cases a with
  | blank | label | jump | call =>
    cases h
    exact .refl _ _
  | motion | selectFrame =>
    simp only [execute, bind, Except.bind] at h
    split at h <;> cases h
    exact .refl _ _
  | setIo i x =>
    simp only [execute, bind, Except.bind] at h
    split at h
    · cases h
    · next hset =>
      cases h
      exact .of_setIo (hw _ (List.mem_singleton_self _)) hset
  | assign target expression =>
    simp only [execute, bind, Except.bind] at h
    split at h
    · cases h
    · split at h
      · cases h
      · next hstore =>
        cases h
        exact Context.agreeOn_of_store (hw _ (List.mem_singleton_self _)) hstore
  | ifThen | select => cases hs

theorem mem_callees (hs : a.isSimple = true) (h : a.execute c table = .ok effect)
    {target : CallTarget} (hf : effect.flow = .call target) : target ∈ a.callees := by
  cases a with
  | call t =>
    cases h
    cases hf
    exact List.mem_singleton_self target
  | blank | label | jump =>
    cases h
    cases hf
  | motion | selectFrame | setIo =>
    simp only [execute, bind, Except.bind] at h
    split at h <;> cases h
    cases hf
  | assign =>
    simp only [execute, bind, Except.bind] at h
    split at h
    · cases h
    · split at h <;> cases h
      cases hf
  | ifThen | select => cases hs

end Action

namespace Instruction

variable {c : Context} {table : PositionTable} {effect : Effect}

theorem agreeOn_of_execute {R : RegisterName → Prop} {i : Instruction}
    (hw : ∀ a ∈ i.live, ∀ r ∈ a.writes, ¬ R r) (h : i.execute c table = .ok effect) :
    c.registers.AgreeOn R effect.registers := by
  rcases i.comesTo h with rfl | ⟨a, ha, hs, he⟩
  · exact .refl _ _
  · exact Action.agreeOn_of_execute hs (hw a ha) he

/-- A call that is made stands in an instruction that is not commented. -/
theorem exists_live_of_call {i : Instruction} (h : i.execute c table = .ok effect)
    {target : CallTarget} (hf : effect.flow = .call target) :
    ∃ a ∈ i.live, target ∈ a.callees := by
  rcases i.comesTo h with rfl | ⟨a, ha, hs, he⟩
  · cases hf
  · exact ⟨a, ha, Action.mem_callees hs he hf⟩

variable (f : CallTarget → CallTarget)

mutual

theorem live_mapCalls : ∀ i : Instruction, (i.mapCalls f).live = i.live.map (mapActionCalls f)
  | .mk action commented => by
    cases commented with
    | true => rfl
    | false => exact actionLive_mapCalls action

theorem actionLive_mapCalls : ∀ action : Action,
    actionLive (mapActionCalls f action) = (actionLive action).map (mapActionCalls f)
  | .ifThen _ body => congrArg (_ :: ·) (live_mapCalls body)
  | .select _ cases => congrArg (_ :: ·) (caseLive_mapCalls cases)
  | .blank | .motion _ | .selectFrame _ _ | .setIo _ _ | .label _ | .jump _ | .call _
  | .assign _ _ => rfl

theorem caseLive_mapCalls : ∀ cases : List SelectCase,
    caseLive (mapCaseCalls f cases) = (caseLive cases).map (mapActionCalls f)
  | [] => rfl
  | .mk _ body :: rest => by
    rw [mapCaseCalls, caseLive, caseLive, live_mapCalls body, caseLive_mapCalls rest,
      List.map_append]

end

end Instruction

namespace Action

variable (f : CallTarget → CallTarget) (a : Action)

@[simp] theorem reads_mapCalls : (Instruction.mapActionCalls f a).reads = a.reads := by
  cases a with
  | select argument cases =>
    have hvalue (k : SelectCase) : (k.mapCalls f).value = k.value := by
      cases k
      rfl
    simp [Instruction.mapActionCalls, reads, Instruction.mapCaseCalls_eq, List.flatMap_map, hvalue]
  | _ => rfl

@[simp] theorem writes_mapCalls : (Instruction.mapActionCalls f a).writes = a.writes := by
  cases a <;> rfl

@[simp] theorem callees_mapCalls :
    (Instruction.mapActionCalls f a).callees = a.callees.map f := by
  cases a <;> rfl

end Action

namespace Library

/-- Every action that a run of a program of the library can come to. -/
def live (l : Library) : List Action :=
  l.programs.flatMap fun p => p.lines.flatMap (·.instruction.live)

def reads (l : Library) : List RegisterName := l.live.flatMap Action.reads

def writes (l : Library) : List RegisterName := l.live.flatMap Action.writes

def callees (l : Library) : List CallTarget := l.live.flatMap Action.callees

theorem live_mapCalls (l : Library) (f : CallTarget → CallTarget) :
    (l.mapCalls f).live = l.live.map (Instruction.mapActionCalls f) := by
  simp [live, mapCalls, Program.mapCalls, List.flatMap_map, List.map_flatMap,
    Instruction.live_mapCalls]

@[simp] theorem reads_mapCalls (l : Library) (f : CallTarget → CallTarget) :
    (l.mapCalls f).reads = l.reads := by
  simp [reads, live_mapCalls, List.flatMap_map]

@[simp] theorem writes_mapCalls (l : Library) (f : CallTarget → CallTarget) :
    (l.mapCalls f).writes = l.writes := by
  simp [writes, live_mapCalls, List.flatMap_map]

@[simp] theorem callees_mapCalls (l : Library) (f : CallTarget → CallTarget) :
    (l.mapCalls f).callees = l.callees.map f := by
  simp [callees, live_mapCalls, List.flatMap_map, List.map_flatMap]

theorem mem_live {l : Library} {p : Program} {i : Instruction} {index line : Nat} {a : Action}
    (hp : l.get? index = some p) (hi : p.instruction? line = some i) (ha : a ∈ i.live) :
    a ∈ l.live := by
  obtain ⟨entry, hentry, rfl⟩ := Option.map_eq_some_iff.mp hi
  have hline : a ∈ p.lines.flatMap (·.instruction.live) :=
    List.mem_flatMap.mpr ⟨entry, List.mem_of_getElem? hentry, ha⟩
  exact List.mem_flatMap.mpr ⟨p, List.mem_of_getElem? hp, hline⟩

end Library

end TeachPendant
