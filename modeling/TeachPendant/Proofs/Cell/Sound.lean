import TeachPendant.Proofs.Cell.Line
import TeachPendant.Proofs.Cell.Operation
import TeachPendant.Proofs.Cell.Tick

namespace TeachPendant

/-- Frames of the device itself, and below them at most one frame of the other device. -/
def Nested (side : Side) : List ReturnFrame → Prop
  | [] => True
  | f :: rest => f.device = side.id ∧ Nested side rest ∨ f.device = side.other.id ∧ rest = []

/-- The frame to which another device than `id` will return. -/
def foreign? (id : UInt8) (stack : List ReturnFrame) : Option ReturnFrame :=
  stack.reverse.find? (·.device != id)

@[simp] theorem foreign?_nil (id : UInt8) : foreign? id [] = none := rfl

theorem foreign?_cons_own {id : UInt8} {f : ReturnFrame} (h : f.device = id)
    (rest : List ReturnFrame) : foreign? id (f :: rest) = foreign? id rest := by
  simp [foreign?, h]

/-- A change of the frames that leaves the devices. -/
theorem foreign?_map (change : ReturnFrame → ReturnFrame) (h : ∀ f, (change f).device = f.device)
    (id : UInt8) (stack : List ReturnFrame) :
    foreign? id (stack.map change) = (foreign? id stack).map change := by
  rw [foreign?, ← List.map_reverse, List.find?_map]
  simp only [Function.comp_def, h]
  rfl

theorem foreign?_singleton {id : UInt8} {f : ReturnFrame} (h : f.device ≠ id) :
    foreign? id [f] = some f := by
  simp [foreign?, h]

namespace Nested

variable {side : Side} {stack : List ReturnFrame}

theorem device_of_foreign (h : Nested side stack) {f : ReturnFrame}
    (hf : foreign? side.id stack = some f) : f.device = side.other.id := by
  induction stack with
  | nil => simp at hf
  | cons g rest ih =>
    rcases h with ⟨hg, hr⟩ | ⟨hg, rfl⟩
    · rw [foreign?_cons_own hg] at hf
      exact ih hr hf
    · rw [foreign?_singleton (by rw [hg]; exact side.id_other_ne)] at hf
      cases hf
      exact hg

/-- The frame of the other device is the bottom one. -/
theorem getLast?_of_foreign (h : Nested side stack) {f : ReturnFrame}
    (hf : foreign? side.id stack = some f) : stack.getLast? = some f := by
  induction stack with
  | nil => simp at hf
  | cons g rest ih =>
    rcases h with ⟨hg, hr⟩ | ⟨hg, rfl⟩
    · rw [foreign?_cons_own hg] at hf
      rw [List.getLast?_cons, ih hr hf]
      rfl
    · rw [foreign?_singleton (by rw [hg]; exact side.id_other_ne)] at hf
      cases hf
      rfl

theorem own_of_dropLast (h : Nested side stack) : ∀ f ∈ stack.dropLast, f.device = side.id := by
  induction stack with
  | nil => simp
  | cons g rest ih =>
    rcases h with ⟨hg, hr⟩ | ⟨_, rfl⟩
    · intro f hf
      cases rest with
      | nil => simp at hf
      | cons g' rest =>
        rw [List.dropLast_cons_of_ne_nil (by simp)] at hf
        rcases List.mem_cons.mp hf with rfl | hf
        · exact hg
        · exact ih hr f hf
    · simp

end Nested

namespace Library

theorem get?_of_find? {l : Library} {name : String} {i : Nat} (h : l.find? name = some i) :
    ∃ p, l.get? i = some p ∧ p.name = name := by
  obtain ⟨hi, hn, -⟩ := List.findIdx?_eq_some_iff_getElem.mp h
  exact ⟨l.programs[i], List.getElem?_eq_getElem hi, by simpa using hn⟩

/-- A call that resolves goes where its link says, to a program of the name it gives. -/
theorem link_of_resolve {l : Library} {target : CallTarget} {ref : ProgramRef}
    (h : l.resolve target = .ok ref) :
    target.link = some ref ∧ ∃ p, l.get? ref.index = some p ∧ p.name = target.program := by
  unfold resolve at h
  split at h
  · cases h
  · next ref' hl =>
    split at h
    · next p hp =>
      split_ifs at h with hn
      cases h
      exact ⟨hl, p, hp, hn⟩
    · cases h

theorem unresolved_of_resolve {l : Library} {target : CallTarget} {e : Error}
    (h : l.resolve target = .error e) : e = .unresolvedCall target.program target.device := by
  unfold resolve at h
  split at h
  · exact (Except.error.inj h).symm
  · split at h
    · split_ifs at h
      exact (Except.error.inj h).symm
    · exact (Except.error.inj h).symm

@[simp] theorem get?_mapCalls (l : Library) (f : CallTarget → CallTarget) (i : Nat) :
    (l.mapCalls f).get? i = (l.get? i).map (·.mapCalls f) := by
  simp [mapCalls, get?]

end Library

@[simp] theorem Program.length_mapCalls (p : Program) (f : CallTarget → CallTarget) :
    (p.mapCalls f).length = p.length := by
  simp [mapCalls, length]

namespace Device

variable {σ : Type}

/-- The frame of the caller on another device that this device works for. -/
def caller? (d : Device σ) : Option ReturnFrame := foreign? d.id d.returnStack

structure Framed (d : Device σ) (side : Side) : Prop where
  id_eq : d.id = side.id
  nested : Nested side d.returnStack
  present : ∀ f ∈ d.returnStack, f.device = side.id → (d.library.get? f.program.index).isSome
  report : ∀ caller reason, d.abandoned = some (caller, reason) → caller = side.other.id

structure Sound (d : Device σ) (side : Side) : Prop extends d.Framed side where
  runs : d.isBusy = true → ∀ x, d.execution = some x →
    ∃ p, d.library.get? x.program.index = some p ∧ (x.status.standing = true → x.OnLine p)
  unbroken : d.returnStack ≠ [] → ∃ x, d.execution = some x ∧ x.status.broken = false

theorem isActive_of_execution {d : Device σ} {x : Execution} (h : d.execution = some x) :
    d.isActive = !x.status.isTerminal := by
  simp [isActive, status?, h]

theorem isBusy_of_running {d : Device σ} {x : Execution} (h : d.execution = some x)
    (hx : x.status.isTerminal = false) : d.isBusy = true := by
  simp [isBusy, isActive_of_execution h, hx]

theorem returnStack_of_not_busy {d : Device σ} (h : d.isBusy = false) : d.returnStack = [] := by
  simp only [isBusy, Bool.or_eq_false_iff, Bool.not_eq_false', List.isEmpty_iff] at h
  exact h.2

theorem terminal_of_not_busy {d : Device σ} (h : d.isBusy = false) {x : Execution}
    (hx : d.execution = some x) : x.status.isTerminal = true := by
  simp only [isBusy, isActive_of_execution hx, Bool.or_eq_false_iff, Bool.not_eq_false'] at h
  exact h.1

theorem dropCallChain_eq (d : Device σ) (reason : String) :
    d.dropCallChain reason = { d with
      returnStack := []
      abandoned := match d.caller? with
        | some f => some (f.device, reason)
        | none => d.abandoned } := by
  unfold dropCallChain
  split
  · next f h => rw [show d.caller? = some f from h]
  · next h => rw [show d.caller? = none from h]

@[simp] theorem library_begin (d : Device σ) (ref : ProgramRef) (mode : RunMode) (i : Nat) :
    (d.begin ref mode i).1.library = d.library := by
  unfold begin
  split
  · rfl
  · split_ifs <;> rfl

@[simp] theorem abandoned_begin (d : Device σ) (ref : ProgramRef) (mode : RunMode) (i : Nat) :
    (d.begin ref mode i).1.abandoned = d.abandoned := by
  unfold begin
  split
  · rfl
  · split_ifs <;> rfl

@[simp] theorem library_dropCallChain (d : Device σ) (reason : String) :
    (d.dropCallChain reason).library = d.library := by
  simp [dropCallChain_eq]

theorem resumeAfterCall_kept (d : Device σ) : d.resumeAfterCall.library = d.library ∧
    d.resumeAfterCall.abandoned = d.abandoned := by
  unfold resumeAfterCall
  split
  · exact ⟨rfl, rfl⟩
  · split <;> exact ⟨rfl, rfl⟩

theorem resumeAfterCall_of_not_waiting {d : Device σ} (h : d.status? ≠ some .awaitingCall) :
    d.resumeAfterCall = d := by
  unfold resumeAfterCall
  split
  · rfl
  · next x hx =>
    split
    · rfl
    · have hn : x.status ≠ .awaitingCall := by simpa [status?, hx] using h
      rw [Execution.resumeAfterCall, if_neg hn, ← hx]

@[simp] theorem library_fail (d : Device σ) (cause : Error) :
    (d.fail cause).1.library = d.library := by
  simp [fail, dropCallChain_eq]

@[simp] theorem execution_fail (d : Device σ) (cause : Error) :
    (d.fail cause).1.execution = d.execution.map fun x => x.fail cause := by
  simp [fail, dropCallChain_eq]

@[simp] theorem returnStack_fail (d : Device σ) (cause : Error) :
    (d.fail cause).1.returnStack = [] := by
  simp [fail, dropCallChain_eq]

theorem abandoned_fail (d : Device σ) (cause : Error) :
    (d.fail cause).1.abandoned =
      match d.caller? with
      | some f => some (f.device, cause.message)
      | none => d.abandoned := by
  rw [fail, dropCallChain_eq]
  rfl

theorem status?_fail (d : Device σ) (cause : Error) :
    (d.fail cause).1.status? = d.status?.map fun _ => .fault cause := by
  rw [status?, execution_fail, status?, Option.map_map, Option.map_map]
  rfl

theorem of_start {d d' : Device σ} {program : String} {mode : RunMode} {i : Nat} {trace : Trace}
    (h : d.start program mode i = .ok (d', trace)) :
    d.isBusy = false ∧ ∃ index p, d.library.get? index = some p ∧ p.name = program ∧
      d' = (d.begin ⟨d.id, index⟩ mode i).1 := by
  unfold start at h
  split_ifs at h with hb
  have hb : d.isBusy = false := by simpa using hb
  split at h
  · cases h
  · next index hf =>
    obtain ⟨p, hp, hn⟩ := Library.get?_of_find? hf
    rw [← returnStack_of_not_busy hb] at h
    have hd : _ = d' := congrArg Prod.fst (Except.ok.inj h)
    exact ⟨hb, index, p, hp, hn, hd.symm⟩

theorem of_resume {d d' : Device σ} {trace : Trace} (h : d.resume = .ok (d', trace)) :
    d' = d ∨ ∃ x p, d.execution = some x ∧ x.status = .done .stepped ∧
      d.library.get? x.program.index = some p ∧ d' = (d.begin x.program x.mode x.current).1 := by
  unfold resume at h
  split at h
  · cases h
    exact Or.inl rfl
  · next x hx =>
    split_ifs at h with hs
    have hd : _ = d' := congrArg Prod.fst (Except.ok.inj h)
    cases hp : d.library.get? x.program.index with
    | none => exact Or.inl (by rw [← hd]; simp [begin, hp])
    | some p => exact Or.inr ⟨x, p, hx, Decidable.not_not.mp hs, hp, hd.symm⟩

theorem of_acceptCall {d d' : Device σ} {target : CallTarget} {f : ReturnFrame} {trace : Trace}
    (h : d.acceptCall target f = .ok (d', trace)) :
    d.isBusy = false ∧ ∃ ref p, target.link = some ref ∧ d.library.get? ref.index = some p ∧
      p.name = target.program ∧
      d' = (({ d with returnStack := f :: d.returnStack } : Device σ).begin ref f.mode 0).1 := by
  unfold acceptCall at h
  split_ifs at h with hb
  split at h
  · cases h
  · next ref hr =>
    obtain ⟨hl, p, hp, hn⟩ := Library.link_of_resolve hr
    have hd : _ = d' := congrArg Prod.fst (Except.ok.inj h)
    exact ⟨by simpa using hb, ref, p, hl, hp, hn, hd.symm⟩

/-- A call is not taken while the device is busy, or when it does not resolve. -/
theorem of_acceptCall_error {d : Device σ} {target : CallTarget} {frame : ReturnFrame} {e : Error}
    (h : d.acceptCall target frame = .error e) :
    d.isBusy = true ∧ e = .busy d.id ∨ d.library.resolve target = .error e := by
  unfold acceptCall at h
  split_ifs at h with hb
  · exact Or.inl ⟨hb, (Except.error.inj h).symm⟩
  · cases hr : d.library.resolve target with
    | error e' =>
      simp only [hr] at h
      exact Or.inr (congrArg Except.error (Except.error.inj h))
    | ok ref =>
      simp only [hr] at h
      cases h

theorem halt_eq [MotionService σ] (d : Device σ) :
    ∃ x arm, d.halt.1 = ({ d with execution := x, arm := arm } : Device σ).dropCallChain "halted" ∧
      ∀ y, x = some y → y.status = .done .halted := by
  unfold halt
  split
  · next hx => exact ⟨none, d.arm, by rw [← hx], by simp⟩
  · next x hx =>
    refine ⟨some (x.halt d.arm).1, (x.halt d.arm).2.1, rfl, ?_⟩
    rintro y hy
    cases hy
    unfold Execution.halt
    split <;> rfl

theorem begin_of_some {d : Device σ} {ref : ProgramRef} {p : Program}
    (hp : d.library.get? ref.index = some p) (mode : RunMode) (i : Nat) :
    (d.begin ref mode i).1 = { d with
      execution := some (if p.isEmpty && !d.returnStack.isEmpty then .finished ref p mode
        else .start ref p mode i) } := by
  unfold begin
  simp only [hp]
  split_ifs <;> rfl

/-- A start by name on a device that is free. -/
theorem start_of_find? {d : Device σ} (hb : d.isBusy = false) {program : String} {index : Nat}
    (hf : d.library.find? program = some index) (mode : RunMode) (i : Nat) :
    ∃ p trace, d.library.get? index = some p ∧ d.start program mode i =
      .ok ({ d with execution := some (.start ⟨d.id, index⟩ p mode i) }, trace) := by
  obtain ⟨p, hp, -⟩ := Library.get?_of_find? hf
  have hstack := returnStack_of_not_busy hb
  have hbegin : (d.begin ⟨d.id, index⟩ mode i).1 =
      { d with execution := some (.start ⟨d.id, index⟩ p mode i) } := by
    refine (begin_of_some hp mode i).trans ?_
    simp [hstack]
  refine ⟨p, (d.begin ⟨d.id, index⟩ mode i).2, hp, ?_⟩
  rw [start, if_neg (by simp [hb]), hf, ← hstack, ← hbegin]

namespace Framed

variable {d : Device σ} {side : Side}

theorem device_of_caller (h : d.Framed side) {f : ReturnFrame} (hf : d.caller? = some f) :
    f.device = side.other.id := by
  rw [caller?, h.id_eq] at hf
  exact h.nested.device_of_foreign hf

/-- A device that has nothing to go on with. -/
theorem sound_of_not_busy (h : d.Framed side) (hb : d.isBusy = false) : d.Sound side where
  toFramed := h
  runs := by simp [hb]
  unbroken := fun hs => absurd (returnStack_of_not_busy hb) hs

theorem dropCallChain (h : d.Framed side) (reason : String) :
    (d.dropCallChain reason).Framed side := by
  rw [dropCallChain_eq]
  refine ⟨h.id_eq, trivial, by simp, ?_⟩
  intro caller reason' hr
  cases hf : d.caller? with
  | none => exact h.report caller reason' (by simpa [hf] using hr)
  | some f =>
    have hc : f.device = caller := by
      simp only [hf, Option.some.injEq, Prod.mk.injEq] at hr
      exact hr.1
    exact hc ▸ h.device_of_caller hf

theorem sound_dropCallChain (h : d.Framed side)
    (ended : ∀ x, d.execution = some x → x.status.isTerminal = true) (reason : String) :
    (d.dropCallChain reason).Sound side := by
  refine (h.dropCallChain reason).sound_of_not_busy ?_
  rw [dropCallChain_eq]
  cases hx : d.execution with
  | none => simp [isBusy, isActive, status?]
  | some x => simp [isBusy, isActive, status?, ended x hx]

theorem withRun (h : d.Framed side) (x : Option Execution) (frames : Frames) (arm : σ) :
    ({ d with execution := x, frames := frames, arm := arm } : Device σ).Framed side :=
  ⟨h.id_eq, h.nested, h.present, h.report⟩

/-- A device that has just taken up a run. -/
theorem sound_run (h : d.Framed side) {x : Execution} {p : Program}
    (hp : d.library.get? x.program.index = some p) (hx : x.status.standing = true → x.OnLine p)
    (hb : d.returnStack ≠ [] → x.status.broken = false) :
    ({ d with execution := some x } : Device σ).Sound side where
  toFramed := h.withRun _ _ _
  runs := by
    rintro - y hy
    cases hy
    exact ⟨p, hp, hx⟩
  unbroken := fun hs => ⟨x, rfl, hb hs⟩

theorem sound_begin (h : d.Framed side) {ref : ProgramRef} {p : Program}
    (hp : d.library.get? ref.index = some p) (mode : RunMode) {i : Nat}
    (hi : d.returnStack ≠ [] → p.length = 0 ∨ i < p.length) : (d.begin ref mode i).1.Sound side := by
  rw [begin_of_some hp]
  by_cases he : p.isEmpty && !d.returnStack.isEmpty
  · rw [if_pos he]
    exact h.sound_run hp (by simp [Execution.finished, Status.standing])
      (by simp [Execution.finished, Status.broken])
  rw [if_neg he]
  by_cases hl : i < p.length
  · rw [Execution.start_of_lt ref mode hl]
    exact h.sound_run hp (fun _ => ⟨hl, rfl⟩) (fun _ => rfl)
  · rw [Execution.start_of_le ref mode (by omega)]
    refine h.sound_run hp (by simp [Status.standing]) fun hs => ?_
    have hlen : p.length = 0 := (hi hs).resolve_right hl
    have hempty : p.isEmpty = true := List.isEmpty_iff.mpr (List.eq_nil_of_length_eq_zero hlen)
    simp [hempty, hs] at he

theorem sound_fail (h : d.Framed side) (cause : Error) : (d.fail cause).1.Sound side := by
  refine (h.withRun _ _ _).sound_dropCallChain ?_ _
  intro x hx
  obtain ⟨y, -, rfl⟩ := Option.map_eq_some_iff.mp hx
  rfl

theorem sound_halt [MotionService σ] (h : d.Framed side) : d.halt.1.Sound side := by
  obtain ⟨x, arm, he, hx⟩ := d.halt_eq
  rw [he]
  refine (h.withRun x d.frames arm).sound_dropCallChain ?_ _
  intro y hy
  rw [hx y hy]
  rfl

theorem push (h : d.Framed side) {f : ReturnFrame} (hf : f.device = side.id)
    (hp : (d.library.get? f.program.index).isSome) :
    ({ d with returnStack := f :: d.returnStack } : Device σ).Framed side := by
  refine ⟨h.id_eq, Or.inl ⟨hf, h.nested⟩, ?_, h.report⟩
  intro g hg hd
  rcases List.mem_cons.mp hg with rfl | hg
  · exact hp
  · exact h.present g hg hd

theorem pop (h : d.Framed side) {f : ReturnFrame} {rest : List ReturnFrame}
    (hs : d.returnStack = f :: rest) :
    ({ d with returnStack := rest } : Device σ).Framed side := by
  have hn := h.nested
  rw [hs] at hn
  refine ⟨h.id_eq, ?_, fun g hg => h.present g (by simp [hs, hg]), h.report⟩
  rcases hn with ⟨-, hr⟩ | ⟨-, rfl⟩
  · exact hr
  · trivial

/-- The frame of another device on top of the stack is all there is. -/
theorem rest_of_foreign (h : d.Framed side) {f : ReturnFrame} {rest : List ReturnFrame}
    (hs : d.returnStack = f :: rest) (hf : f.device ≠ d.id) :
    f.device = side.other.id ∧ rest = [] := by
  have hn := h.nested
  rw [hs] at hn
  rw [h.id_eq] at hf
  exact hn.resolve_left fun ho => hf ho.1

end Framed

namespace Sound

variable {d d' : Device σ} {side : Side} {trace : Trace}

theorem line_of_standing (h : d.Sound side) (hb : d.isBusy = true) {x : Execution} {p : Program}
    (hx : d.execution = some x) (hp : d.library.get? x.program.index = some p)
    (hs : x.status.standing = true) : x.OnLine p := by
  obtain ⟨q, hq, hl⟩ := h.runs hb x hx
  rw [hp] at hq
  cases hq
  exact hl hs

theorem onLine (h : d.Sound side) {x : Execution} {p : Program} (hx : d.execution = some x)
    (hp : d.library.get? x.program.index = some p) (hs : x.status.isTerminal = false) :
    x.OnLine p :=
  h.line_of_standing (isBusy_of_running hx hs) hx hp (Status.standing_of_not_terminal hs)

theorem start (h : d.Sound side) {program : String} {mode : RunMode} {i : Nat}
    (hs : d.start program mode i = .ok (d', trace)) : d'.Sound side := by
  obtain ⟨hb, index, p, hp, -, rfl⟩ := of_start hs
  have hp : d.library.get? (⟨d.id, index⟩ : ProgramRef).index = some p := hp
  exact h.toFramed.sound_begin hp mode fun hn => absurd (returnStack_of_not_busy hb) hn

theorem resume (h : d.Sound side) (hr : d.resume = .ok (d', trace)) : d'.Sound side := by
  obtain rfl | ⟨x, p, hx, hs, hp, rfl⟩ := of_resume hr
  · exact h
  · refine h.toFramed.sound_begin hp x.mode fun hn => Or.inr ?_
    have hb : d.isBusy = true := by simp [isBusy, hn]
    exact (h.line_of_standing hb hx hp (by simp [hs, Status.standing])).current_lt

theorem acceptCall (h : d.Sound side) {target : CallTarget} {f : ReturnFrame}
    (hf : f.device = side.other.id) (ha : d.acceptCall target f = .ok (d', trace)) :
    d'.Sound side := by
  obtain ⟨hb, ref, p, -, hp, -, rfl⟩ := of_acceptCall ha
  have hstack : d.returnStack = [] := returnStack_of_not_busy hb
  have hframed : ({ d with returnStack := f :: d.returnStack } : Device σ).Framed side := by
    refine ⟨h.id_eq, Or.inr ⟨hf, hstack⟩, ?_, h.report⟩
    intro g hg hd
    rw [hstack, List.mem_singleton] at hg
    subst hg
    exact absurd (hf.symm.trans hd) side.id_other_ne
  exact hframed.sound_begin hp f.mode fun _ => p.length.eq_zero_or_pos

theorem edit (h : d.Sound side) (hb : d.isBusy = false) (l : Library) :
    ({ d with library := l } : Device σ).Sound side := by
  have hs := returnStack_of_not_busy hb
  exact Framed.sound_of_not_busy ⟨h.id_eq, h.nested, by simp [hs], h.report⟩ hb

theorem relink (h : d.Sound side) (f : CallTarget → CallTarget) :
    ({ d with library := d.library.mapCalls f } : Device σ).Sound side where
  id_eq := h.id_eq
  nested := h.nested
  present := fun g hg hd => by simpa using h.present g hg hd
  report := h.report
  runs := by
    intro hb x hx
    obtain ⟨p, hp, hl⟩ := h.runs hb x hx
    exact ⟨p.mapCalls f, by simp [hp], fun hs => ⟨by simpa using (hl hs).current_lt, (hl hs).next_eq⟩⟩
  unbroken := h.unbroken

theorem withArm (h : d.Sound side) (arm : σ) : ({ d with arm := arm } : Device σ).Sound side :=
  ⟨⟨h.id_eq, h.nested, h.present, h.report⟩, h.runs, h.unbroken⟩

theorem resumeAfterCall (h : d.Sound side) : d.resumeAfterCall.Sound side := by
  unfold Device.resumeAfterCall
  split
  · exact h
  · next x hx =>
    split
    · exact h
    · next p hp =>
      unfold Execution.resumeAfterCall
      split_ifs with hs
      · have hl := h.onLine hx hp (by simp [hs, Status.isTerminal])
        have hm := (hl.withStatus .running).settled_moveOn rfl
        exact h.toFramed.sound_run (p := p) (by simpa using hp) hm.onLine fun _ => hm.not_broken
      · rw [← hx]
        exact h

/-- What the current line leaves, as far as the line did not break the run off. -/
theorem lineOutcome [MotionService σ] (h : d.Sound side) (registers : RegisterBank) {x : Execution}
    {p : Program} (hx : d.execution = some x) (hp : d.library.get? x.program.index = some p)
    (hs : x.status = .running) : Execution.Outcome x p (d.lineResult registers x p) := by
  exact Execution.step_outcome (h.onLine hx hp (by simp [hs, Status.isTerminal])) hs _ _

theorem sound_afterLine [MotionService σ] (h : d.Sound side) {registers : RegisterBank}
    {x : Execution} {p : Program} (hx : d.execution = some x)
    (hp : d.library.get? x.program.index = some p) (hs : x.status = .running)
    (hf : ∀ cause, (d.lineResult registers x p).execution.status ≠ .fault cause) :
    (d.afterLine (d.lineResult registers x p)).Sound side := by
  have hl := h.onLine hx hp (by simp [hs, Status.isTerminal])
  have hframed := h.toFramed.withRun none (d.lineResult registers x p).frames
    (d.lineResult registers x p).arm
  cases h.lineOutcome registers hx hp hs with
  | faulted cause he => exact absurd (by rw [he]; rfl) (hf cause)
  | moved hm hr =>
    exact hframed.sound_run (p := p) (by rw [hr]; exact hp) hm.onLine fun _ => hm.not_broken
  | moving handle he =>
    refine hframed.sound_run (p := p) (by rw [he]; exact hp) (fun _ => ?_) fun _ => by rw [he]; rfl
    rw [he]
    exact hl.withStatus _
  | calling target _ he =>
    refine hframed.sound_run (p := p) (by rw [he]; exact hp) (fun _ => ?_) fun _ => by rw [he]; rfl
    rw [he]
    exact hl.withStatus _

theorem tick [MotionService σ] (h : d.Sound side) (registers : RegisterBank) :
    (d.tick registers).device.Sound side := by
  have ht := d.ticked registers
  generalize d.tick registers = t at ht ⊢
  cases ht with
  | reported _ => exact ⟨⟨h.id_eq, h.nested, h.present, by simp⟩, h.runs, h.unbroken⟩
  | unstarted | waiting | stopped => exact h
  | lost => exact h.toFramed.sound_fail _
  | faulted _ _ _ _ hf =>
    refine (h.toFramed.withRun _ _ _).sound_dropCallChain ?_ _
    rintro y hy
    cases hy
    rw [hf]
    rfl
  | advanced _ hx hp hs hf => exact h.sound_afterLine hx hp hs hf
  | calledOver _ hx hp hs hf => exact h.sound_afterLine hx hp hs hf
  | @calledHere x p target ref _ hx hp hs hf hc _ hr _ hd =>
    have hframed := (h.sound_afterLine hx hp hs hf).toFramed
    obtain ⟨-, q, hq, -⟩ := Library.link_of_resolve hr
    rw [hd]
    refine (hframed.push h.id_eq ?_).sound_begin hq _ fun _ => q.length.eq_zero_or_pos
    cases h.lineOutcome registers hx hp hs with
    | faulted _ _ hn | moved _ _ hn | moving _ _ hn => rw [hn] at hc; cases hc
    | calling _ _ he => simp [Execution.callFrame, he, afterLine, hp]
  | refused => exact (h.toFramed.withRun _ _ _).sound_fail _
  | @polled x p handle _ hx hp hs =>
    have hl := h.onLine hx hp (by simp [hs, Status.isTerminal])
    have hframed := h.toFramed.withRun none d.frames (x.advance p d.arm).2.1
    rcases Execution.advance_cases hs d.arm (p := p) with he | he
    · exact hframed.sound_run (p := p) (by rw [he]; exact hp) (fun _ => by rw [he]; exact hl)
        fun _ => by rw [he, hs]; rfl
    · have hm := (hl.withStatus .running).settled_moveOn rfl
      exact hframed.sound_run (p := p) (by rw [he]; simpa using hp) (he ▸ hm.onLine)
        fun _ => he ▸ hm.not_broken
  | returnedOver _ hx _ hs hr hd =>
    obtain ⟨-, rfl⟩ := h.toFramed.rest_of_foreign hr hd
    refine (h.toFramed.pop hr).sound_of_not_busy ?_
    simp [isBusy, isActive, status?, hx, hs, Status.isTerminal]
  | returnLost _ _ _ _ hr => exact (h.toFramed.pop hr).sound_fail _
  | @returnedHere x p q frame rest _ _ _ _ hr _ hq =>
    have hframed := h.toFramed.pop hr
    unfold returned
    split_ifs with hend hmode
    · exact hframed.sound_run hq (by simp [Execution.finished, Status.standing])
        fun _ => by simp [Execution.finished, Status.broken]
    · rw [Execution.start_of_lt _ _ (by omega)]
      exact hframed.sound_run hq (fun _ => ⟨by simpa using hend, rfl⟩) fun _ => rfl
    · rw [Execution.paused, Execution.start_of_lt _ _ (by omega)]
      exact hframed.sound_run hq (fun _ => ⟨by simpa using hend, rfl⟩) fun _ => rfl

/-- A device that waits for a call does nothing but tell of an older failure. -/
theorem tick_of_waiting [MotionService σ] (h : d.Sound side) (registers : RegisterBank)
    (hs : d.status? = some .awaitingCall) :
    (d.tick registers).device.status? = some .awaitingCall ∧
      ((d.tick registers).event = .idle ∨
        ∃ reason, (d.tick registers).event = .callFailed side.other.id reason) := by
  obtain ⟨x, hx, hxs⟩ := Option.map_eq_some_iff.mp hs
  have hfree (y : Execution) (hy : d.execution = some y) : y.status = .awaitingCall := by
    rw [hx] at hy
    exact Option.some.inj hy ▸ hxs
  have ht := d.ticked registers
  generalize d.tick registers = t at ht ⊢
  cases ht with
  | @reported caller reason hr => exact ⟨hs, Or.inr ⟨reason, by rw [h.report caller reason hr]⟩⟩
  | unstarted | waiting | stopped => exact ⟨hs, Or.inl rfl⟩
  | @lost y _ hy hp =>
    have hb := isBusy_of_running hy (by simp [hfree y hy, Status.isTerminal])
    obtain ⟨p, hq, -⟩ := h.runs hb y hy
    cases hp.symm.trans hq
  | faulted _ hy _ hr | advanced _ hy _ hr | calledOver _ hy _ hr | calledHere _ hy _ hr
  | refused _ hy _ hr | polled _ hy _ hr | returnedOver _ hy _ hr | returnLost _ hy _ hr
  | returnedHere _ hy _ hr => cases (hfree _ hy).symm.trans hr

end Sound

end Device

end TeachPendant
