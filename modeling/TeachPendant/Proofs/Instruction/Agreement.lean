import Mathlib.Tactic.SplitIfs
import TeachPendant.Instruction.Execute
import TeachPendant.Proofs.Expression.Readings

namespace TeachPendant

open Number

/-- Two computations end alike: with the same error, or with results that are related. -/
inductive EndsAlike {α : Type} (P : α → α → Prop) : Except Error α → Except Error α → Prop
  | error (e : Error) : EndsAlike P (.error e) (.error e)
  | ok {a a' : α} (h : P a a') : EndsAlike P (.ok a) (.ok a')

namespace EndsAlike

theorem of_eq {α : Type} {r r' : Except Error α} (h : r = r') : EndsAlike (· = ·) r r' := by
  subst h
  cases r with
  | error e => exact .error e
  | ok a => exact .ok rfl

theorem bind {α β : Type} {P : α → α → Prop} {Q : β → β → Prop} {r r' : Except Error α}
    {f f' : α → Except Error β} (h : EndsAlike P r r')
    (hf : ∀ a a', P a a' → EndsAlike Q (f a) (f' a')) : EndsAlike Q (r >>= f) (r' >>= f') := by
  cases h with
  | error e => exact .error e
  | ok h => exact hf _ _ h

end EndsAlike

inductive RegisterName
  | data (index : UInt64)
  | io (index : UInt64)
  | position (index : UInt64)
  deriving DecidableEq

/-- Registers of one sort, as many in both, that hold the same at the places `P`. -/
structure Agree {α : Type} (P : UInt64 → Prop) (l l' : List (Register α)) : Prop where
  length : l.length = l'.length
  entry : ∀ i, P i → l[i.toNat]? = l'[i.toNat]?

namespace Agree

variable {α : Type} {P : UInt64 → Prop} {l l' l'' : List (Register α)} {i : UInt64}

theorem refl (P : UInt64 → Prop) (l : List (Register α)) : Agree P l l := ⟨rfl, fun _ _ => rfl⟩

theorem symm (h : Agree P l l') : Agree P l' l := ⟨h.length.symm, fun i hi => (h.entry i hi).symm⟩

theorem trans (h : Agree P l l') (h' : Agree P l' l'') : Agree P l l'' :=
  ⟨h.length.trans h'.length, fun i hi => (h.entry i hi).trans (h'.entry i hi)⟩

theorem getElem?_cases (h : Agree P l l') (i : Nat) :
    l[i]? = none ∧ l'[i]? = none ∨ ∃ r r', l[i]? = some r ∧ l'[i]? = some r' := by
  have hlen := h.length
  by_cases hi : i < l.length
  · have hi' : i < l'.length := by omega
    exact Or.inr ⟨l[i], l'[i], List.getElem?_eq_getElem hi, List.getElem?_eq_getElem hi'⟩
  · exact Or.inl ⟨List.getElem?_eq_none (by omega), List.getElem?_eq_none (by omega)⟩

theorem set (h : Agree P l l') {r r' : Register α} (hr : l[i.toNat]? = some r)
    (hr' : l'[i.toNat]? = some r') (x : α) :
    Agree P (l.set i.toNat { r with value := x }) (l'.set i.toNat { r' with value := x }) := by
  have hi := (List.getElem?_eq_some_iff.mp hr).1
  have hi' := (List.getElem?_eq_some_iff.mp hr').1
  refine ⟨by simpa using h.length, fun j hj => ?_⟩
  by_cases hij : i = j
  · -- What is kept beside the value was the same before.
    subst hij
    have hsame := h.entry i hj
    rw [hr, hr', Option.some.injEq] at hsame
    rw [List.getElem?_set_self hi, List.getElem?_set_self hi', hsame]
  · have hne : i.toNat ≠ j.toNat := fun he => hij (UInt64.toNat_inj.mp he)
    rw [List.getElem?_set_ne hne, List.getElem?_set_ne hne, h.entry j hj]

theorem set_of_not (l : List (Register α)) (hi : ¬ P i) (r : Register α) :
    Agree P l (l.set i.toNat r) := by
  refine ⟨by simp, fun j hj => ?_⟩
  have hne : i.toNat ≠ j.toNat := fun he => hi (UInt64.toNat_inj.mp he ▸ hj)
  rw [List.getElem?_set_ne hne]

end Agree

namespace RegisterBank

/-- The banks are of the same sizes and hold the same, comments included, in the registers `R`. -/
structure AgreeOn (R : RegisterName → Prop) (b b' : RegisterBank) : Prop where
  data : Agree (fun i => R (.data i)) b.data b'.data
  io : Agree (fun i => R (.io i)) b.io b'.io
  positions : Agree (fun i => R (.position i)) b.positions b'.positions

namespace AgreeOn

variable {R : RegisterName → Prop} {b b' d : RegisterBank} {i : UInt64}

theorem refl (R : RegisterName → Prop) (b : RegisterBank) : AgreeOn R b b :=
  ⟨.refl _ _, .refl _ _, .refl _ _⟩

theorem symm (h : AgreeOn R b b') : AgreeOn R b' b := ⟨h.data.symm, h.io.symm, h.positions.symm⟩

theorem trans (h : AgreeOn R b b') (h' : AgreeOn R b' d) : AgreeOn R b d :=
  ⟨h.data.trans h'.data, h.io.trans h'.io, h.positions.trans h'.positions⟩

theorem getData_eq (h : AgreeOn R b b') (hr : R (.data i)) : b.getData i = b'.getData i := by
  simp only [getData, noData, h.data.length, h.data.entry i hr]

theorem getIo_eq (h : AgreeOn R b b') (hr : R (.io i)) : b.getIo i = b'.getIo i := by
  simp only [getIo, noIo, h.io.length, h.io.entry i hr]

theorem getPosition_eq (h : AgreeOn R b b') (hr : R (.position i)) :
    b.getPosition i = b'.getPosition i := by
  simp only [getPosition, noPosition, h.positions.length, h.positions.entry i hr]

theorem getComponent_eq (h : AgreeOn R b b') (hr : R (.position i)) (axis : UInt64) :
    b.getComponent i axis = b'.getComponent i axis := by
  simp only [getComponent, h.getPosition_eq hr]

theorem setData (h : AgreeOn R b b') (i : UInt64) (x : Single) :
    EndsAlike (AgreeOn R) (b.setData i x) (b'.setData i x) := by
  unfold RegisterBank.setData
  rcases h.data.getElem?_cases i.toNat with ⟨hr, hr'⟩ | ⟨r, r', hr, hr'⟩
  · simp only [hr, hr', noData, h.data.length]
    exact .error _
  · simp only [hr, hr']
    exact .ok ⟨h.data.set hr hr' x, h.io, h.positions⟩

theorem setIo (h : AgreeOn R b b') (i : UInt64) (x : Bool) :
    EndsAlike (AgreeOn R) (b.setIo i x) (b'.setIo i x) := by
  unfold RegisterBank.setIo
  rcases h.io.getElem?_cases i.toNat with ⟨hr, hr'⟩ | ⟨r, r', hr, hr'⟩
  · simp only [hr, hr', noIo, h.io.length]
    exact .error _
  · simp only [hr, hr']
    exact .ok ⟨h.data, h.io.set hr hr' x, h.positions⟩

theorem setPosition (h : AgreeOn R b b') (i : UInt64) (x : Point) :
    EndsAlike (AgreeOn R) (b.setPosition i x) (b'.setPosition i x) := by
  unfold RegisterBank.setPosition
  rcases h.positions.getElem?_cases i.toNat with ⟨hr, hr'⟩ | ⟨r, r', hr, hr'⟩
  · simp only [hr, hr', noPosition, h.positions.length]
    exact .error _
  · simp only [hr, hr']
    exact .ok ⟨h.data, h.io, h.positions.set hr hr' x⟩

/-- The other components of the position are kept, so it has to be the same in both banks. -/
theorem setComponent (h : AgreeOn R b b') (hr : R (.position i)) (axis : UInt64) (x : Single) :
    EndsAlike (AgreeOn R) (b.setComponent i axis x) (b'.setComponent i axis x) := by
  unfold RegisterBank.setComponent
  rw [h.getPosition_eq hr]
  cases b'.getPosition i with
  | error e => exact .error e
  | ok point =>
    dsimp only
    cases point.setComponent? axis x with
    | none => exact .error _
    | some point => exact h.setPosition i point

theorem of_setData {x : Single} (hr : ¬ R (.data i)) (h : b.setData i x = .ok d) :
    AgreeOn R b d := by
  unfold RegisterBank.setData at h
  split at h <;> cases h
  exact ⟨.set_of_not _ hr _, .refl _ _, .refl _ _⟩

theorem of_setIo {x : Bool} (hr : ¬ R (.io i)) (h : b.setIo i x = .ok d) : AgreeOn R b d := by
  unfold RegisterBank.setIo at h
  split at h <;> cases h
  exact ⟨.refl _ _, .set_of_not _ hr _, .refl _ _⟩

theorem of_setPosition {x : Point} (hr : ¬ R (.position i)) (h : b.setPosition i x = .ok d) :
    AgreeOn R b d := by
  unfold RegisterBank.setPosition at h
  split at h <;> cases h
  exact ⟨.refl _ _, .refl _ _, .set_of_not _ hr _⟩

theorem of_setComponent {axis : UInt64} {x : Single} (hr : ¬ R (.position i))
    (h : b.setComponent i axis x = .ok d) : AgreeOn R b d := by
  unfold RegisterBank.setComponent at h
  split at h
  · cases h
  · split at h
    · exact of_setPosition hr h
    · cases h

end AgreeOn

end RegisterBank

/-- The register that is looked at, if it is one. -/
def Reading.register? : Reading → Option RegisterName
  | .data i => some (.data i)
  | .io i => some (.io i)
  | .position i | .component i _ => some (.position i)
  | .pose => none

def Operand.registers (o : Operand) : List RegisterName := o.readings.filterMap Reading.register?

def Expression.registers (e : Expression) : List RegisterName :=
  e.readings.filterMap Reading.register?

def RegisterTarget.register : RegisterTarget → RegisterName
  | .data i => .data i
  | .io i => .io i
  | .position i | .component i _ => .position i

namespace Context

/-- Contexts that are the same up to registers other than `R`. -/
structure AgreeOn (R : RegisterName → Prop) (c c' : Context) : Prop where
  registers : c.registers.AgreeOn R c'.registers
  frames : c.frames = c'.frames
  pose : c.pose = c'.pose
  device : c.device = c'.device

namespace AgreeOn

variable {R : RegisterName → Prop} {c c' : Context}

theorem reading (h : c.AgreeOn R c') {x : Reading} (hx : ∀ r, x.register? = some r → R r) :
    x.Alike c c' := by
  cases x with
  | data i => exact h.registers.getData_eq (hx _ rfl)
  | io i => exact h.registers.getIo_eq (hx _ rfl)
  | position i => exact h.registers.getPosition_eq (hx _ rfl)
  | component i axis => exact h.registers.getComponent_eq (hx _ rfl) axis
  | pose => exact h.pose

theorem resolve_eq (h : c.AgreeOn R c') {o : Operand} (ho : ∀ r ∈ o.registers, R r) :
    o.resolve c = o.resolve c' :=
  o.resolve_congr fun _ hx => h.reading fun r hr => ho r (List.mem_filterMap.mpr ⟨_, hx, hr⟩)

theorem evaluate_eq (h : c.AgreeOn R c') {e : Expression} (he : ∀ r ∈ e.registers, R r) :
    e.evaluate c = e.evaluate c' :=
  e.evaluate_congr fun _ hx => h.reading fun r hr => he r (List.mem_filterMap.mpr ⟨_, hx, hr⟩)

theorem store (h : c.AgreeOn R c') {target : RegisterTarget} (hr : R target.register) (v : Value) :
    EndsAlike (RegisterBank.AgreeOn R) (c.store target v) (c'.store target v) := by
  unfold Context.store
  split
  · exact h.registers.setData _ _
  · exact h.registers.setComponent hr _ _
  · exact h.registers.setIo _ _
  · exact h.registers.setPosition _ _
  · exact .error _

end AgreeOn

theorem agreeOn_of_store {R : RegisterName → Prop} {c : Context} {target : RegisterTarget}
    {v : Value} {b : RegisterBank} (hr : ¬ R target.register) (h : c.store target v = .ok b) :
    c.registers.AgreeOn R b := by
  unfold store at h
  split at h
  · exact .of_setData hr h
  · exact .of_setComponent hr h
  · exact .of_setIo hr h
  · exact .of_setPosition hr h
  · cases h

end Context

end TeachPendant
