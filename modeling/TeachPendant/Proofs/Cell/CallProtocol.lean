import TeachPendant.Arm.Instant
import TeachPendant.Proofs.Cell.Exchange

namespace TeachPendant

/-- Whether this device works for the frame, or has still to report the loss of a call to the device
of the frame. -/
def Bond.Answers (b : Bond) (f : ReturnFrame) : Prop :=
  b.serves = some f ∨ ∃ reason, b.report = some (f.device, reason)

/-- The ties of the two devices match. -/
structure Coherent (b : Side → Bond) : Prop where
  served : ∀ s f, (b s).serves = some f → f.device = s.other.id
  own : ∀ s f, (b s).waits = some f → f.device = s.id
  alone : ∀ s f, (b s).waits = some f → (b s.other).waits = none
  answered : ∀ s f, (b s).waits = some f → (b s.other).Answers f

namespace Bond.LetsGo

variable {b b' : Bond} {f : ReturnFrame}

theorem waits (h : b.LetsGo b') (hw : b'.waits = some f) : b.waits = some f := by
  cases h with
  | same => exact hw
  | free | drop => cases hw

theorem free_of_free (h : b.LetsGo b') (hw : b.waits = none) : b'.waits = none := by
  cases h with
  | same => exact hw
  | free | drop => rfl

theorem serves (h : b.LetsGo b') (hs : b'.serves = some f) : b.serves = some f := by
  cases h with
  | same | free => exact hs
  | drop => cases hs

/-- A caller that is let go of is told so. -/
theorem answers (h : b.LetsGo b') (hd : ∀ g, b.serves = some g → g.device = f.device)
    (ha : b.Answers f) : b'.Answers f := by
  cases h with
  | same | free => exact ha
  | drop reason =>
    right
    cases hs : b.serves with
    | some g => exact ⟨reason, by simp [Bond.drop, hs, hd g hs]⟩
    | none =>
      obtain ⟨told, ht⟩ := ha.resolve_left (by simp [hs])
      exact ⟨told, by simp [Bond.drop, hs, ht]⟩

end Bond.LetsGo

namespace Coherent

variable {b b' : Side → Bond}

/-- What the other device keeps for a waiting one when it lets go of its own ties. -/
theorem answers_of_letsGo (h : Coherent b) {s : Side} {f : ReturnFrame}
    (hw : (b s).waits = some f) (ho : (b s.other).LetsGo (b' s.other)) : (b' s.other).Answers f := by
  refine ho.answers (fun g hg => ?_) (h.answered s f hw)
  rw [h.served s.other g hg, h.own s f hw, Side.other_other]

/-- Ties match if only the device `s` waits, and matches what the other one keeps for it. -/
theorem of_caller {s : Side} (served : ∀ r f, (b r).serves = some f → f.device = r.other.id)
    (free : (b s.other).waits = none)
    (caller : ∀ f, (b s).waits = some f → f.device = s.id ∧ (b s.other).Answers f) :
    Coherent b := by
  have hwaits (r : Side) (f : ReturnFrame) (hw : (b r).waits = some f) : r = s := by
    rcases s.eq_or_eq_other r with rfl | rfl
    · rfl
    · exact absurd (free.symm.trans hw) nofun
  refine ⟨served, ?_, ?_, ?_⟩ <;> intro r f hw <;> obtain rfl := hwaits r f hw
  · exact (caller f hw).1
  · exact free
  · exact (caller f hw).2

theorem apart (h : Coherent b) (hl : ∀ s, (b s).LetsGo (b' s)) : Coherent b' := by
  constructor
  · intro s f hs
    exact h.served s f ((hl s).serves hs)
  · intro s f hw
    exact h.own s f ((hl s).waits hw)
  · intro s f hw
    exact (hl s.other).free_of_free (h.alone s f ((hl s).waits hw))
  · intro s f hw
    exact h.answers_of_letsGo ((hl s).waits hw) (hl s.other)

theorem taken (h : Coherent b) {s : Side} {frame : ReturnFrame} (hd : frame.device = s.id)
    (hcallee : (b s.other).waits = none) (hcalls : b' s = { b s with waits := some frame })
    (htakes : b' s.other = { b s.other with serves := some frame }) : Coherent b' := by
  apply of_caller (s := s)
  · intro r f hs
    rcases s.eq_or_eq_other r with rfl | rfl
    · rw [hcalls] at hs
      exact h.served _ f hs
    · rw [htakes] at hs
      rw [Side.other_other, ← Option.some.inj hs, hd]
  · rw [htakes]
    exact hcallee
  · intro f hw
    rw [hcalls] at hw
    obtain rfl := Option.some.inj hw
    rw [htakes]
    exact ⟨hd, Or.inl rfl⟩

theorem told (h : Coherent b) {s : Side} (htells : b' s = { b s with report := none })
    (hhears : (b s.other).LetsGo (b' s.other)) (hfree : (b' s.other).waits = none) :
    Coherent b' := by
  apply of_caller (s := s) _ hfree
  · intro f hw
    rw [htells] at hw
    exact ⟨h.own s f hw, h.answers_of_letsGo hw hhears⟩
  · intro r f hs
    rcases s.eq_or_eq_other r with rfl | rfl
    · rw [htells] at hs
      exact h.served _ f hs
    · exact h.served _ f (hhears.serves hs)

theorem returned (h : Coherent b) {s : Side} (hreturns : b' s = { b s with serves := none })
    (hgoesOn : b' s.other = { b s.other with waits := none }) : Coherent b' := by
  apply of_caller (s := s)
  · intro r f hs
    rcases s.eq_or_eq_other r with rfl | rfl
    · rw [hreturns] at hs
      cases hs
    · rw [hgoesOn] at hs
      exact h.served _ f hs
  · rw [hgoesOn]
  · intro f hw
    rw [hreturns] at hw
    rw [hgoesOn]
    exact ⟨h.own s f hw, h.answered s f hw⟩

theorem exchange (h : Coherent b) (he : Exchange b b') : Coherent b' := by
  cases he with
  | apart hl => exact h.apart hl
  | taken s _ hd _ hcallee hcalls htakes => exact h.taken hd hcallee.2 hcalls htakes
  | told s _ _ htells hhears hfree => exact h.told htells hhears hfree
  | returned s _ _ _ hreturns hgoesOn => exact h.returned hreturns hgoesOn

end Coherent

namespace Cell

variable {σ : Type}

theorem coherent_build (registers : RegisterBank) (first second : Library) (arm : Side → σ) :
    Coherent (build registers first second arm).1.bonds := by
  have hnone (s : Side) : (build registers first second arm).1.bonds s = ⟨none, none, none⟩ := by
    cases s <;> rfl
  constructor <;> simp [hnone]

/-- How calls between the devices stand, as far as it can be seen from outside. -/
structure CallProtocol (c : Cell σ) : Prop where
  oneWaits : ¬ (c.first.status? = some .awaitingCall ∧ c.second.status? = some .awaitingCall)
  /-- Whoever waits has its frame at the bottom of the stack of the other device, or a report there. -/
  answered : ∀ s x, (c.get s).execution = some x → x.status = .awaitingCall →
    (∃ f, (c.get s.other).returnStack.getLast? = some f ∧ f.device = s.id ∧
      f.program = x.program ∧ f.resumeAt = x.current + 1) ∨
    ∃ reason, (c.get s.other).abandoned = some (s.id, reason)
  foreignAtBottom : ∀ s, ∀ f ∈ (c.get s).returnStack.dropLast, f.device = s.id
  unbroken : ∀ s, (c.get s).returnStack ≠ [] → ∃ status, (c.get s).status? = some status ∧
    (∀ cause, status ≠ .fault cause) ∧ status ≠ .done .halted

variable [MotionService σ]

theorem Reachable.coherent {c : Cell σ} (h : c.Reachable) : Coherent c.bonds := by
  have hboth : c.Sound ∧ Coherent c.bonds :=
    h.invariant (P := fun c => c.Sound ∧ Coherent c.bonds)
      (fun r l m a => ⟨sound_build r l m a, coherent_build r l m a⟩)
      fun _ m hc => ⟨hc.1.move m, hc.2.exchange (hc.1.exchange m)⟩
  exact hboth.2

theorem Reachable.callProtocol {c : Cell σ} (h : c.Reachable) : c.CallProtocol := by
  have hs := h.sound
  have hc := h.coherent
  have hwaits {s : Side} {x : Execution} (hx : (c.get s).execution = some x)
      (ha : x.status = .awaitingCall) : (c.bonds s).waits = some (x.callFrame s.id) := by
    simp [bonds, Device.bond, Device.waiting?, hx, ha, (hs s).id_eq]
  refine ⟨?_, ?_, ?_, ?_⟩
  · rintro ⟨hfirst, hsecond⟩
    obtain ⟨x, hx, hxs⟩ := Option.map_eq_some_iff.mp hfirst
    have hfree := hc.alone .first _ (hwaits (s := .first) hx hxs)
    exact (Device.waiting?_eq_none_iff c.second).mp hfree hsecond
  · intro s x hx hxs
    rcases hc.answered s _ (hwaits hx hxs) with hserves | hreport
    · have hforeign : foreign? s.other.id (c.get s.other).returnStack = some (x.callFrame s.id) := by
        rw [← (hs s.other).id_eq]
        exact hserves
      exact Or.inl ⟨_, (hs s.other).nested.getLast?_of_foreign hforeign, rfl, rfl, rfl⟩
    · exact Or.inr hreport
  · intro s
    exact (hs s).nested.own_of_dropLast
  · intro s hstack
    obtain ⟨x, hx, hxb⟩ := (hs s).unbroken hstack
    refine ⟨x.status, by simp [Device.status?, hx], ?_, ?_⟩
    · intro cause he
      simp [he, Status.broken] at hxb
    · intro he
      simp [he, Status.broken] at hxb

/-- A program of the first device that calls one of the second. -/
def oneCall : Cell InstantArm :=
  (build (.ofSizes 0 0 0) ⟨[.written "MAIN" [.call { program := "WORK", device := 1 }]]⟩
    ⟨[.written "WORK" [.blank, .blank, .blank]]⟩ fun _ => {}).1

theorem callProtocol_oneCall :
    (oneCall.operate [.start 0 "MAIN" .full 0, .tick]).first.status? = some .awaitingCall ∧
      (oneCall.operate [.start 0 "MAIN" .full 0, .tick]).CallProtocol :=
  ⟨by decide, Reachable.callProtocol ⟨_, _, _, _, _, rfl⟩⟩

end Cell

end TeachPendant
