import TeachPendant.Proofs.Cell.CallProtocol

namespace TeachPendant

/-- The numbers of the call that a device works for, of the call whose loss it has still to report,
and of the call it waits for. -/
structure CallNumbers where
  serves : Option Nat := none
  report : Option Nat := none
  waits : Option Nat := none
  deriving DecidableEq

namespace CallNumbers

/-- The number of a tie: a new one gets the number `next`. -/
def carry {α : Type} (before after : Option α) (next : Nat) (n : Option Nat) : Option Nat :=
  match after, before with
  | none, _ => none
  | some _, none => some next
  | some _, some _ => n

/-- The number of a report: one that is left by a call gets the number of that call. -/
def reported (k : CallNumbers) (b b' : Bond) : Option Nat :=
  match b'.report, b.serves, b'.serves with
  | none, _, _ => none
  | some _, some _, none => k.serves
  | some _, _, _ => k.report

/-- The numbers after a change of ties. -/
def note (k : CallNumbers) (next : Nat) (b b' : Bond) : CallNumbers where
  serves := carry b.serves b'.serves next k.serves
  report := k.reported b b'
  waits := carry b.waits b'.waits next k.waits

/-- Numbers are given for the ties that there are. -/
structure Fit (k : CallNumbers) (b : Bond) : Prop where
  serves : k.serves.isSome = b.serves.isSome
  report : k.report.isSome = b.report.isSome
  waits : k.waits.isSome = b.waits.isSome

/-- Call `n` is the one worked for, or it is the last that was, and has still to be reported. -/
def Answers (k : CallNumbers) (n : Nat) : Prop :=
  k.serves = some n ∨ k.serves = none ∧ k.report = some n

inductive LetsGo (k : CallNumbers) : CallNumbers → Prop
  | same : LetsGo k k
  | free : LetsGo k { k with waits := none }
  | drop : LetsGo k { serves := none, report := k.serves <|> k.report, waits := none }

theorem carry_same {α : Type} {tie : Option α} {n : Option Nat} (h : n.isSome = tie.isSome)
    (next : Nat) : carry tie tie next n = n := by
  cases tie with
  | none => exact (Option.isNone_iff_eq_none.mp (by simpa using h)).symm
  | some _ => rfl

theorem isSome_carry {α : Type} {tie : Option α} {n : Option Nat} (h : n.isSome = tie.isSome)
    (after : Option α) (next : Nat) : (carry tie after next n).isSome = after.isSome := by
  cases after with
  | none => rfl
  | some _ =>
    cases tie with
    | none => rfl
    | some _ => exact h

variable {k : CallNumbers} {b b' : Bond}

/-- A report that is not left just now. -/
theorem Fit.reported_same (h : k.Fit b) (hr : b'.report = b.report)
    (hs : b.serves = none ∨ b'.serves.isSome) : k.reported b b' = k.report := by
  unfold reported
  cases hb : b.report with
  | none =>
    rw [hr, hb]
    exact (Option.isNone_iff_eq_none.mp (by simpa [hb] using h.report)).symm
  | some r =>
    rw [hr, hb]
    rcases hs with hs | hs
    · rw [hs]
    · obtain ⟨f, hf⟩ := Option.isSome_iff_exists.mp hs
      rw [hf]
      cases b.serves <;> rfl

theorem serves_kept (b : Bond) : b.serves = none ∨ b.serves.isSome := by
  cases b.serves <;> simp

theorem Fit.note_same (h : k.Fit b) (next : Nat) : k.note next b b = k := by
  rw [note, carry_same h.serves, carry_same h.waits, h.reported_same rfl (serves_kept b)]

theorem Fit.note_free (h : k.Fit b) (next : Nat) :
    k.note next b { b with waits := none } = { k with waits := none } := by
  have hr : k.reported b { b with waits := none } = k.report := h.reported_same rfl (serves_kept b)
  rw [note, carry_same h.serves, hr]
  rfl

theorem Fit.note_drop (h : k.Fit b) (next : Nat) (reason : String) :
    k.note next b (b.drop reason) =
      { serves := none, report := k.serves <|> k.report, waits := none } := by
  have hreport : k.reported b (b.drop reason) = (k.serves <|> k.report) := by
    cases hs : b.serves with
    | none =>
      have hk : k.serves = none := by simpa [hs] using h.serves
      rw [h.reported_same (by simp [Bond.drop, hs]) (Or.inl hs), hk]
      rfl
    | some f =>
      obtain ⟨n, hn⟩ := Option.isSome_iff_exists.mp (h.serves.trans (by rw [hs]; rfl))
      simp [reported, Bond.drop, hs, hn]
  rw [note, hreport]
  rfl

theorem Fit.note_calls (h : k.Fit b) (hb : b.waits = none) (next : Nat) (f : ReturnFrame) :
    k.note next b { b with waits := some f } = { k with waits := some next } := by
  have hr : k.reported b { b with waits := some f } = k.report :=
    h.reported_same rfl (serves_kept b)
  rw [note, carry_same h.serves, hr, hb]
  rfl

theorem Fit.note_takes (h : k.Fit b) (hb : b.serves = none) (next : Nat) (f : ReturnFrame) :
    k.note next b { b with serves := some f } = { k with serves := some next } := by
  have hr : k.reported b { b with serves := some f } = k.report :=
    h.reported_same rfl (Or.inl hb)
  rw [note, carry_same h.waits, hr, hb]
  rfl

theorem Fit.note_tells (h : k.Fit b) (next : Nat) :
    k.note next b { b with report := none } = { k with report := none } := by
  rw [note, carry_same h.waits, carry_same h.serves]
  rfl

theorem Fit.note_returns (h : k.Fit b) (hb : b.report = none) (next : Nat) :
    k.note next b { b with serves := none } = { k with serves := none } := by
  have hr : k.report = none := by simpa [hb] using h.report
  rw [note, carry_same h.waits, hr]
  simp [reported, carry, hb]

theorem Fit.letsGo (h : k.Fit b) (hb : b.LetsGo b') (next : Nat) :
    k.LetsGo (k.note next b b') := by
  cases hb with
  | same =>
    rw [h.note_same]
    exact .same
  | free =>
    rw [h.note_free]
    exact .free
  | drop reason =>
    rw [h.note_drop]
    exact .drop

/-- Numbers still fit if every report was there before or is left by a call. -/
theorem Fit.note (h : k.Fit b)
    (hr : b'.report.isSome → b.report.isSome ∨ b.serves.isSome ∧ b'.serves = none) (next : Nat) :
    (k.note next b b').Fit b' := by
  refine ⟨isSome_carry h.serves _ _, ?_, isSome_carry h.waits _ _⟩
  have hserves := h.serves
  have hreport := h.report
  simp only [CallNumbers.note, reported]
  cases hb' : b'.report with
  | none => rfl
  | some r =>
    have hr := hr (by rw [hb']; rfl)
    cases hs : b.serves with
    | none => simpa [hs, hreport] using hr
    | some f =>
      cases hs' : b'.serves with
      | none => simpa [hs] using hserves
      | some g => simpa [hs', hreport] using hr

namespace LetsGo

variable {k' : CallNumbers} {m n : Nat}

theorem waits (h : k.LetsGo k') (hw : k'.waits = some n) : k.waits = some n := by
  cases h with
  | same => exact hw
  | free | drop => cases hw

theorem answers (h : k.LetsGo k') (ha : k.Answers n) : k'.Answers n := by
  cases h with
  | same | free => exact ha
  | drop =>
    right
    rcases ha with hs | ⟨hs, hr⟩
    · simp [hs]
    · simp [hs, hr]

theorem serves (h : k.LetsGo k') (hs : k'.serves = some n) :
    k.serves = some n ∧ k'.report = k.report := by
  cases h with
  | same | free => exact ⟨hs, rfl⟩
  | drop => cases hs

theorem report (h : k.LetsGo k') (hr : k'.report = some n) :
    k.serves = some n ∨ k.report = some n := by
  cases h with
  | same | free => exact Or.inr hr
  | drop =>
    cases hs : k.serves with
    | none => exact Or.inr (by simpa [hs] using hr)
    | some m => exact Or.inl (by simpa [hs] using hr)

end LetsGo

end CallNumbers

/-- A report was there before, or it is left by the call that is let go of. -/
theorem Bond.LetsGo.report {b b' : Bond} (h : b.LetsGo b') (hr : b'.report.isSome) :
    b.report.isSome ∨ b.serves.isSome ∧ b'.serves = none := by
  cases h with
  | same | free => exact Or.inl hr
  | drop reason =>
    cases hs : b.serves with
    | none => exact Or.inl (by simpa [Bond.drop, hs] using hr)
    | some f => exact Or.inr ⟨rfl, rfl⟩

/-- The numbers of all calls under way; the next call gets the number `next`. -/
structure Ledger where
  next : Nat := 0
  of : Side → CallNumbers := fun _ => {}

namespace Ledger

def note (l : Ledger) (b b' : Side → Bond) : Ledger where
  next :=
    if [Side.first, .second].any fun s => (b s).waits.isNone && (b' s).waits.isSome then l.next + 1
    else l.next
  of s := (l.of s).note l.next (b s) (b' s)

/-- What is known of the numbers in every state. -/
structure Kept (l : Ledger) (b : Side → Bond) : Prop where
  fit : ∀ s, (l.of s).Fit (b s)
  answered : ∀ s n, (l.of s).waits = some n → (l.of s.other).Answers n
  older : ∀ s m n, (l.of s).report = some m → (l.of s).serves = some n → m < n
  below : ∀ s n, (l.of s).serves = some n ∨ (l.of s).report = some n → n < l.next

theorem le_next_note (l : Ledger) (b b' : Side → Bond) : l.next ≤ (l.note b b').next := by
  simp only [note]
  split <;> omega

theorem next_note_of_call (l : Ledger) {b b' : Side → Bond} {s : Side} {f : ReturnFrame}
    (hb : (b s).waits = none) (hb' : (b' s).waits = some f) :
    (l.note b b').next = l.next + 1 := by
  simp only [note]
  rw [if_pos]
  cases s <;> simp [hb, hb']

namespace Kept

variable {l : Ledger} {b b' : Side → Bond}

/-- A device that lets go of its ties keeps what it knows of older calls. -/
theorem older_of_letsGo (h : l.Kept b) {s : Side} {k : CallNumbers} (hk : (l.of s).LetsGo k)
    {m n : Nat} (hr : k.report = some m) (hs : k.serves = some n) : m < n := by
  obtain ⟨hs, he⟩ := hk.serves hs
  exact h.older s m n (he ▸ hr) hs

theorem below_of_letsGo (h : l.Kept b) {s : Side} {k : CallNumbers} (hk : (l.of s).LetsGo k)
    {n : Nat} (hn : k.serves = some n ∨ k.report = some n) : n < l.next := by
  rcases hn with hs | hr
  · exact h.below s n (Or.inl (hk.serves hs).1)
  · exact h.below s n (hk.report hr)

theorem apart (h : l.Kept b) (hl : ∀ s, (b s).LetsGo (b' s)) : (l.note b b').Kept b' := by
  have hk (s : Side) : (l.of s).LetsGo ((l.note b b').of s) := (h.fit s).letsGo (hl s) l.next
  have hnext := l.le_next_note b b'
  constructor
  case fit =>
    intro s
    exact (h.fit s).note (hl s).report l.next
  case answered =>
    intro s n hw
    exact (hk s.other).answers (h.answered s n ((hk s).waits hw))
  case older =>
    intro s m n hr hs
    exact h.older_of_letsGo (hk s) hr hs
  case below =>
    intro s n hn
    have hlt := h.below_of_letsGo (hk s) hn
    omega

theorem taken (h : l.Kept b) {s : Side} {f : ReturnFrame} (hcaller : (b s).waits = none)
    (hcallee : (b s.other).serves = none ∧ (b s.other).waits = none)
    (hcalls : b' s = { b s with waits := some f })
    (htakes : b' s.other = { b s.other with serves := some f }) : (l.note b b').Kept b' := by
  have hs : (l.note b b').of s = { l.of s with waits := some l.next } := by
    simp only [Ledger.note, hcalls]
    exact (h.fit s).note_calls hcaller l.next f
  have ho : (l.note b b').of s.other = { l.of s.other with serves := some l.next } := by
    simp only [Ledger.note, htakes]
    exact (h.fit s.other).note_takes hcallee.1 l.next f
  have hnext : (l.note b b').next = l.next + 1 :=
    l.next_note_of_call hcaller (f := f) (by rw [hcalls])
  have hquiet : (l.of s.other).waits = none := by
    simpa [hcallee.2] using (h.fit s.other).waits
  constructor
  case fit =>
    intro r
    apply (h.fit r).note
    intro hr
    left
    rcases s.eq_or_eq_other r with rfl | rfl
    · rwa [hcalls] at hr
    · rwa [htakes] at hr
  case answered =>
    intro r n hw
    rcases s.eq_or_eq_other r with rfl | rfl
    · rw [hs] at hw
      rw [ho]
      exact Or.inl hw
    · rw [ho] at hw
      exact absurd (hquiet.symm.trans hw) nofun
  case older =>
    intro r m n hr hn
    rcases s.eq_or_eq_other r with rfl | rfl
    · rw [hs] at hr hn
      exact h.older _ m n hr hn
    · rw [ho] at hr hn
      have hlt := h.below _ m (Or.inr hr)
      have he : l.next = n := Option.some.inj hn
      omega
  case below =>
    intro r n hn
    rcases s.eq_or_eq_other r with rfl | rfl
    · rw [hs] at hn
      have hlt := h.below _ n hn
      omega
    · rw [ho] at hn
      rcases hn with hn | hn
      · have he : l.next = n := Option.some.inj hn
        omega
      · have hlt := h.below _ n (Or.inr hn)
        omega

theorem told (h : l.Kept b) {s : Side} (htells : b' s = { b s with report := none })
    (hhears : (b s.other).LetsGo (b' s.other)) (hfree : (b' s.other).waits = none) :
    (l.note b b').Kept b' := by
  have hs : (l.note b b').of s = { l.of s with report := none } := by
    simp only [Ledger.note, htells]
    exact (h.fit s).note_tells l.next
  have ho : (l.of s.other).LetsGo ((l.note b b').of s.other) :=
    (h.fit s.other).letsGo hhears l.next
  have hfit (r : Side) : ((l.note b b').of r).Fit (b' r) := by
    refine (h.fit r).note (fun hr => ?_) l.next
    rcases s.eq_or_eq_other r with rfl | rfl
    · rw [htells] at hr
      cases hr
    · exact hhears.report hr
  have hquiet : ((l.note b b').of s.other).waits = none := by
    simpa [hfree] using (hfit s.other).waits
  have hnext := l.le_next_note b b'
  constructor
  case fit => exact hfit
  case answered =>
    intro r n hw
    rcases s.eq_or_eq_other r with rfl | rfl
    · rw [hs] at hw
      exact ho.answers (h.answered _ n hw)
    · rw [hquiet] at hw
      cases hw
  case older =>
    intro r m n hr hn
    rcases s.eq_or_eq_other r with rfl | rfl
    · rw [hs] at hr
      cases hr
    · exact h.older_of_letsGo ho hr hn
  case below =>
    intro r n hn
    rcases s.eq_or_eq_other r with rfl | rfl
    · rw [hs] at hn
      have hlt := h.below _ n (Or.inl (hn.resolve_right nofun))
      omega
    · have hlt := h.below_of_letsGo ho hn
      omega

theorem returned (h : l.Kept b) {s : Side} (hreport : (b s).report = none)
    (hreturns : b' s = { b s with serves := none })
    (hgoesOn : b' s.other = { b s.other with waits := none }) : (l.note b b').Kept b' := by
  have hs : (l.note b b').of s = { l.of s with serves := none } := by
    simp only [Ledger.note, hreturns]
    exact (h.fit s).note_returns hreport l.next
  have ho : (l.note b b').of s.other = { l.of s.other with waits := none } := by
    simp only [Ledger.note, hgoesOn]
    exact (h.fit s.other).note_free l.next
  have hnext := l.le_next_note b b'
  constructor
  case fit =>
    intro r
    apply (h.fit r).note
    intro hr
    left
    rcases s.eq_or_eq_other r with rfl | rfl
    · rwa [hreturns] at hr
    · rwa [hgoesOn] at hr
  case answered =>
    intro r n hw
    rcases s.eq_or_eq_other r with rfl | rfl
    · rw [hs] at hw
      rw [ho]
      exact h.answered _ n hw
    · rw [ho] at hw
      cases hw
  case older =>
    intro r m n hr hn
    rcases s.eq_or_eq_other r with rfl | rfl
    · rw [hs] at hn
      cases hn
    · rw [ho] at hr hn
      exact h.older _ m n hr hn
  case below =>
    intro r n hn
    rcases s.eq_or_eq_other r with rfl | rfl
    · rw [hs] at hn
      have hlt := h.below _ n (Or.inr (hn.resolve_left nofun))
      omega
    · rw [ho] at hn
      have hlt := h.below _ n hn
      omega

theorem exchange (h : l.Kept b) (he : Exchange b b') : (l.note b b').Kept b' := by
  cases he with
  | apart hl => exact h.apart hl
  | taken s f _ hcaller hcallee hcalls htakes => exact h.taken hcaller hcallee hcalls htakes
  | told s _ _ htells hhears hfree => exact h.told htells hhears hfree
  | returned s f _ hreport hreturns hgoesOn => exact h.returned hreport hreturns hgoesOn

end Kept

end Ledger

end TeachPendant
