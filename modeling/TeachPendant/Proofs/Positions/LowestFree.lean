import Mathlib.Logic.Function.Basic
import Mathlib.Tactic.SplitIfs
import TeachPendant.Program

namespace TeachPendant

namespace PositionTable

theorem lookup_cons_eq (s slot : UInt64) (point : Point) (points : List (UInt64 × Point)) :
    ((slot, point) :: points).lookup s = if s = slot then some point else points.lookup s := by
  rw [List.lookup_cons]
  by_cases hs : s = slot
  · simp [hs]
  · rw [beq_false_of_ne hs, if_neg hs]

@[simp] theorem lookup_insertPoint (slot s : UInt64) (point : Point)
    (points : List (UInt64 × Point)) :
    (insertPoint slot point points).lookup s = if s = slot then some point else points.lookup s := by
  induction points with
  | nil => exact lookup_cons_eq s slot point []
  | cons e points ih =>
    obtain ⟨k, q⟩ := e
    rw [insertPoint]
    by_cases hlt : slot < k
    · rw [if_pos hlt, lookup_cons_eq]
    · rw [if_neg hlt]
      by_cases hk : slot = k
      · subst hk
        rw [if_pos rfl, lookup_cons_eq, lookup_cons_eq]
        split_ifs <;> rfl
      · rw [if_neg hk, lookup_cons_eq, lookup_cons_eq, ih]
        by_cases hs : s = slot
        · subst hs
          rw [if_neg hk, if_pos rfl, if_pos rfl]
        · rw [if_neg hs, if_neg hs]

@[simp] theorem lookup_filter_ne (slot s : UInt64) (points : List (UInt64 × Point)) :
    (points.filter (·.1 != slot)).lookup s = if s = slot then none else points.lookup s := by
  induction points with
  | nil => simp
  | cons e points ih =>
    obtain ⟨k, q⟩ := e
    rw [lookup_cons_eq]
    by_cases hk : k = slot
    · subst hk
      rw [List.filter_cons_of_neg (by simp), ih]
      split_ifs <;> rfl
    · rw [List.filter_cons_of_pos (by simpa using hk), lookup_cons_eq, ih]
      by_cases hs : s = slot
      · subst hs
        rw [if_neg (Ne.symm hk), if_pos rfl, if_pos rfl]
      · rw [if_neg hs, if_neg hs]

/-- Every slot of the capacity is taken. -/
def Full (t : PositionTable) : Prop :=
  ∀ slot : UInt64, slot.toNat < positionCapacity → t.contains slot

/-- Free, and the slots below are taken. -/
def LowestFree (t : PositionTable) (slot : UInt64) : Prop :=
  t.get? slot = none ∧ ∀ s < slot, t.contains s

variable {points : List (UInt64 × Point)} {n : Nat} {slot s : UInt64}

theorem toNat_succ (h : slot.toNat + (n + 1) ≤ positionCapacity) :
    (slot + 1).toNat = slot.toNat + 1 := by
  unfold positionCapacity at h
  rw [UInt64.toNat_add, show (1 : UInt64).toNat = 1 from rfl]
  omega

theorem freeAmong_eq_some (hn : slot.toNat + n ≤ positionCapacity)
    (h : freeAmong points n slot = some s) :
    s.toNat < slot.toNat + n ∧ points.lookup s = none ∧
      ∀ r, slot ≤ r → r < s → (points.lookup r).isSome := by
  induction n generalizing slot with
  | zero => cases h
  | succ n ih =>
    rw [freeAmong] at h
    split_ifs at h with htaken
    · have hsucc := toNat_succ hn
      obtain ⟨hlt, hfree, hbelow⟩ := ih (by omega) h
      refine ⟨by omega, hfree, fun r hr hrs => ?_⟩
      rcases UInt64.le_iff_lt_or_eq.mp hr with hr | rfl
      · refine hbelow r (UInt64.le_iff_toNat_le.mpr ?_) hrs
        rw [hsucc]
        exact UInt64.lt_iff_toNat_lt.mp hr
      · exact htaken
    · cases h
      refine ⟨by omega, Option.not_isSome_iff_eq_none.mp htaken, fun r hr hrs => ?_⟩
      exact absurd hrs (UInt64.not_lt.mpr hr)

theorem freeAmong_eq_none (hn : slot.toNat + n ≤ positionCapacity)
    (h : freeAmong points n slot = none) {r : UInt64} (hr : slot ≤ r)
    (hlt : r.toNat < slot.toNat + n) : (points.lookup r).isSome := by
  induction n generalizing slot with
  | zero =>
    have hle := UInt64.le_iff_toNat_le.mp hr
    omega
  | succ n ih =>
    rw [freeAmong] at h
    split_ifs at h with htaken
    rcases UInt64.le_iff_lt_or_eq.mp hr with hr | rfl
    · have hsucc := toNat_succ hn
      have hle := UInt64.lt_iff_toNat_lt.mp hr
      exact ih (by omega) h (UInt64.le_iff_toNat_le.mpr (by omega)) (by omega)
    · exact htaken

variable {t : PositionTable} {point : Point}

theorem exists_set (t : PositionTable) (point : Point) (h : slot.toNat < positionCapacity) :
    ∃ t', t.set slot point = .ok t' := ⟨_, if_neg (by omega)⟩

theorem set_of_le (h : positionCapacity ≤ slot.toNat) :
    t.set slot point = .error (.outside "position slot" slot.toNat positionCapacity) := if_pos h

/-- The offer is changed by filling the offered slot only. -/
theorem of_set {t' : PositionTable} (h : t.set slot point = .ok t') :
    slot.toNat < positionCapacity ∧ t'.get? = Function.update t.get? slot (some point) ∧
      t'.nextFree = if slot = t.nextFree then (freeFrom t'.points slot).getD slot else t.nextFree := by
  by_cases hle : positionCapacity ≤ slot.toNat
  · rw [set_of_le hle] at h
    cases h
  · rw [set, if_neg hle] at h
    cases h
    refine ⟨Nat.lt_of_not_le hle, ?_, rfl⟩
    funext s
    simp [get?, Function.update_apply]

theorem clear_of_free (h : t.get? slot = none) : t.clear slot = (t, none) := by
  unfold clear
  rw [h]

/-- The offer is changed when the slot cleared is lower, or when the offer is taken. -/
theorem clear_of_taken (h : t.get? slot = some point) :
    ∃ t', t.clear slot = (t', some point) ∧ t'.get? = Function.update t.get? slot none ∧
      t'.nextFree = if slot < t.nextFree || t'.contains t.nextFree then slot else t.nextFree := by
  unfold clear
  rw [h]
  refine ⟨_, rfl, ?_, rfl⟩
  funext s
  simp [get?, Function.update_apply]

namespace LowestFree

theorem unique {s : UInt64} (h : t.LowestFree slot) (hs : t.LowestFree s) : slot = s := by
  have hle {r s : UInt64} (hr : t.LowestFree r) (hs : t.LowestFree s) : r ≤ s := by
    rw [← UInt64.not_lt]
    intro hlt
    have htaken := hr.2 s hlt
    rw [contains, hs.1] at htaken
    cases htaken
  exact UInt64.le_antisymm (hle h hs) (hle hs h)

theorem not_full (h : t.LowestFree slot) (hlt : slot.toNat < positionCapacity) : ¬ t.Full := by
  intro hfull
  have htaken := hfull slot hlt
  rw [contains, h.1] at htaken
  cases htaken

theorem exists_of_not_full (h : ¬ t.Full) :
    ∃ slot : UInt64, slot.toNat < positionCapacity ∧ t.LowestFree slot := by
  have hn : (0 : UInt64).toNat + positionCapacity ≤ positionCapacity := by decide
  cases hf : freeAmong t.points positionCapacity 0 with
  | some slot =>
    obtain ⟨hlt, hfree, hbelow⟩ := freeAmong_eq_some hn hf
    rw [UInt64.toNat_zero, Nat.zero_add] at hlt
    exact ⟨slot, hlt, hfree, fun s hs => hbelow s UInt64.zero_le hs⟩
  | none =>
    refine absurd (fun slot hlt => ?_) h
    exact freeAmong_eq_none hn hf UInt64.zero_le (by rwa [UInt64.toNat_zero, Nat.zero_add])

end LowestFree

/-- The lowest free slot is offered whenever there is one. -/
def OffersLowest (t : PositionTable) : Prop :=
  ∀ slot : UInt64, slot.toNat < positionCapacity → t.LowestFree slot → t.nextFree = slot

theorem LowestFree.offersLowest (h : t.LowestFree t.nextFree) : t.OffersLowest :=
  fun _ _ hlow => h.unique hlow

namespace OffersLowest

theorem set {t' : PositionTable} (h : t.OffersLowest) (ht : t.set slot point = .ok t') :
    t'.OffersLowest := by
  intro n hn hlow
  obtain ⟨hlt, hget, hnext⟩ := of_set ht
  have htaken (s : UInt64) : t'.contains s ↔ s = slot ∨ t.contains s := by
    unfold contains
    rw [hget, Function.update_apply]
    split_ifs with hs <;> simp [hs]
  have hfree : ¬ t'.contains n := by simp [contains, hlow.1]
  have hne : n ≠ slot := fun he => hfree ((htaken n).mpr (Or.inl he))
  have hopen : ¬ t.contains n := fun hc => hfree ((htaken n).mpr (Or.inr hc))
  obtain ⟨m, hm, hmlow⟩ := LowestFree.exists_of_not_full fun hfull => hopen (hfull n hn)
  have hoffer := h m hm hmlow
  by_cases he : slot = t.nextFree
  · -- The slots below the offer are taken, so the search finds the lowest free slot.
    rw [if_pos he] at hnext
    have hsearch : slot.toNat + (positionCapacity - slot.toNat) ≤ positionCapacity := by omega
    have hup : slot ≤ n := by
      rw [← UInt64.not_lt]
      intro hlt
      exact hopen (hmlow.2 n (hoffer ▸ he ▸ hlt))
    cases hf : freeFrom t'.points slot with
    | some s =>
      obtain ⟨-, hs, hbetween⟩ := freeAmong_eq_some hsearch hf
      rw [hf, Option.getD_some] at hnext
      rw [hnext]
      refine LowestFree.unique ⟨hs, fun r hr => ?_⟩ hlow
      rcases UInt64.lt_or_le r slot with hrs | hrs
      · exact (htaken r).mpr (Or.inr (hmlow.2 r (hoffer ▸ he ▸ hrs)))
      · exact hbetween r hrs hr
    | none => exact absurd (freeAmong_eq_none hsearch hf hup (by omega)) hfree
  · rw [if_neg he] at hnext
    rw [hnext, hoffer]
    have hkept : ¬ t'.contains m := by
      intro hc
      rcases (htaken m).mp hc with hms | hms
      · exact he (hms.symm.trans hoffer.symm)
      · rw [contains, hmlow.1] at hms
        cases hms
    refine LowestFree.unique ⟨by simpa [contains] using hkept, fun r hr => ?_⟩ hlow
    exact (htaken r).mpr (Or.inr (hmlow.2 r hr))

theorem clear (h : t.OffersLowest) (slot : UInt64) : (t.clear slot).1.OffersLowest := by
  cases hs : t.get? slot with
  | none =>
    rw [clear_of_free hs]
    exact h
  | some point =>
    obtain ⟨t', ht, hget, hnext⟩ := clear_of_taken hs
    rw [ht]
    intro n hn hlow
    have htaken (s : UInt64) : t'.contains s ↔ s ≠ slot ∧ t.contains s := by
      unfold contains
      rw [hget, Function.update_apply]
      split_ifs with hs <;> simp [hs]
    have hfree : ¬ t'.contains n := by simp [contains, hlow.1]
    have hcleared : ¬ t'.contains slot := fun hc => ((htaken slot).mp hc).1 rfl
    have hle : n ≤ slot := by
      rw [← UInt64.not_lt]
      exact fun hlt => hcleared (hlow.2 slot hlt)
    have hbelow (s : UInt64) (hs : s < n) : t.contains s := ((htaken s).mp (hlow.2 s hs)).2
    rcases UInt64.le_iff_lt_or_eq.mp hle with hlt | rfl
    · -- The lowest free slot lies below the one cleared, so it was offered before.
      have hopen : ¬ t.contains n := fun hc => hfree ((htaken n).mpr ⟨UInt64.ne_of_lt hlt, hc⟩)
      have hoffer := h n hn ⟨by simpa [contains] using hopen, hbelow⟩
      rw [hnext, hoffer, if_neg (by simp [hfree, UInt64.not_lt.mpr hle])]
    · rw [hnext]
      split_ifs with hlow'
      · rfl
      · simp only [Bool.or_eq_true, decide_eq_true_eq, not_or] at hlow'
        obtain ⟨hup, hopen⟩ := hlow'
        rcases UInt64.le_iff_lt_or_eq.mp (UInt64.not_lt.mp hup) with hlt | he
        · exact absurd (hlow.2 _ hlt) hopen
        · exact he

end OffersLowest

/-- The offer is a slot of the table, the slots below it are taken, and it is taken itself only when
all are. -/
structure Offers (t : PositionTable) : Prop where
  taught_lt : ∀ slot, t.contains slot → slot.toNat < positionCapacity
  offer_lt : t.nextFree.toNat < positionCapacity
  below : ∀ slot < t.nextFree, t.contains slot
  full : t.contains t.nextFree → t.Full

namespace Offers

theorem empty : Offers {} where
  taught_lt := nofun
  offer_lt := by decide
  below slot h := absurd h (by simp)
  full := nofun

theorem lowestFree (h : t.Offers) (hn : ¬ t.Full) : t.LowestFree t.nextFree :=
  ⟨by simpa [contains] using mt h.full hn, h.below⟩

theorem offersLowest (h : t.Offers) : t.OffersLowest :=
  fun _ hlt hlow => (h.lowestFree (hlow.not_full hlt)).unique hlow

theorem of_offersLowest (htaught : ∀ slot, t.contains slot → slot.toNat < positionCapacity)
    (hoffer : t.nextFree.toNat < positionCapacity) (h : t.OffersLowest) : t.Offers := by
  by_cases hfull : t.Full
  · refine ⟨htaught, hoffer, fun s hs => hfull s ?_, fun _ => hfull⟩
    exact Nat.lt_trans (UInt64.lt_iff_toNat_lt.mp hs) hoffer
  · obtain ⟨slot, hlt, hlow⟩ := LowestFree.exists_of_not_full hfull
    obtain rfl := h slot hlt hlow
    refine ⟨htaught, hoffer, hlow.2, fun hc => ?_⟩
    rw [contains, hlow.1] at hc
    cases hc

theorem set {t' : PositionTable} (h : t.Offers) (ht : t.set slot point = .ok t') : t'.Offers := by
  obtain ⟨hlt, hget, hnext⟩ := of_set ht
  refine of_offersLowest (fun s hs => ?_) ?_ (h.offersLowest.set ht)
  · rw [contains, hget, Function.update_apply] at hs
    split_ifs at hs with he
    · exact he ▸ hlt
    · exact h.taught_lt s hs
  · rw [hnext]
    split_ifs
    · have hsearch : slot.toNat + (positionCapacity - slot.toNat) ≤ positionCapacity := by omega
      cases hf : freeFrom t'.points slot with
      | some s =>
        obtain ⟨hs, -, -⟩ := freeAmong_eq_some hsearch hf
        rw [Option.getD_some]
        omega
      | none => exact hlt
    · exact h.offer_lt

theorem clear (h : t.Offers) (slot : UInt64) : (t.clear slot).1.Offers := by
  have hlowest := h.offersLowest.clear slot
  cases hs : t.get? slot with
  | none =>
    rw [clear_of_free hs]
    exact h
  | some point =>
    obtain ⟨t', ht, hget, hnext⟩ := clear_of_taken hs
    rw [ht] at hlowest ⊢
    refine of_offersLowest (fun s hc => ?_) ?_ hlowest
    · rw [contains, hget, Function.update_apply] at hc
      split_ifs at hc
      · cases hc
      · exact h.taught_lt s hc
    · rw [hnext]
      split_ifs
      · exact h.taught_lt slot (by simp [contains, hs])
      · exact h.offer_lt

/-- Teaching fills the offered slot, which is the lowest free one, and fails if there is none. -/
theorem teach_cases (h : t.Offers) (point : Point) :
    t.Full ∧ t.teach point = .error (.full "position table") ∨
      ¬ t.Full ∧ ∃ t', t.set t.nextFree point = .ok t' ∧ t.teach point = .ok (t', t.nextFree) := by
  unfold teach
  split_ifs with hc
  · exact Or.inl ⟨h.full hc, rfl⟩
  · obtain ⟨t', ht⟩ := t.exists_set point h.offer_lt
    exact Or.inr ⟨fun hfull => hc (hfull _ h.offer_lt), t', ht, by rw [ht]⟩

end Offers

end PositionTable

/-- What can be done to the points of a program. -/
inductive PositionEdit
  | teach (point : Point)
  | set (slot : UInt64) (point : Point)
  | clear (slot : UInt64)

namespace PositionTable

/-- The table after an edit. One that fails leaves it as it is. -/
def edit (t : PositionTable) : PositionEdit → PositionTable
  | .teach point =>
    match t.teach point with
    | .ok (t', _) => t'
    | .error _ => t
  | .set slot point =>
    match t.set slot point with
    | .ok t' => t'
    | .error _ => t
  | .clear slot => (t.clear slot).1

theorem Offers.edit {t : PositionTable} (h : t.Offers) (e : PositionEdit) : (t.edit e).Offers := by
  cases e with
  | teach point =>
    rcases h.teach_cases point with ⟨-, ht⟩ | ⟨-, t', hset, ht⟩ <;> simp only [PositionTable.edit, ht]
    · exact h
    · exact h.set hset
  | set slot point =>
    simp only [PositionTable.edit]
    split
    · next t' ht => exact h.set ht
    · exact h
  | clear slot => exact h.clear slot

end PositionTable

/-- A new program after edits of its points. -/
def Program.taught (name : String) (edits : List PositionEdit) : Program :=
  edits.foldl (fun p e => { p with positions := p.positions.edit e }) (.named name)

theorem Program.offers_taught (name : String) (edits : List PositionEdit) :
    (taught name edits).positions.Offers := by
  have hedits (p : Program) (hp : p.positions.Offers) :
      (edits.foldl (fun p e => { p with positions := p.positions.edit e }) p).positions.Offers := by
    induction edits generalizing p with
    | nil => exact hp
    | cons e edits ih => exact ih _ (hp.edit e)
  exact hedits (.named name) .empty

/-- Whatever was done to the points of a program, a new one goes into the lowest free slot, and is
refused only when all slots are taken; no edit touches another slot than its own. -/
theorem Program.taught_lowestFree (name : String) (edits : List PositionEdit) :
    let t := (taught name edits).positions
    (∀ slot, t.contains slot → slot.toNat < positionCapacity) ∧
      (¬ t.Full → t.LowestFree t.nextFree) ∧ (t.Full → t.contains t.nextFree) ∧
      (∀ point, t.Full →
        t.teach point = .error (.full "position table") ∧ t.edit (.teach point) = t) ∧
      (∀ point, ¬ t.Full → ∃ t' slot, t.teach point = .ok (t', slot) ∧ t.LowestFree slot ∧
        t.edit (.teach point) = t' ∧ t'.get? = Function.update t.get? slot (some point)) ∧
      (∀ slot point, (t.edit (.set slot point)).get? =
        if slot.toNat < positionCapacity then Function.update t.get? slot (some point)
        else t.get?) ∧
      ∀ slot, (t.edit (.clear slot)).get? = Function.update t.get? slot none ∧
        (t.clear slot).2 = t.get? slot := by
  intro t
  have h : t.Offers := offers_taught name edits
  refine ⟨h.taught_lt, h.lowestFree, fun hfull => hfull _ h.offer_lt, fun point hfull => ?_,
    fun point hn => ?_, fun slot point => ?_, fun slot => ?_⟩
  · rcases h.teach_cases point with ⟨-, ht⟩ | ⟨hn, -⟩
    · exact ⟨ht, by simp only [PositionTable.edit, ht]⟩
    · exact absurd hfull hn
  · rcases h.teach_cases point with ⟨hfull, -⟩ | ⟨-, t', hset, ht⟩
    · exact absurd hfull hn
    · obtain ⟨-, hget, -⟩ := PositionTable.of_set hset
      exact ⟨t', _, ht, h.lowestFree hn, by simp only [PositionTable.edit, ht], hget⟩
  · split_ifs with hlt
    · obtain ⟨t', ht⟩ := t.exists_set point hlt
      simp only [PositionTable.edit, ht, (PositionTable.of_set ht).2.1]
    · simp only [PositionTable.edit, PositionTable.set_of_le (Nat.le_of_not_lt hlt)]
  · cases hs : t.get? slot with
    | none =>
      rw [PositionTable.edit, PositionTable.clear_of_free hs, ← hs, Function.update_eq_self]
      exact ⟨rfl, rfl⟩
    | some point =>
      obtain ⟨t', ht, hget, -⟩ := PositionTable.clear_of_taken hs
      rw [PositionTable.edit, ht]
      exact ⟨hget, rfl⟩

end TeachPendant
