import TeachPendant.Proofs.Number.Digits
import TeachPendant.Proofs.Saved.Instruction

namespace TeachPendant

open Number Document

namespace PositionTable

/-- Points in ascending order of their slots, no slot twice. -/
def Ascending (t : PositionTable) : Prop := t.points.Pairwise fun a b => a.1 < b.1

instance (t : PositionTable) : Decidable t.Ascending :=
  inferInstanceAs (Decidable (t.points.Pairwise fun a b => a.1 < b.1))

theorem insertPoint_last {slot : UInt64} {point : Point} {points : List (UInt64 × Point)}
    (h : ∀ e ∈ points, e.1 < slot) : insertPoint slot point points = points ++ [(slot, point)] := by
  induction points with
  | nil => rfl
  | cons e points ih =>
    obtain ⟨s, q⟩ := e
    obtain ⟨hs, hp⟩ := List.forall_mem_cons.mp h
    have hl : ¬ slot < s := UInt64.not_lt.mpr (UInt64.le_of_lt hs)
    have hn : slot ≠ s := (UInt64.ne_of_lt hs).symm
    rw [insertPoint, if_neg hl, if_neg hn, ih hp, List.cons_append]

theorem foldl_insertPoint {points taken : List (UInt64 × Point)}
    (h : (taken ++ points).Pairwise fun a b => a.1 < b.1) :
    points.foldl (fun acc e => insertPoint e.1 e.2 acc) taken = taken ++ points := by
  induction points generalizing taken with
  | nil => rw [List.foldl_nil, List.append_nil]
  | cons e points ih =>
    have he : ∀ a ∈ taken, a.1 < e.1 := fun a ha =>
      (List.pairwise_append.mp h).2.2 a ha e List.mem_cons_self
    rw [List.append_cons] at h
    rw [List.foldl_cons, insertPoint_last he, ih h, List.append_assoc, List.singleton_append]

theorem Ascending.ofPoints {t : PositionTable} (h : t.Ascending) :
    ofPoints t.points t.nextFree = t := by
  rw [PositionTable.ofPoints, @foldl_insertPoint t.points [] h]
  rfl

theorem plain_pointsDocument (t : PositionTable) : t.pointsDocument.Plain := by
  refine .record ?_ ?_
  · intro f hf
    obtain ⟨e, -, rfl⟩ := List.mem_map.mp hf
    exact e.1.toNat_lt
  · intro f hf
    obtain ⟨e, -, rfl⟩ := List.mem_map.mp hf
    exact e.2.plain_toDocument

end PositionTable

/-- A program without what is not saved: the identities of its lines and the links of its calls. -/
def Program.kept (p : Program) : Program :=
  { p with lines := p.lines.map fun l => ⟨0, l.instruction.mapCalls .unlinked⟩, nextId := 0 }

def Library.kept (l : Library) : Library := ⟨l.programs.map Program.kept⟩

namespace Saved

variable {form : Form} {depth : Nat} {w : Passage}

/-- The number of a slot is read from its name, whether this is a number or its digits. -/
theorem slotOf_name (slot : UInt64) : slotOf (w.name (.index slot.toNat)) = some slot := by
  obtain h | h := w.indexName slot.toNat
  · rw [h, slotOf, if_pos slot.toNat_lt, UInt64.ofNat_toNat]
  · have hn := slot.toNat_lt
    have hdigits : (digitChars slot.toNat).all Char.isDigit = true :=
      List.all_eq_true.mpr fun c hc => Nat.isDigit_of_mem_toDigits (by decide) (by decide) hc
    have hlead : ((digitChars slot.toNat).head? == some '0' &&
        decide (1 < (digitChars slot.toNat).length)) = false := by
      rcases Nat.eq_zero_or_pos slot.toNat with hz | hz
      · rw [hz]
        rfl
      · obtain ⟨d, ds, hds, hd⟩ := exists_digitsOf_eq_cons hz
        have hten : d < 10 := lt_ten_of_mem_digitsOf (hds ▸ List.mem_cons_self)
        have hzero : ∀ d < 10, d ≠ 0 → d.digitChar ≠ '0' := by decide
        simp [← map_digitChar_digitsOf, hds, hzero d hten hd]
    have hvalue : (digitChars slot.toNat).foldl (fun v c => v * 10 + (c.toNat - 48)) 0 =
        slot.toNat := by
      have h := appendDigits_digitsOf slot.toNat
      rwa [appendDigits, digitsOf, List.foldl_map] at h
    have hsome : (digitChars slot.toNat).isEmpty = false :=
      List.isEmpty_eq_false_iff.mpr Nat.toDigits_ne_nil
    rw [h, slotOf, String.toList_ofList, hsome, hdigits, hlead, hvalue]
    simp [hn]

theorem points?_image {t : PositionTable} (h : t.pointsDocument.holds depth = true) :
    points? depth (w.image t.pointsDocument) = w.pass t.numbers t.points := by
  cases depth with
  | zero => cases h
  | succ n =>
    rw [PositionTable.pointsDocument, holds, List.all_eq_true] at h
    have hm : (t.points.map fun e =>
        (w.name (.index e.1.toNat), w.image e.2.toDocument)).mapM (fun f => do
          let slot ← slotOf f.1
          let point ← Point.ofDocument? n f.2
          some (slot, point)) = w.pass t.numbers (t.points.map id) := by
      refine Passage.mapM_pass fun e he => ?_
      have hp := h _ (List.mem_map_of_mem he)
      rw [Bool.and_eq_true] at hp
      simp [slotOf_name, Point.ofDocument?_image hp.2]
    simpa [PositionTable.pointsDocument, w.record, points?, Function.comp_def] using hm

theorem program?_image {p : Program} (ha : p.positions.Ascending)
    (h : p.toDocument.holds depth = true) :
    program? form depth (w.image p.toDocument) = w.pass p.numbers p.kept := by
  obtain ⟨n, rfl, hf⟩ := holds_object.mp h
  simp only [List.forall_mem_cons] at hf
  obtain ⟨-, hi, hp, -⟩ := hf
  have hl : listOf? (instruction? form) n
      (w.image (.list (p.lines.map fun l => l.instruction.toDocument))) =
        w.pass (p.lines.flatMap fun l => l.instruction.numbers)
          (p.lines.map fun l => l.instruction.mapCalls .unlinked) :=
    w.listOf?_image hi fun l _ m hm => readsInstruction w l.instruction form m hm
  rw [program?, Program.toDocument, w.fields?_object (by simp)]
  simp [List.lookup_cons, text?, hl, points?_image hp, ha.ofPoints, Program.kept, Program.numbers,
    Function.comp_def]

theorem library?_image {l : Library} (ha : ∀ p ∈ l.programs, p.positions.Ascending)
    (h : l.toDocument.holds depth = true) :
    library? form depth (w.image l.toDocument) = w.pass l.numbers l.kept := by
  obtain ⟨n, rfl, hf⟩ := holds_object.mp h
  rw [List.forall_mem_singleton] at hf
  have hl : listOf? (program? form) n (w.image (.list (l.programs.map Program.toDocument))) =
      w.pass (l.programs.flatMap Program.numbers) (l.programs.map Program.kept) :=
    w.listOf?_image hf fun p hp m hm => program?_image (ha p hp) hm
  rw [library?, Library.toDocument, w.fields?_object (by simp)]
  simp [List.lookup_cons, hl, Library.kept, Library.numbers]

/-- A comment that was left out for being empty is read as an empty one. -/
theorem register?_image {α : Type} {read : Nat → Document → Option α} {write : α → Document}
    {numbers : α → List Single} {r : Register α}
    (hr : ∀ n, (write r.value).holds n = true →
      read n (w.image (write r.value)) = w.pass (numbers r.value) r.value)
    (h : (r.toDocument write).holds depth = true) :
    register? read depth (w.image (r.toDocument write)) = w.pass (numbers r.value) r := by
  obtain ⟨value, comment⟩ := r
  rw [Register.toDocument] at h ⊢
  obtain ⟨n, rfl, hf⟩ := holds_object.mp h
  have hv := hr n (hf _ List.mem_cons_self)
  by_cases hc : comment.isEmpty = true
  · have he : comment = "" := by simpa using hc
    rw [if_pos hc, register?, w.fields?_object (by simp)]
    simp [List.lookup_cons, hv, fieldOr?, he]
  · rw [if_neg hc, register?, w.fields?_object (by simp)]
    simp [List.lookup_cons, hv, fieldOr?, text?]

theorem registers?_image {α : Type} {read : Nat → Document → Option α} {write : α → Document}
    {numbers : α → List Single}
    (hr : ∀ x n, (write x).holds n = true → read n (w.image (write x)) = w.pass (numbers x) x)
    {rs : List (Register α)} (h : (list (rs.map (Register.toDocument write))).holds depth = true) :
    listOf? (register? read) depth (w.image (.list (rs.map (Register.toDocument write)))) =
      w.pass (rs.flatMap fun r => numbers r.value) rs := by
  have hl : listOf? (register? read) depth (w.image (.list (rs.map (Register.toDocument write)))) =
      w.pass (rs.flatMap fun r => numbers r.value) (rs.map id) :=
    w.listOf?_image h fun r _ m hm => register?_image (hr r.value) hm
  rwa [List.map_id] at hl

theorem registerBank?_image {bank : RegisterBank} (h : bank.toDocument.holds depth = true) :
    registerBank? depth (w.image bank.toDocument) = w.pass bank.numbers bank := by
  obtain ⟨n, rfl, hf⟩ := holds_object.mp h
  simp only [List.forall_mem_cons] at hf
  obtain ⟨hd, hi, hp, -⟩ := hf
  have flag (b : Bool) (m : Nat) (_ : (Document.bool b).holds m = true) :
      (w.image (.bool b)).bool? = w.pass [] b := by
    rw [w.bool]
    rfl
  have hds := registers?_image (w := w) (fun x _ _ => Passage.number?_single x) hd
  have his := registers?_image flag hi
  have hps := registers?_image (w := w) (fun _ _ hx => Point.ofDocument?_image hx) hp
  have hnone : (bank.io.flatMap fun _ => ([] : List Single)) = [] := by simp
  rw [registerBank?, RegisterBank.toDocument, w.fields?_object (by simp)]
  simp [List.lookup_cons, hds, his, hps, hnone, RegisterBank.numbers,
    List.map_eq_flatMap (f := Register.value)]

end Saved

@[simp] theorem Program.plain_toDocument (p : Program) : p.toDocument.Plain := by
  simp [toDocument, p.positions.plain_pointsDocument]

@[simp] theorem Library.plain_toDocument (l : Library) : l.toDocument.Plain := by
  simp [toDocument]

theorem Register.plain_toDocument {α : Type} {write : α → Document} (hw : ∀ x, (write x).Plain)
    (r : Register α) : (r.toDocument write).Plain := by
  rw [toDocument]
  split <;> simp [hw]

@[simp] theorem RegisterBank.plain_toDocument (bank : RegisterBank) : bank.toDocument.Plain := by
  simp [toDocument, Register.plain_toDocument]

end TeachPendant
