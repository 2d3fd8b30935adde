import TeachPendant.Proofs.Linking.Loaded
import TeachPendant.Proofs.Positions.LowestFree

namespace TeachPendant

namespace PositionTable

variable {t : PositionTable} {slot : UInt64} {point : Point}

/-- A point that is taught goes into the lowest free slot, whenever there is one. -/
def Teaches (t : PositionTable) : Prop :=
  ∀ (point : Point) (slot : UInt64), slot.toNat < positionCapacity → t.LowestFree slot →
    ∃ t', t.teach point = .ok (t', slot) ∧ t'.get? = Function.update t.get? slot (some point)

/-- The table after one edit after the other. -/
def edited (t : PositionTable) (edits : List PositionEdit) : PositionTable := edits.foldl edit t

theorem lowestFree_one (hzero : t.contains 0) (hone : t.get? 1 = none) : t.LowestFree 1 := by
  refine ⟨hone, fun s hs => ?_⟩
  rwa [UInt64.lt_one_iff.mp hs]

theorem teach_of_taken (h : t.contains t.nextFree) (point : Point) :
    t.teach point = .error (.full "position table") := if_pos h

/-- A free slot that is offered is filled, if it is one of the capacity. -/
theorem teach_of_free (h : ¬ t.contains t.nextFree) (point : Point) :
    t.teach point = (t.set t.nextFree point).map fun t' => (t', t.nextFree) := by
  rw [teach, if_neg h]
  cases t.set t.nextFree point <;> rfl

theorem teaches_iff (t : PositionTable) : t.Teaches ↔ t.OffersLowest := by
  constructor
  · intro h slot hlt hlow
    obtain ⟨t', ht, -⟩ := h .origin slot hlt hlow
    by_cases hc : t.contains t.nextFree
    · rw [teach_of_taken hc] at ht
      cases ht
    · rw [teach_of_free hc] at ht
      cases hs : t.set t.nextFree .origin <;> rw [hs] at ht <;> cases ht
      rfl
  · intro h point slot hlt hlow
    obtain rfl := h slot hlt hlow
    have hopen : ¬ t.contains t.nextFree := by simp [contains, hlow.1]
    obtain ⟨t', ht⟩ := t.exists_set point hlt
    exact ⟨t', by rw [teach_of_free hopen, ht]; rfl, (of_set ht).2.1⟩

theorem OffersLowest.edit (h : t.OffersLowest) (e : PositionEdit) : (t.edit e).OffersLowest := by
  cases e with
  | teach point =>
    by_cases hc : t.contains t.nextFree
    · simp only [PositionTable.edit, teach_of_taken hc]
      exact h
    · simp only [PositionTable.edit, teach_of_free hc]
      cases ht : t.set t.nextFree point with
      | ok t' => exact h.set ht
      | error e => exact h
  | set slot point =>
    simp only [PositionTable.edit]
    split
    · next t' ht => exact h.set ht
    · exact h
  | clear slot => exact h.clear slot

theorem OffersLowest.edited (h : t.OffersLowest) (edits : List PositionEdit) :
    (t.edited edits).OffersLowest := by
  induction edits generalizing t with
  | nil => exact h
  | cons e edits ih => exact ih (h.edit e)

/-- Teaching works after all edits if it works before any. -/
theorem forall_teaches_iff (t : PositionTable) :
    (∀ edits, (t.edited edits).Teaches) ↔ t.OffersLowest := by
  constructor
  · intro h
    exact t.teaches_iff.mp (h [])
  · intro h edits
    exact (teaches_iff _).mpr (h.edited edits)

end PositionTable

namespace Snapshot

variable {s read : Snapshot} {d i : Nat} {p : Program}

/-- The program at a place of the library of a device. -/
def program? (s : Snapshot) (d i : Nat) : Option Program :=
  (s.libraries[d]?).bind (·.programs[i]?)

/-- What the file of a loaded snapshot holds, before its lines are numbered and its calls linked. -/
inductive LoadedAs (read s : Snapshot) : Prop
  | json {text : String} {trace : Trace}
    (holds : (JsonReader.read? text).bind (ofDocument? .json Form.json.depth) = some read)
    (load : ofJson text = .ok (s, trace))
  | messagePack {bytes : List UInt8} {trace : Trace}
    (holds : (MessagePack.read? bytes).bind (ofDocument? .messagePack Form.messagePack.depth) =
      some read)
    (load : ofMessagePack bytes = .ok (s, trace))
  | file {bytes content : List UInt8} {trace : Trace}
    (contents : Frame.contents bytes = .ok content)
    (holds : (MessagePack.read? content).bind (ofDocument? .messagePack Form.messagePack.depth) =
      some read)
    (load : ofBytes bytes = .ok (s, trace))

theorem exists_of_ofMessagePack {bytes : List UInt8} {trace : Trace}
    (h : ofMessagePack bytes = .ok (s, trace)) : ∃ read,
    (MessagePack.read? bytes).bind (ofDocument? .messagePack Form.messagePack.depth) = some read ∧
      finish read = .ok (s, trace) := by
  unfold ofMessagePack at h
  split_ifs at h
  split at h
  · next read hread => exact ⟨read, hread, h⟩
  · cases h

theorem restored_of_finish {trace : Trace} (h : finish read = .ok (s, trace)) :
    read.Restored s := by
  unfold finish at h
  split_ifs at h
  obtain ⟨rfl, -⟩ := Prod.mk.inj (Except.ok.inj h)
  exact read.restored_link

/-- Whatever is loaded was read from its file and restored. -/
theorem Loaded.restored (h : s.Loaded) : ∃ read, LoadedAs read s ∧ read.Restored s := by
  cases h with
  | json load =>
    have hload := load
    unfold ofJson at hload
    split at hload
    · next read holds => exact ⟨read, .json holds load, restored_of_finish hload⟩
    · cases hload
  | messagePack load =>
    obtain ⟨read, holds, hfinish⟩ := exists_of_ofMessagePack load
    exact ⟨read, .messagePack holds load, restored_of_finish hfinish⟩
  | file load =>
    have hload := load
    unfold ofBytes at hload
    split at hload
    · next content contents =>
      obtain ⟨read, holds, hfinish⟩ := exists_of_ofMessagePack hload
      exact ⟨read, .file contents holds load, restored_of_finish hfinish⟩
    · cases hload

/-- The points of a program are those that its file holds. -/
theorem Restored.positions (h : read.Restored s) (hp : s.program? d i = some p) :
    ∃ q, read.program? d i = some q ∧ p.positions = q.positions := by
  obtain ⟨m, hm, hi⟩ := Option.bind_eq_some_iff.mp hp
  rcases getElem?_of_forall₂ h.text.libraries d with ⟨-, hnone⟩ | ⟨l, m', hl, hm', hlm⟩
  · cases hm.symm.trans hnone
  obtain rfl : m = m' := Option.some.inj (hm.symm.trans hm')
  rcases getElem?_of_forall₂ hlm i with ⟨-, hnone⟩ | ⟨q, p', hq, hp', hqp⟩
  · cases hi.symm.trans hnone
  obtain rfl : p = p' := Option.some.inj (hi.symm.trans hp')
  exact ⟨q, Option.bind_eq_some_iff.mpr ⟨l, hl, hq⟩, hqp.positions_eq.symm⟩

/-- In every program that is loaded, teaching works after any edits of the points exactly if the
table in the file offers its lowest free slot. -/
theorem Loaded.teaches_edited_iff (h : s.Loaded) : ∃ read, LoadedAs read s ∧
    ∀ d i p, s.program? d i = some p → ∃ q, read.program? d i = some q ∧
      p.positions = q.positions ∧
      ((∀ edits, (p.positions.edited edits).Teaches) ↔ q.positions.OffersLowest) := by
  obtain ⟨read, hread, hrestored⟩ := h.restored
  refine ⟨read, hread, fun d i p hp => ?_⟩
  obtain ⟨q, hq, hpositions⟩ := hrestored.positions hp
  refine ⟨q, hq, hpositions, ?_⟩
  rw [← hpositions]
  exact p.positions.forall_teaches_iff

/-- The first program offers the slot that is taken, the second one its lowest free slot, though it
holds a point outside of the capacity. -/
def pointed : Snapshot where
  registers := .ofSizes 0 0 0
  libraries := [⟨[
    { name := "MAIN", positions := ⟨[(0, .origin)], 0⟩ },
    { name := "WORK", positions := ⟨[(0, .origin), (2, .origin), (1500, .origin)], 1⟩ }]⟩]

/-- What is read of the file of `pointed`. -/
def pointedLoaded : Snapshot := pointed.renumber.link.1

theorem ofMessagePack_pointed : ofMessagePack pointed.toMessagePack = .ok (pointedLoaded, []) := by
  have h : pointed.Storable := ⟨by decide, by decide, by decide +kernel, by decide +kernel⟩
  have hread := h.ofMessagePack_append []
  rw [List.append_nil] at hread
  exact hread.trans rfl

theorem teaches_edited_work : pointedLoaded.Loaded ∧ ∃ p, pointedLoaded.program? 0 1 = some p ∧
    ∀ edits, (p.positions.edited edits).Teaches := by
  have h : pointedLoaded.Loaded := .messagePack ofMessagePack_pointed
  obtain ⟨read, -, hprograms⟩ := Loaded.teaches_edited_iff h
  obtain ⟨q, -, hpositions, hteaches⟩ := hprograms 0 1 _ rfl
  refine ⟨h, _, rfl, hteaches.mpr ?_⟩
  rw [← hpositions]
  exact (PositionTable.lowestFree_one (by decide) (by decide)).offersLowest

/-- A slot is free, and still nothing can be taught. -/
theorem not_teaches_main :
    ofMessagePack pointed.toMessagePack = .ok (pointedLoaded, []) ∧
      ∃ p, pointedLoaded.program? 0 0 = some p ∧ p.positions.LowestFree 1 ∧
        ∀ point, p.positions.teach point = .error (.full "position table") := by
  exact ⟨ofMessagePack_pointed, _, rfl, PositionTable.lowestFree_one (by decide) (by decide),
    PositionTable.teach_of_taken (by decide)⟩

end Snapshot

end TeachPendant
