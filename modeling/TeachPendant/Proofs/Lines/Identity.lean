import TeachPendant.Proofs.Positions.Reloaded

namespace TeachPendant

namespace Program

/-- The identities of the lines, in order. -/
def ids (p : Program) : List Nat := p.lines.map (·.id)

@[simp] theorem length_ids (p : Program) : p.ids.length = p.length := List.length_map _

theorem positionOf_eq_none {p : Program} {id : Nat} (h : ∀ (k : Nat) line, p.lines[k]? = some line →
    line.id ≠ id) : p.positionOf id = none := by
  rw [positionOf, List.findIdx?_eq_none_iff]
  intro line hline
  obtain ⟨k, hk⟩ := List.mem_iff_getElem?.mp hline
  exact beq_eq_false_iff_ne.mpr (h k line hk)

/-- An instruction that is replaced leaves its identity to the next. -/
theorem set_eq_ok {p q : Program} {i : Nat} {instruction : Instruction} {old : Line}
    (h : p.set i instruction = .ok (q, old)) : p.lines[i]? = some old ∧
      q = { p with lines := p.lines.set i ⟨old.id, instruction⟩ } := by
  unfold set at h
  split at h
  · next line hi =>
    cases h
    exact ⟨hi, rfl⟩
  · cases h

theorem insert_isOk_iff (p : Program) (i : Nat) (instruction : Instruction) :
    (p.insert i instruction).isOk ↔ i ≤ p.length := by
  rw [insert, ← Nat.not_lt]
  split_ifs with hi
  · exact iff_of_false nofun (not_not_intro hi)
  · exact iff_of_true rfl hi

theorem remove_isOk_iff (p : Program) (i : Nat) : (p.remove i).isOk ↔ i < p.length := by
  rw [remove]
  cases hi : p.lines[i]? with
  | none => exact iff_of_false nofun (Nat.not_lt.mpr (List.getElem?_eq_none_iff.mp hi))
  | some line => exact iff_of_true rfl (List.getElem?_eq_some_iff.mp hi).choose

theorem set_isOk_iff (p : Program) (i : Nat) (instruction : Instruction) :
    (p.set i instruction).isOk ↔ i < p.length := by
  rw [set]
  cases hi : p.lines[i]? with
  | none => exact iff_of_false nofun (Nat.not_lt.mpr (List.getElem?_eq_none_iff.mp hi))
  | some line => exact iff_of_true rfl (List.getElem?_eq_some_iff.mp hi).choose

theorem ids_set {p : Program} {i : Nat} {old : Line} (hold : p.lines[i]? = some old)
    (instruction : Instruction) : (p.lines.set i ⟨old.id, instruction⟩).map (·.id) = p.ids := by
  have hid : p.ids[i]? = some old.id := by rw [ids, List.getElem?_map, hold, Option.map_some]
  obtain ⟨hlt, hid⟩ := List.getElem?_eq_some_iff.mp hid
  rw [List.map_set, ← hid]
  exact List.set_getElem_self hlt

/-- Identities are counted from one up, and lines have different ones. -/
structure Identified (p : Program) : Prop where
  next_pos : 0 < p.nextId
  ids_pos : ∀ id ∈ p.ids, 0 < id
  ids_lt : ∀ id ∈ p.ids, id < p.nextId
  nodup : p.ids.Nodup

namespace Identified

variable {p : Program}

theorem freshId (h : p.Identified) : p.freshId = p.nextId := Nat.max_eq_left h.next_pos

theorem eq_of_id_eq (h : p.Identified) {j k : Nat} {line line' : Line}
    (hj : p.lines[j]? = some line) (hk : p.lines[k]? = some line') (hid : line.id = line'.id) :
    j = k := by
  have hj' : p.ids[j]? = some line.id := by rw [ids, List.getElem?_map, hj, Option.map_some]
  have hk' : p.ids[k]? = some line'.id := by rw [ids, List.getElem?_map, hk, Option.map_some]
  obtain ⟨hlt, -⟩ := List.getElem?_eq_some_iff.mp hj'
  exact (List.getElem?_inj hlt h.nodup).mp (by rw [hj', hk', hid])

theorem positionOf (h : p.Identified) {k : Nat} {line : Line} (hk : p.lines[k]? = some line) :
    p.positionOf line.id = some k := by
  obtain ⟨hlt, hline⟩ := List.getElem?_eq_some_iff.mp hk
  rw [Program.positionOf, List.findIdx?_eq_some_iff_getElem]
  refine ⟨hlt, by simp [hline], fun j hj hsame => ?_⟩
  have hid : p.lines[j].id = line.id := eq_of_beq hsame
  exact Nat.ne_of_lt hj (h.eq_of_id_eq (List.getElem?_eq_getElem _) hk hid)

end Identified

end Program

/-- A change of the lines. A line that is handed in may have an identity, as one taken out before
has. -/
inductive LineEdit
  | push (line : Line)
  | insert (i : Nat) (line : Line)
  | remove (i : Nat)
  | set (i : Nat) (line : Line)

namespace LineEdit

/-- The program after an edit, and the line that was put in, under the identity that was handed out
for it. An edit that fails changes nothing. -/
def apply (p : Program) : LineEdit → Program × Option Line
  | .push line => (p.push line.instruction, some ⟨p.freshId, line.instruction⟩)
  | .insert i line =>
    match p.insert i line.instruction with
    | .ok (p', id) => (p', some ⟨id, line.instruction⟩)
    | .error _ => (p, none)
  | .remove i =>
    match p.remove i with
    | .ok (p', _) => (p', none)
    | .error _ => (p, none)
  | .set i line =>
    match p.set i line.instruction with
    | .ok (p', _) => (p', none)
    | .error _ => (p, none)

/-- Where the edit leaves the line that stands at a place, and with which instruction, unless it
takes that line out. -/
def follow : LineEdit → Nat × Line → Option (Nat × Line)
  | .push _, (k, line) => some (k, line)
  | .insert i _, (k, line) => some (if i ≤ k then k + 1 else k, line)
  | .remove i, (k, line) => if i = k then none else some (if i < k then k - 1 else k, line)
  | .set i new, (k, line) => some (k, if i = k then ⟨line.id, new.instruction⟩ else line)

/-- Where the edit puts the line that is handed in. -/
def target (p : Program) : LineEdit → Nat
  | .push _ => p.length
  | .insert i _ | .remove i | .set i _ => i

/-- What an edit does to the lines: one is put in, one is taken out, one gets another instruction,
or nothing changes. -/
inductive Effect (p : Program) (e : LineEdit) : Prop
  | inserted (instruction : Instruction) (target_le : e.target p ≤ p.length)
    (after : e.apply p = ({ p with
      lines := p.lines.insertIdx (e.target p) ⟨p.freshId, instruction⟩
      nextId := p.freshId + 1 }, some ⟨p.freshId, instruction⟩))
    (follow : ∀ k < p.length, ∀ line,
      e.follow (k, line) = some (if e.target p ≤ k then k + 1 else k, line))
  | removed (after : e.apply p = ({ p with lines := p.lines.eraseIdx (e.target p) }, none))
    (follow : ∀ k line, e.follow (k, line) =
      if e.target p = k then none else some (if e.target p < k then k - 1 else k, line))
  | replaced (old : Line) (instruction : Instruction) (found : p.lines[e.target p]? = some old)
    (after : e.apply p =
      ({ p with lines := p.lines.set (e.target p) ⟨old.id, instruction⟩ }, none))
    (follow : ∀ k line, e.follow (k, line) =
      some (k, if e.target p = k then ⟨line.id, instruction⟩ else line))
  | refused (after : e.apply p = (p, none))
    (follow : ∀ k < p.length, ∀ line, e.follow (k, line) = some (k, line))

theorem effect (p : Program) (e : LineEdit) : e.Effect p := by
  cases e with
  | push line =>
    refine .inserted line.instruction (Nat.le_refl _) ?_ fun k hk new => ?_
    · rw [target, Program.length, List.insertIdx_length_self]
      rfl
    · rw [target, if_neg (Nat.not_le.mpr hk)]
      rfl
  | insert i line =>
    by_cases hi : p.length < i
    · refine .refused (by simp only [apply, Program.insert, if_pos hi]) fun k hk new => ?_
      rw [follow, if_neg (by omega)]
    · refine .inserted line.instruction (Nat.le_of_not_lt hi) ?_ fun k _ new => rfl
      simp only [apply, Program.insert, if_neg hi, target]
  | remove i =>
    cases hi : p.lines[i]? with
    | none =>
      refine .refused (by simp only [apply, Program.remove, hi]) fun k hk new => ?_
      have hle : p.length ≤ i := List.getElem?_eq_none_iff.mp hi
      rw [follow, if_neg (by omega), if_neg (by omega)]
    | some line =>
      exact .removed (by simp only [apply, Program.remove, hi, target]) fun k new => rfl
  | set i line =>
    cases hi : p.lines[i]? with
    | none =>
      refine .refused (by simp only [apply, Program.set, hi]) fun k hk new => ?_
      have hle : p.length ≤ i := List.getElem?_eq_none_iff.mp hi
      rw [follow, if_neg (by omega)]
    | some old =>
      exact .replaced old line.instruction hi (by simp only [apply, Program.set, hi, target])
        fun k new => rfl

variable {p : Program} {e : LineEdit} {j k : Nat} {line now : Line}

theorem follow_id (h : e.follow (k, line) = some (j, now)) : now.id = line.id := by
  cases e with
  | push | insert =>
    cases h
    rfl
  | remove i =>
    rw [follow] at h
    split_ifs at h
    all_goals
      cases h
      rfl
  | set i new =>
    cases h
    split_ifs <;> rfl

theorem lt_of_getElem? (hk : p.lines[k]? = some line) : k < p.length :=
  (List.getElem?_eq_some_iff.mp hk).choose

/-- A line is where the edit is said to leave it. -/
theorem getElem?_apply_of_follow (hk : p.lines[k]? = some line)
    (h : e.follow (k, line) = some (j, now)) : (e.apply p).1.lines[j]? = some now := by
  have hlt := lt_of_getElem? hk
  cases e.effect p with
  | inserted instruction hle hafter hfollow =>
    rw [hfollow k hlt] at h
    cases h
    rw [hafter, List.getElem?_insertIdx]
    split_ifs <;> first | omega | exact hk
  | removed hafter hfollow =>
    rw [hfollow k] at h
    split_ifs at h with htarget hbehind
    all_goals
      cases h
      rw [hafter, List.getElem?_eraseIdx]
    · rw [if_neg (by omega), Nat.sub_add_cancel (by omega)]
      exact hk
    · rw [if_pos (by omega)]
      exact hk
  | replaced old instruction hold hafter hfollow =>
    rw [hfollow k] at h
    cases h
    rw [hafter, List.getElem?_set]
    split_ifs with htarget hin
    · rw [htarget, hk, Option.some.injEq] at hold
      rw [hold]
    · exact absurd hlt (htarget ▸ hin)
    · exact hk
  | refused hafter hfollow =>
    rw [hfollow k hlt] at h
    cases h
    rw [hafter]
    exact hk

/-- A line that is put in is where it was put, under an identity that was not there before. -/
theorem getElem?_apply_target (hout : (e.apply p).2 = some now) :
    (e.apply p).1.lines[e.target p]? = some now ∧ now.id = p.freshId ∧
      (e.apply p).1.nextId = p.freshId + 1 := by
  cases e.effect p with
  | inserted instruction hle hafter =>
    rw [hafter] at hout
    cases hout
    rw [hafter]
    exact ⟨by rw [List.getElem?_insertIdx_self]; exact if_pos hle, rfl, rfl⟩
  | removed hafter | replaced _ _ _ hafter | refused hafter =>
    rw [hafter] at hout
    cases hout

/-- Every line after an edit was there before, or was put in. -/
theorem exists_of_getElem?_apply (h : (e.apply p).1.lines[j]? = some now) :
    (∃ k line, p.lines[k]? = some line ∧ e.follow (k, line) = some (j, now)) ∨
      (e.apply p).2 = some now ∧ j = e.target p := by
  cases e.effect p with
  | inserted instruction hle hafter hfollow =>
    rw [hafter, List.getElem?_insertIdx] at h
    rw [hafter]
    rcases Nat.lt_trichotomy j (e.target p) with hj | hj | hj
    · rw [if_pos hj] at h
      refine Or.inl ⟨j, now, h, ?_⟩
      rw [hfollow j (lt_of_getElem? h), if_neg (by omega)]
    · rw [if_neg (by omega), if_pos hj, if_pos (hj ▸ hle)] at h
      exact Or.inr ⟨h, hj⟩
    · rw [if_neg (by omega), if_neg (by omega)] at h
      refine Or.inl ⟨j - 1, now, h, ?_⟩
      rw [hfollow (j - 1) (lt_of_getElem? h), if_pos (by omega), Nat.sub_add_cancel (by omega)]
  | removed hafter hfollow =>
    rw [hafter, List.getElem?_eraseIdx] at h
    split_ifs at h with hj
    · refine Or.inl ⟨j, now, h, ?_⟩
      rw [hfollow j, if_neg (by omega), if_neg (by omega)]
    · refine Or.inl ⟨j + 1, now, h, ?_⟩
      rw [hfollow (j + 1), if_neg (by omega), if_pos (by omega), Nat.add_sub_cancel]
  | replaced old instruction hold hafter hfollow =>
    rw [hafter, List.getElem?_set] at h
    split_ifs at h with hj hin
    · cases h
      refine Or.inl ⟨j, old, hj ▸ hold, ?_⟩
      rw [hfollow j, if_pos hj]
    · refine Or.inl ⟨j, now, h, ?_⟩
      rw [hfollow j, if_neg hj]
  | refused hafter hfollow =>
    rw [hafter] at h
    exact Or.inl ⟨j, now, h, hfollow j (lt_of_getElem? h) now⟩

theorem nextId_of_apply_none (hout : (e.apply p).2 = none) : (e.apply p).1.nextId = p.nextId := by
  cases e.effect p with
  | inserted instruction hle hafter =>
    rw [hafter] at hout
    cases hout
  | removed hafter | replaced _ _ _ hafter | refused hafter => rw [hafter]

theorem identified_apply (h : p.Identified) (e : LineEdit) : (e.apply p).1.Identified := by
  cases e.effect p with
  | inserted instruction hle hafter =>
    have hids : (e.apply p).1.ids = p.ids.insertIdx (e.target p) p.nextId := by
      rw [hafter, ← h.freshId, Program.ids, List.map_insertIdx]
      rfl
    have hnext : (e.apply p).1.nextId = p.nextId + 1 := by rw [hafter, ← h.freshId]
    have hmem (id : Nat) : id ∈ (e.apply p).1.ids ↔ id = p.nextId ∨ id ∈ p.ids := by
      rw [hids, List.mem_insertIdx (by rwa [Program.length_ids])]
    refine ⟨by omega, fun id hid => ?_, fun id hid => ?_, ?_⟩
    · rcases (hmem id).mp hid with rfl | hid
      · exact h.next_pos
      · exact h.ids_pos id hid
    · rcases (hmem id).mp hid with rfl | hid
      · omega
      · have hlt := h.ids_lt id hid
        omega
    · rw [hids, (List.perm_insertIdx _ _ (by rwa [Program.length_ids])).nodup_iff]
      exact List.nodup_cons.mpr ⟨fun hid => Nat.lt_irrefl _ (h.ids_lt _ hid), h.nodup⟩
  | removed hafter =>
    have hsub : (e.apply p).1.ids.Sublist p.ids := by
      rw [hafter]
      exact (List.eraseIdx_sublist _ _).map _
    have hnext : (e.apply p).1.nextId = p.nextId := by rw [hafter]
    exact ⟨hnext ▸ h.next_pos, fun id hid => h.ids_pos id (hsub.subset hid),
      fun id hid => hnext ▸ h.ids_lt id (hsub.subset hid), h.nodup.sublist hsub⟩
  | replaced old instruction hold hafter =>
    have hids : (e.apply p).1.ids = p.ids := by
      rw [hafter]
      exact Program.ids_set hold instruction
    have hnext : (e.apply p).1.nextId = p.nextId := by rw [hafter]
    exact ⟨hnext ▸ h.next_pos, hids ▸ h.ids_pos, by rw [hids, hnext]; exact h.ids_lt,
      hids ▸ h.nodup⟩
  | refused hafter =>
    rw [hafter]
    exact h

/-- Where edits leave the line that stands at a place, and with which instruction, unless one of
them takes it out. -/
def followed : List LineEdit → Nat × Line → Option (Nat × Line)
  | [], stood => some stood
  | e :: edits, stood => (e.follow stood).bind (followed edits)

theorem followed_id {edits : List LineEdit} (h : followed edits (k, line) = some (j, now)) :
    now.id = line.id := by
  induction edits generalizing k line with
  | nil =>
    cases h
    rfl
  | cons e edits ih =>
    obtain ⟨⟨k', line'⟩, hstep, hrest⟩ := Option.bind_eq_some_iff.mp h
    exact (ih hrest).trans (follow_id hstep)

end LineEdit

namespace Program

variable {p : Program} {edits : List LineEdit} {j k : Nat} {line now : Line}

/-- The program after edits. -/
def edited (p : Program) : List LineEdit → Program
  | [] => p
  | e :: edits => (e.apply p).1.edited edits

/-- The identities that edits hand out, in order. -/
def handedOut (p : Program) : List LineEdit → List Nat
  | [] => []
  | e :: edits => ((e.apply p).2.map (·.id)).toList ++ (e.apply p).1.handedOut edits

theorem edited_append (p : Program) (before after : List LineEdit) :
    p.edited (before ++ after) = (p.edited before).edited after := by
  induction before generalizing p with
  | nil => rfl
  | cons e before ih => exact ih (e.apply p).1

/-- One of the edits puts a line in, which the later ones leave at `j`. -/
def PutIn (p : Program) (edits : List LineEdit) (j : Nat) (now : Line) : Prop :=
  ∃ before e after line, edits = before ++ e :: after ∧ (e.apply (p.edited before)).2 = some line ∧
    LineEdit.followed after (e.target (p.edited before), line) = some (j, now)

theorem getElem?_edited_of_followed (hk : p.lines[k]? = some line)
    (h : LineEdit.followed edits (k, line) = some (j, now)) :
    (p.edited edits).lines[j]? = some now := by
  induction edits generalizing p k line with
  | nil =>
    cases h
    exact hk
  | cons e edits ih =>
    obtain ⟨⟨k', line'⟩, hstep, hrest⟩ := Option.bind_eq_some_iff.mp h
    exact ih (LineEdit.getElem?_apply_of_follow hk hstep) hrest

/-- Every line after edits was there before them, or was put in by one of them. -/
theorem exists_of_getElem?_edited (h : (p.edited edits).lines[j]? = some now) :
    (∃ k line, p.lines[k]? = some line ∧ LineEdit.followed edits (k, line) = some (j, now)) ∨
      p.PutIn edits j now := by
  induction edits generalizing p with
  | nil => exact Or.inl ⟨j, now, h, rfl⟩
  | cons e edits ih =>
    obtain ⟨k', line', hk', hrest⟩ | ⟨before, e', after, line', rfl, hout, hrest⟩ := ih h
    · obtain ⟨k, line, hk, hstep⟩ | ⟨hout, rfl⟩ := LineEdit.exists_of_getElem?_apply hk'
      · exact Or.inl ⟨k, line, hk, Option.bind_eq_some_iff.mpr ⟨_, hstep, hrest⟩⟩
      · exact Or.inr ⟨[], e, edits, line', rfl, hout, hrest⟩
    · exact Or.inr ⟨e :: before, e', after, line', rfl, hout, hrest⟩

/-- The identity is found where its line is said to be, which holds what it is said to hold; and it
is not found if there is said to be no such line. -/
def FoundAt (p : Program) (id : Nat) (found : Option (Nat × Line)) : Prop :=
  p.positionOf id = found.map (·.1) ∧
    ∀ j line, found = some (j, line) → line.id = id ∧ p.lines[j]? = some line

namespace Identified

theorem edited (h : p.Identified) (edits : List LineEdit) : (p.edited edits).Identified := by
  induction edits generalizing p with
  | nil => exact h
  | cons e edits ih => exact ih (LineEdit.identified_apply h e)

/-- Identities are handed out in order, none twice. -/
theorem handedOut (h : p.Identified) (edits : List LineEdit) :
    p.handedOut edits = List.range' p.nextId (p.handedOut edits).length ∧
      (p.edited edits).nextId = p.nextId + (p.handedOut edits).length := by
  induction edits generalizing p with
  | nil => exact ⟨rfl, rfl⟩
  | cons e edits ih =>
    obtain ⟨hout, hnext⟩ := ih (LineEdit.identified_apply h e)
    rw [Program.handedOut, Program.edited, hnext]
    cases he : (e.apply p).2 with
    | none =>
      rw [LineEdit.nextId_of_apply_none he] at hout ⊢
      exact ⟨hout, rfl⟩
    | some line =>
      obtain ⟨-, hid, hsucc⟩ := LineEdit.getElem?_apply_target he
      rw [h.freshId] at hid hsucc
      rw [hsucc] at hout ⊢
      rw [Option.map_some, hid, Option.toList_some, List.singleton_append, List.length_cons]
      refine ⟨?_, ?_⟩
      · rw [List.range'_succ, ← hout]
      · omega

theorem id_lt (h : p.Identified) (hk : p.lines[k]? = some line) : line.id < p.nextId :=
  h.ids_lt _ (List.mem_map_of_mem (List.mem_of_getElem? hk))

/-- What is put in by edits has an identity that no line had before them. -/
theorem ne_of_putIn (h : p.Identified) (hk : p.lines[k]? = some line) (hput : p.PutIn edits j now) :
    now.id ≠ line.id := by
  obtain ⟨before, e, after, line', rfl, hout, hrest⟩ := hput
  obtain ⟨-, hid, -⟩ := LineEdit.getElem?_apply_target hout
  have hnext := (h.handedOut before).2
  have hlt := h.id_lt hk
  rw [(h.edited before).freshId, hnext] at hid
  rw [LineEdit.followed_id hrest, hid]
  omega

/-- A line that stands in a program is found by its identity wherever edits leave it. -/
theorem foundAt_edited (h : p.Identified) (edits : List LineEdit) (hk : p.lines[k]? = some line) :
    (p.edited edits).FoundAt line.id (LineEdit.followed edits (k, line)) := by
  cases hf : LineEdit.followed edits (k, line) with
  | some found =>
    obtain ⟨j, now⟩ := found
    have hid := LineEdit.followed_id hf
    have hj := getElem?_edited_of_followed hk hf
    refine ⟨hid ▸ (h.edited edits).positionOf hj, ?_⟩
    rintro j' now' ⟨⟩
    exact ⟨hid, hj⟩
  | none =>
    refine ⟨positionOf_eq_none fun j now hj hid => ?_, nofun⟩
    obtain ⟨k', line', hk', hf'⟩ | hput := exists_of_getElem?_edited hj
    · obtain rfl := h.eq_of_id_eq hk hk' (hid.symm.trans (LineEdit.followed_id hf'))
      obtain rfl : line = line' := Option.some.inj (hk.symm.trans hk')
      cases hf.symm.trans hf'
    · exact h.ne_of_putIn hk hput hid

end Identified

/-- How a program comes to be: under a name and without lines, or from a file. -/
inductive Begun : Program → Prop
  | named (name : String) : Begun (.named name)
  | loaded {s : Snapshot} {l : Library} {p : Program} (load : s.Loaded) (library : l ∈ s.libraries)
    (program : p ∈ l.programs) : Begun p

theorem Begun.numbered (h : p.Begun) : p.Numbered := by
  cases h with
  | named name => exact ⟨rfl, rfl⟩
  | loaded load library program =>
    obtain ⟨read, -, hrestored⟩ := load.restored
    exact hrestored.numbered _ library _ program

theorem Numbered.identified (h : p.Numbered) : p.Identified := by
  obtain ⟨hids, hnext⟩ := h
  have hrange : p.ids = List.range' 1 p.length := hids
  refine ⟨by omega, fun id hid => ?_, fun id hid => ?_, hrange ▸ List.nodup_range'⟩
  all_goals
    rw [hrange, List.mem_range'_1] at hid
    omega

/-- Identities are never zero, never handed out twice and always below the count, which goes up by
one for each and so needs no more than 64 bits for less than `2 ^ 64` of them. A line is found by
its identity wherever edits have moved it, with the instruction it was put in with or the last one
that took the place of that, and it is not found once it was taken out; there are no other lines. An
instruction that is replaced leaves its identity to the next. Only places that are not there are
refused. -/
theorem Begun.identities (h : p.Begun) (edits : List LineEdit) :
    let q := p.edited edits
    (∀ id ∈ q.ids, id ≠ 0 ∧ id < q.nextId) ∧ q.ids.Nodup ∧
      q.nextId = p.length + (p.handedOut edits).length + 1 ∧
      (p.ids ++ p.handedOut edits).Nodup ∧
      (∀ k line, p.lines[k]? = some line →
        q.FoundAt line.id (LineEdit.followed edits (k, line))) ∧
      (∀ before e after line, edits = before ++ e :: after →
        (e.apply (p.edited before)).2 = some line →
          q.FoundAt line.id (LineEdit.followed after (e.target (p.edited before), line))) ∧
      (∀ j now, q.lines[j]? = some now →
        (∃ k line, p.lines[k]? = some line ∧ LineEdit.followed edits (k, line) = some (j, now)) ∨
          p.PutIn edits j now) ∧
      (∀ i instruction q' old, q.set i instruction = .ok (q', old) →
        q.lines[i]? = some old ∧ q'.lines = q.lines.set i ⟨old.id, instruction⟩ ∧
          q'.lines[i]? = some ⟨old.id, instruction⟩ ∧ q'.ids = q.ids ∧ q'.nextId = q.nextId) ∧
      ∀ i instruction, ((q.insert i instruction).isOk ↔ i ≤ q.length) ∧
        ((q.remove i).isOk ↔ i < q.length) ∧ ((q.set i instruction).isOk ↔ i < q.length) := by
  intro q
  have hnumbered := h.numbered
  have hp := hnumbered.identified
  have hq := hp.edited edits
  obtain ⟨hout, hnext⟩ := hp.handedOut edits
  refine ⟨fun id hid => ⟨Nat.ne_of_gt (hq.ids_pos id hid), hq.ids_lt id hid⟩, hq.nodup, ?_, ?_,
    fun k line hk => hp.foundAt_edited edits hk, ?_, fun j now => exists_of_getElem?_edited, ?_,
    fun i instruction => ⟨q.insert_isOk_iff i instruction, q.remove_isOk_iff i,
      q.set_isOk_iff i instruction⟩⟩
  · rw [show q.nextId = _ from hnext, hnumbered.2]
    omega
  · rw [hout, hnumbered.2, Nat.add_comm, show p.ids = List.range' 1 p.length from hnumbered.1,
      List.range'_append_1]
    exact List.nodup_range'
  · rintro before e after line rfl hput
    have hafter := LineEdit.identified_apply (hp.edited before) e
    obtain ⟨htarget, -⟩ := LineEdit.getElem?_apply_target hput
    show (p.edited (before ++ e :: after)).FoundAt _ _
    rw [edited_append]
    exact hafter.foundAt_edited after htarget
  · intro i instruction q' old hset
    obtain ⟨hold, rfl⟩ := set_eq_ok hset
    obtain ⟨hlt, -⟩ := List.getElem?_eq_some_iff.mp hold
    exact ⟨hold, rfl, List.getElem?_set_self hlt, ids_set hold instruction, rfl⟩

/-- The first line of two is taken out and put in again behind the second one, which is replaced;
then an edit fails, and one more line is put at the end. -/
def reinserted (first : Line) : List LineEdit :=
  [.remove 0, .insert 1 first, .set 0 ⟨7, default⟩, .insert 9 first, .push first]

theorem identities_reinserted : Snapshot.sameNamedLoaded.Loaded ∧
    ∃ l ∈ Snapshot.sameNamedLoaded.libraries, ∃ p ∈ l.programs, ∃ first, p.lines[0]? = some first ∧
      p.ids = [1, 2] ∧ first.id = 1 ∧ p.handedOut (reinserted first) = [3, 4] ∧
        (p.edited (reinserted first)).FoundAt 1 none ∧
        (p.edited (reinserted first)).FoundAt 2 (some (0, ⟨2, default⟩)) ∧
        (p.edited (reinserted first)).FoundAt 3 (some (1, ⟨3, first.instruction⟩)) ∧
        (p.edited (reinserted first)).FoundAt 4 (some (2, ⟨4, first.instruction⟩)) := by
  have hload : Snapshot.sameNamedLoaded.Loaded := .messagePack Snapshot.ofMessagePack_sameNamed
  refine ⟨hload, _, List.mem_cons_self, _, List.mem_cons_self, _, rfl, rfl, rfl, rfl, ?_⟩
  obtain ⟨-, -, -, -, hstood, hput, -⟩ :=
    Begun.identities (.loaded hload List.mem_cons_self List.mem_cons_self) (reinserted _)
  exact ⟨hstood 0 _ rfl, hstood 1 _ rfl, hput [.remove 0] _ _ _ rfl rfl,
    hput [.remove 0, .insert 1 _, .set 0 ⟨7, default⟩, .insert 9 _] _ _ _ rfl rfl⟩

end Program

end TeachPendant
