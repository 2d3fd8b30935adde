import Mathlib.Data.List.Chain
import Mathlib.Tactic.SplitIfs
import TeachPendant.Log.Writer

namespace TeachPendant

namespace LogFile

/-- The length of a file that holds these lines. -/
def byteCount (lines : List String) : Nat := (String.join lines).utf8ByteSize

theorem byteCount_append (lines lines' : List String) :
    byteCount (lines ++ lines') = byteCount lines + byteCount lines' := by
  rw [byteCount, String.join_append, String.utf8ByteSize_append, byteCount, byteCount]

theorem byteCount_singleton (line : String) : byteCount [line] = line.utf8ByteSize := by
  rw [byteCount, String.join_cons, String.join_nil, String.append_empty]

/-- Whether a file may hold these lines. A single line may be as long as it is. -/
def Fits (maxBytes : Nat) (lines : List String) : Prop :=
  lines.length ≤ 1 ∨ byteCount lines ≤ maxBytes

/-- All the lines, file by file, the first line in the first file. -/
structure IsDivision (maxBytes : Nat) (lines : List String) (files : List (List String)) : Prop where
  flatten : files.flatten = lines
  fits : ∀ file ∈ files, Fits maxBytes file

/-- Whether the first line of a file had no room in the file before it. -/
def NoRoom (maxBytes : Nat) (older newer : List String) : Prop :=
  ∃ line rest, newer = line :: rest ∧ maxBytes < byteCount (older ++ [line])

variable {maxBytes : Nat} {line : String} {older newer lines : List String}
  {files others : List (List String)}

/-- What goes on past a file that had no room for more is too much. -/
theorem NoRoom.not_fits (h : NoRoom maxBytes older (line :: newer)) (hne : older ≠ [])
    (before past : List String) : ¬ Fits maxBytes (before ++ (older ++ line :: past)) := by
  obtain ⟨first, rest, heq, hroom⟩ := h
  obtain ⟨rfl, rfl⟩ := List.cons_eq_cons.mp heq
  rw [← List.singleton_append, ← List.append_assoc older]
  rintro (hlength | hbytes)
  · have hpos : 0 < older.length := List.length_pos_iff.mpr hne
    simp only [List.length_append, List.length_singleton] at hlength
    omega
  · rw [byteCount_append, byteCount_append] at hbytes
    omega

/-- Files none of which had room for the next line are as few as can be, also if there are lines
before the first of them. -/
theorem length_le_of_isChain (hchain : files.IsChain (NoRoom maxBytes)) (hne : ∀ file ∈ files, file ≠ [])
    (hfits : ∀ file ∈ others, Fits maxBytes file) (heq : lines ++ files.flatten = others.flatten) :
    files.length ≤ others.length := by
  -- the first of the other files ends before the end of the first of these, so their rests compare
  induction others generalizing lines files with
  | nil =>
    cases files with
    | nil => exact Nat.le_refl _
    | cons file files =>
      have hempty := List.flatten_eq_nil_iff.mp (List.append_eq_nil_iff.mp heq).2
      exact absurd (hempty file List.mem_cons_self) (hne file List.mem_cons_self)
  | cons other others ih =>
    have hothers : ∀ file ∈ others, Fits maxBytes file := fun file h => hfits file (.tail _ h)
    rw [List.flatten_cons] at heq
    obtain ⟨between, hother, hfiles⟩ | ⟨between, -, hrest⟩ := List.append_eq_append_iff.mp heq
    · cases files with
      | nil => exact Nat.zero_le _
      | cons file files =>
        have hne' : ∀ file ∈ files, file ≠ [] := fun file h => hne file (.tail _ h)
        refine Nat.succ_le_succ ?_
        rw [List.flatten_cons] at hfiles
        obtain ⟨past, hbetween, hrest⟩ | ⟨left, -, hrest⟩ := List.append_eq_append_iff.mp hfiles
        · cases past with
          | nil => exact ih hchain.tail hne' hothers ((List.nil_append _).trans hrest)
          | cons line past =>
            cases files with
            | nil => exact Nat.zero_le _
            | cons newer files =>
              have hroom := (List.isChain_cons_cons.mp hchain).1
              obtain ⟨first, rest, rfl, -⟩ := id hroom
              obtain ⟨rfl, -⟩ := List.cons_eq_cons.mp hrest
              rw [hbetween] at hother
              have hnot := hroom.not_fits (hne file List.mem_cons_self) lines past
              rw [← hother] at hnot
              exact absurd (hfits other List.mem_cons_self) hnot
        · exact ih hchain.tail hne' hothers hrest.symm
    · exact Nat.le_succ_of_le (ih hchain hne hothers hrest.symm)

/-- Adds a line to files, the newest first. -/
def addLine (maxBytes : Nat) (line : String) : List (List String) → List (List String)
  | [] => [[line]]
  | file :: older =>
    if maxBytes < byteCount (file ++ [line]) then [line] :: file :: older
    else (file ++ [line]) :: older

theorem addLine_flatten (maxBytes : Nat) (line : String) (files : List (List String)) :
    (addLine maxBytes line files).reverse.flatten = files.reverse.flatten ++ [line] := by
  cases files with
  | nil => rfl
  | cons file older =>
    rw [addLine]
    split_ifs <;> simp

theorem head?_addLine (maxBytes : Nat) (line : String) (files : List (List String)) :
    (addLine maxBytes line files).head?.bind List.getLast? = some line := by
  cases files with
  | nil => rfl
  | cons file older =>
    rw [addLine]
    split_ifs <;> simp

/-- The oldest files make no difference to which the newest are. -/
theorem take_addLine_take (maxBytes : Nat) (line : String) (n : Nat) (files : List (List String)) :
    (addLine maxBytes line (files.take (n + 1))).take (n + 1) =
      (addLine maxBytes line files).take (n + 1) := by
  cases files with
  | nil => rfl
  | cons file older =>
    rw [List.take_succ_cons, addLine, addLine]
    split_ifs
    · cases n <;> simp [List.take_take]
    · simp [List.take_take]

/-- Files filled one after the other, the newest first. -/
structure Filled (maxBytes : Nat) (files : List (List String)) : Prop where
  nonempty : ∀ file ∈ files, file ≠ []
  fits : ∀ file ∈ files, Fits maxBytes file
  full : files.IsChain fun newer older => NoRoom maxBytes older newer

namespace Filled

theorem nil (maxBytes : Nat) : Filled maxBytes [] := ⟨nofun, nofun, .nil⟩

theorem take (h : Filled maxBytes files) (n : Nat) : Filled maxBytes (files.take n) where
  nonempty file hfile := h.nonempty file (List.mem_of_mem_take hfile)
  fits file hfile := h.fits file (List.mem_of_mem_take hfile)
  full := h.full.take n

theorem addLine (h : Filled maxBytes files) (line : String) :
    Filled maxBytes (addLine maxBytes line files) := by
  cases files with
  | nil => exact ⟨by simp [LogFile.addLine], by simp [LogFile.addLine, Fits], .singleton _⟩
  | cons file older =>
    have hnonempty := List.forall_mem_cons.mp h.nonempty
    have hfits := List.forall_mem_cons.mp h.fits
    rw [LogFile.addLine]
    split_ifs with hroom
    · exact ⟨List.forall_mem_cons.mpr ⟨List.cons_ne_nil _ _, h.nonempty⟩,
        List.forall_mem_cons.mpr ⟨.inl (Nat.le_refl 1), h.fits⟩,
        List.isChain_cons_cons.mpr ⟨⟨line, [], rfl, hroom⟩, h.full⟩⟩
    · refine ⟨List.forall_mem_cons.mpr ⟨by simp, hnonempty.2⟩,
        List.forall_mem_cons.mpr ⟨.inr (Nat.le_of_not_lt hroom), hfits.2⟩, ?_⟩
      cases older with
      | nil => exact .singleton _
      | cons oldest older =>
        obtain ⟨⟨first, rest, rfl, hfull⟩, hchain⟩ := List.isChain_cons_cons.mp h.full
        exact List.isChain_cons_cons.mpr ⟨⟨first, rest ++ [line], rfl, hfull⟩, hchain⟩

/-- No division of the lines has fewer files. -/
theorem length_le (h : Filled maxBytes files) (hothers : IsDivision maxBytes files.reverse.flatten others) :
    files.length ≤ others.length := by
  rw [← List.length_reverse]
  exact length_le_of_isChain (List.isChain_reverse.mpr h.full)
    (fun file hfile => h.nonempty file (List.mem_reverse.mp hfile)) hothers.fits
    ((List.nil_append _).trans hothers.flatten.symm)

/-- If it takes more files to hold the lines than are kept, then in any way. -/
theorem lt_length_of_take_ne (h : Filled maxBytes files) {n : Nat} (hlost : files.take n ≠ files)
    (hothers : IsDivision maxBytes files.reverse.flatten others) : n < others.length := by
  refine Nat.lt_of_lt_of_le ?_ (h.length_le hothers)
  by_contra hle
  exact hlost (List.take_of_length_le (by omega))

end Filled

end LogFile

end TeachPendant
