import TeachPendant.Proofs.Settings.Readable

namespace TeachPendant

namespace Limit

variable {l : Limit} {n : ℕ}

theorem settle_of_admits (h : l.admits n) : l.settle n = n := if_pos h

theorem admits_settle (hl : l.admits l.standard) (n : ℕ) : l.admits (l.settle n) := by
  unfold settle
  split_ifs with hn
  · exact hn
  · exact hl

theorem warnings_of_admits (h : l.admits n) : l.warnings n = [] := if_pos h

end Limit

namespace Settings

variable {s : Settings} {x : Limit × ℕ}

/-- Every standard lies in its own range. -/
theorem admits_standard (s : Settings) : ∀ x ∈ s.checked, x.1.admits x.1.standard :=
  (forall_checked (P := fun l _ => l.admits l.standard)).mpr (by decide)

theorem valid_iff :
    s.valid ↔ (∀ x ∈ s.checked, x.1.admits x.2) ∧ s.logging.directory ≠ some "" := by
  rw [valid, Bool.and_eq_true, List.all_eq_true, emptyDirectory, Bool.not_eq_true',
    beq_eq_false_iff_ne]
  rfl

theorem checked_settled (s : Settings) :
    s.settled.checked = s.checked.map fun x => (x.1, x.1.settle x.2) := rfl

theorem directory_settled (s : Settings) :
    s.settled.logging.directory = s.logging.directory.filter (· ≠ "") := rfl

theorem directory_settled_of_ne (h : s.logging.directory ≠ some "") :
    s.settled.logging.directory = s.logging.directory := by
  rw [directory_settled]
  cases hname : s.logging.directory with
  | none => rfl
  | some name =>
    rw [hname] at h
    have hne : name ≠ "" := fun hempty => h (congrArg some hempty)
    rw [Option.filter_some, if_pos (decide_eq_true hne)]

theorem valid_settled (s : Settings) : s.settled.valid := by
  refine valid_iff.mpr ⟨?_, ?_⟩
  · rw [checked_settled, List.forall_mem_map]
    exact fun x hx => Limit.admits_settle (s.admits_standard x hx) x.2
  · rw [directory_settled]
    intro h
    have hne := (Option.filter_eq_some_iff.mp h).2
    exact absurd rfl (of_decide_eq_true hne)

theorem settled_of_valid (h : s.valid) : s.settled = s := by
  obtain ⟨hchecked, hdirectory⟩ := valid_iff.mp h
  obtain ⟨⟨hdata, hio, hpositions⟩, ⟨htick, hsteps, hjitter⟩, hticks, hsize, hkeep⟩ :=
    (forall_checked (P := fun l n => l.admits n)).mp hchecked
  have hfilter : s.logging.directory.filter (· ≠ "") = s.logging.directory :=
    directory_settled_of_ne hdirectory
  rw [settled, Limit.settle_of_admits hdata, Limit.settle_of_admits hio,
    Limit.settle_of_admits hpositions, Limit.settle_of_admits htick, Limit.settle_of_admits hsteps,
    Limit.settle_of_admits hjitter, Limit.settle_of_admits hticks, Limit.settle_of_admits hsize,
    Limit.settle_of_admits hkeep, hfilter]

/-- There is nothing to say about settings in their ranges. -/
theorem warnings_of_valid (h : s.valid) : s.warnings = [] := by
  obtain ⟨hchecked, hdirectory⟩ := valid_iff.mp h
  have hempty : s.emptyDirectory = false := beq_eq_false_iff_ne.mpr hdirectory
  rw [warnings, List.append_eq_nil_iff, List.append_eq_nil_iff, List.flatMap_eq_nil_iff,
    List.flatMap_eq_nil_iff, hempty]
  refine ⟨⟨fun x hx => ?_, rfl⟩, fun x hx => ?_⟩
  · exact Limit.warnings_of_admits (hchecked x (List.mem_append_left _ hx))
  · exact Limit.warnings_of_admits (hchecked x (List.mem_append_right _ hx))

theorem validate_of_valid (h : s.valid) : s.validate = (s, []) := by
  rw [validate, settled_of_valid h, warnings_of_valid h]

theorem validate_settled (s : Settings) : s.settled.validate = (s.settled, []) :=
  validate_of_valid s.valid_settled

theorem Writable.settled (h : s.Writable) : s.settled.Writable where
  long := by
    have hstandard := (forall_checked (s := s) (P := fun l _ => l.standard < 2 ^ 63)).mpr (by decide)
    rw [checked_settled, List.forall_mem_map]
    intro x hx
    unfold Limit.settle
    split_ifs
    · exact h.long x hx
    · exact hstandard x hx
  steps := by
    show Limit.stepsAtFullSpeed.settle _ < 2 ^ 32
    unfold Limit.settle
    split_ifs
    · exact h.steps
    · decide

theorem valid_default : ({} : Settings).valid := by decide

theorem writable_default : ({} : Settings).Writable where
  long := forall_checked (P := fun _ n => n < 2 ^ 63).mpr (by decide)
  steps := by decide

end Settings

end TeachPendant
