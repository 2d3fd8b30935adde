import TeachPendant.Proofs.Log.Session

namespace TeachPendant

namespace LogFolder

theorem archivesRotated_of_le {l : LogFolder} {keep : Nat} (h : l.archives.length ≤ keep) :
    l.archivesRotated keep = (l.content :: l.archives).take keep := by
  rw [archivesRotated, List.drop_eq_nil_of_le h, List.append_nil]

/-- A rotation does not get rid of archives that were too many before. -/
theorem length_archivesRotated_le_iff (l : LogFolder) (keep : Nat) :
    (l.archivesRotated keep).length ≤ keep ↔ l.archives.length ≤ keep := by
  rw [archivesRotated, List.length_append, List.length_take, List.length_drop, List.length_cons]
  omega

end LogFolder

namespace LogCourse

variable {c : LogCourse} {m : LogMessage} {rotation : Rotation} {events : List LogEvent}

/-- The archives are the last files that were closed, and no more than are kept. -/
def Honoured (c : LogCourse) : Prop :=
  c.folder.archives.length ≤ c.rotation.keep ∧ c.folder.archives <+: c.closed

/-- Whether the event makes the log rotate. -/
def RotatesAt (rotation : Rotation) (events : List LogEvent) (i : Nat) : Prop :=
  ∃ m, events[i]? = some (.write m) ∧ (after rotation (events.take i)).Rotates m

theorem after_take_succ {i : Nat} {e : LogEvent} (h : events[i]? = some e) (rotation : Rotation) :
    after rotation (events.take (i + 1)) = (after rotation (events.take i)).step e := by
  rw [List.take_add_one, h, Option.toList_some, after_concat]

theorem step_of_rotates (h : c.Rotates m) : c.step (.write m) = {
    rotation := c.rotation
    folder := {
      live := some (.text (LogWriter.lineOf m))
      archives := c.folder.archivesRotated c.rotation.keep }
    closed := c.folder.content :: c.closed } := by
  have hfull : c.folder.Full c.rotation.maxBytes (LogWriter.lineOf m) := h
  rw [step, if_pos h, LogFolder.write, if_pos hfull]

theorem step_of_not_rotates (h : ¬ c.Rotates m) :
    (c.step (.write m)).folder.archives = c.folder.archives ∧ (c.step (.write m)).closed = c.closed := by
  have hroom : ¬ c.folder.Full c.rotation.maxBytes (LogWriter.lineOf m) := h
  rw [step, if_neg h, LogFolder.write, if_neg hroom]
  exact ⟨rfl, rfl⟩

/-- Archives that are among the last and not too many before a rotation are so after it. -/
theorem honoured_step_iff (h : c.Rotates m) : (c.step (.write m)).Honoured ↔
    c.folder.archives.length ≤ c.rotation.keep ∧
      c.folder.archives.take (c.rotation.keep - 1) <+: c.closed := by
  rw [step_of_rotates h, Honoured, LogFolder.length_archivesRotated_le_iff]
  refine and_congr_right fun hle => ?_
  rw [LogFolder.archivesRotated_of_le hle]
  cases c.rotation.keep with
  | zero => simp
  | succ n => rw [List.take_succ_cons, List.cons_prefix_cons, and_iff_right rfl, Nat.add_sub_cancel]

theorem archives_prefix_closed {n : Nat} (h : ∀ i < n, RotatesAt rotation events i →
      (after rotation (events.take i)).folder.archives.length ≤
        (after rotation (events.take i)).rotation.keep) :
    (after rotation (events.take n)).folder.archives <+: (after rotation (events.take n)).closed := by
  induction n with
  | zero => exact List.nil_prefix
  | succ n ih =>
    have hbefore := ih fun i hi => h i (Nat.lt_succ_of_lt hi)
    cases hevent : events[n]? with
    | none =>
      rw [List.take_add_one, hevent, Option.toList_none, List.append_nil]
      exact hbefore
    | some e =>
      rw [after_take_succ hevent]
      cases e with
      | configure rotation' | reopen rotation' => exact hbefore
      | write m =>
        by_cases hrotates : (after rotation (events.take n)).Rotates m
        · have hle := h n (Nat.lt_succ_self n) ⟨m, hevent, hrotates⟩
          exact ((honoured_step_iff hrotates).mpr ⟨hle, (List.take_prefix _ _).trans hbefore⟩).2
        · rw [(step_of_not_rotates hrotates).1, (step_of_not_rotates hrotates).2]
          exact hbefore

end LogCourse

namespace LogFile

open LogCourse

variable {f : Files} {directory : String}

/-- Changed settings are honoured at every rotation exactly if there never is a rotation with more
archives than are to be kept; those past the number kept stay where they are. -/
theorem session_honours_iff (h : f.IsEmptyDirectory (Path.place directory)) (rotation : Rotation)
    (events : List LogEvent) :
    (∃ w f', session f directory rotation events = .ok (w, f') ∧
      w.rotation = (after rotation events).rotation ∧
      (after rotation events).folder.In (Path.place directory) f') ∧
    (∀ i, RotatesAt rotation events i →
      let c := after rotation (events.take i)
      (after rotation (events.take (i + 1))).folder.archives =
        (c.folder.content :: c.folder.archives).take c.rotation.keep ++
          c.folder.archives.drop c.rotation.keep) ∧
    ((∀ i, RotatesAt rotation events i → (after rotation (events.take (i + 1))).Honoured) ↔
      ∀ i, RotatesAt rotation events i →
        (after rotation (events.take i)).folder.archives.length ≤
          (after rotation (events.take i)).rotation.keep) := by
  refine ⟨?_, ?_, fun hhonoured i hi => ?_, fun hle i hi => ?_⟩
  · obtain ⟨w, f', hsession, hon, hclosed, -⟩ := exists_session h rotation events
    have hdirectory : w.closed.directory = directory := congrArg LogWriter.directory hclosed
    have hrotation : w.closed.rotation = (after rotation events).rotation :=
      congrArg LogWriter.rotation hclosed
    have hin := hon.folder
    rw [LogWriter.place, show w.directory = directory from hdirectory] at hin
    exact ⟨w, f', hsession, hrotation, hin⟩
  · rintro i ⟨m, hevent, hrotates⟩
    show (after rotation (events.take (i + 1))).folder.archives = _
    rw [after_take_succ hevent, step_of_rotates hrotates]
    rfl
  · have hstep := hhonoured i hi
    obtain ⟨m, hevent, hrotates⟩ := hi
    rw [after_take_succ hevent, honoured_step_iff hrotates] at hstep
    exact hstep.1
  · have hbefore := archives_prefix_closed (n := i) fun j _ => hle j
    obtain ⟨m, hevent, hrotates⟩ := id hi
    rw [after_take_succ hevent, honoured_step_iff hrotates]
    exact ⟨hle i hi, (List.take_prefix _ _).trans hbefore⟩

/-- One archive is to be kept, and then two. -/
def keepsMore : List LogEvent :=
  [.write (.info "a"), .write (.info "b"), .configure ⟨1, 2⟩, .write (.info "c"), .reopen ⟨1, 2⟩,
    .write (.info "d")]

theorem session_honours_keepsMore : emptyLogs.IsEmptyDirectory (Path.place "logs") ∧
    RotatesAt ⟨1, 1⟩ keepsMore 5 ∧
    (∃ w f', session emptyLogs "logs" ⟨1, 1⟩ keepsMore = .ok (w, f') ∧ w.rotation = ⟨1, 2⟩ ∧
      f'.node? ["logs", "pendant.log.1"] = some (.file (.text "[INFO] c\n")) ∧
      f'.node? ["logs", "pendant.log.2"] = some (.file (.text "[INFO] b\n"))) ∧
    ∀ i, RotatesAt ⟨1, 1⟩ keepsMore i → (after ⟨1, 1⟩ (keepsMore.take (i + 1))).Honoured := by
  obtain ⟨⟨w, f', hsession, hrotation, hin⟩, -, hiff⟩ :=
    session_honours_iff isEmptyDirectory_emptyLogs ⟨1, 1⟩ keepsMore
  have hplace : Path.place "logs" = ["logs"] := by decide +kernel
  have harchives : (after ⟨1, 1⟩ keepsMore).folder.archives =
      [.text "[INFO] c\n", .text "[INFO] b\n"] := by decide
  have hfew : ∀ i < keepsMore.length, (after ⟨1, 1⟩ (keepsMore.take i)).folder.archives.length ≤
      (after ⟨1, 1⟩ (keepsMore.take i)).rotation.keep := by decide
  rw [hplace] at hin
  refine ⟨isEmptyDirectory_emptyLogs, ⟨_, rfl, by decide⟩, ⟨w, f', hsession, hrotation, ?_, ?_⟩,
    hiff.mpr ?_⟩
  · exact (hin.archives 0).trans (by rw [harchives]; rfl)
  · exact (hin.archives 1).trans (by rw [harchives]; rfl)
  · rintro i ⟨m, hevent, -⟩
    exact hfew i (List.getElem?_eq_some_iff.mp hevent).1

/-- Two archives are made, and then only one is to be kept. -/
def keepsFewer : List LogEvent :=
  [.write (.info "a"), .write (.info "b"), .write (.info "c"), .configure ⟨1, 1⟩, .write (.info "d")]

def keepsFewerLeft : Files := { nodes := [(["logs"], .directory), (["notes"], .file (.text "none")),
  (["logs", "pendant.log.2"], .file (.text "[INFO] a\n")),
  (["logs", "pendant.log.1"], .file (.text "[INFO] c\n")),
  (["logs", "pendant.log"], .file (.text "[INFO] d\n"))] }

/-- The older of two archives outlasts the newer one, although only one is to be kept. -/
theorem oldest_archive_left : RotatesAt ⟨1, 2⟩ keepsFewer 4 ∧
    (after ⟨1, 2⟩ keepsFewer).rotation.keep = 1 ∧ ¬ (after ⟨1, 2⟩ keepsFewer).Honoured ∧
    ∃ w f', session emptyLogs "logs" ⟨1, 2⟩ keepsFewer = .ok (w, f') ∧ w.rotation = ⟨1, 1⟩ ∧
      f'.node? ["logs", "pendant.log"] = some (.file (.text "[INFO] d\n")) ∧
      f'.node? ["logs", "pendant.log.1"] = some (.file (.text "[INFO] c\n")) ∧
      f'.node? ["logs", "pendant.log.2"] = some (.file (.text "[INFO] a\n")) := by
  have hhonoured : ¬ (after ⟨1, 2⟩ keepsFewer).Honoured := fun h => absurd h.1 (by decide)
  refine ⟨⟨_, rfl, by decide⟩, rfl, hhonoured, ?_⟩
  obtain ⟨w, f', hsession, -, hclosed, -⟩ :=
    exists_session isEmptyDirectory_emptyLogs ⟨1, 2⟩ keepsFewer
  have hleft : (session emptyLogs "logs" ⟨1, 2⟩ keepsFewer).toOption.map Prod.snd =
      some keepsFewerLeft := by decide +kernel
  rw [hsession] at hleft
  obtain rfl : f' = keepsFewerLeft := Option.some.inj hleft
  exact ⟨w, keepsFewerLeft, hsession, congrArg LogWriter.rotation hclosed, rfl, rfl, rfl⟩

end LogFile

end TeachPendant
