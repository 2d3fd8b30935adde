import TeachPendant.Proofs.Log.Folder

namespace TeachPendant

namespace LogWriter

variable {w : LogWriter} {f : Files} {l : LogFolder} {m : LogMessage}

/-- A writer as it is when it has just been made. -/
def closed (w : LogWriter) : LogWriter := { directory := w.directory, rotation := w.rotation }

/-- A writer that has the file open at this length. -/
def openAt (w : LogWriter) (n : Nat) : LogWriter := { w.closed with isOpen := true, written := n }

/-- A writer and the log in its directory. While the file is open, the writer knows its length. -/
structure On (w : LogWriter) (f : Files) (l : LogFolder) : Prop where
  folder : l.In w.place f
  counts : w.isOpen = true → l.live.isSome ∧ w.written = l.content.size

theorem create_eq {directory : String} (h : f.IsDirectory (Path.place directory))
    (rotation : Rotation) : create f directory rotation = .ok ({ directory, rotation }, f) := by
  simp only [create, Files.createDirectory, Files.createDirectoryAt, h.node?]

theorem write_of_room {w₁ : LogWriter} {f₁ : Files} {c : Content}
    (hopen : w.opened f = .ok (w₁, f₁, c))
    (h : ¬ (0 < w₁.written ∧ w₁.rotation.maxBytes < w₁.written + (lineOf m).utf8ByteSize)) :
    w.write f m = .ok (w₁.append f₁ c (lineOf m)) := by
  simp only [write, hopen, if_neg h]

theorem write_of_full {w₁ w₂ : LogWriter} {f₁ f₂ : Files} {c c' : Content}
    (hopen : w.opened f = .ok (w₁, f₁, c))
    (h : 0 < w₁.written ∧ w₁.rotation.maxBytes < w₁.written + (lineOf m).utf8ByteSize)
    (hreopen : w₁.closed.opened (LogFile.rotate w₁.place w₁.rotation.keep f₁) = .ok (w₂, f₂, c')) :
    w.write f m = .ok (w₂.append f₂ c' (lineOf m)) := by
  simp only [closed] at hreopen
  simp only [write, hopen, if_pos h, rotate, hreopen]

namespace On

theorem closed (h : w.On f l) : w.closed.On f l := ⟨h.folder, nofun⟩

/-- Opening the file makes it if need be, and finds out its length. -/
theorem opened_eq (h : w.On f l) : w.opened f =
    .ok (w.openAt l.content.size,
      if l.live.isSome then f else f.put (LogFile.live w.place) (.file l.content), l.content) := by
  have hobstacle : f.obstacle? (LogFile.live w.place) = none := h.folder.directory.obstacle? _
  simp only [opened, Files.readAt, Files.writeAt, hobstacle, h.folder.live]
  cases hlive : l.live with
  | none =>
    have hcontent : l.content = .text "" := by rw [LogFolder.content, hlive]; rfl
    rw [hcontent]
    rfl
  | some c =>
    have hcontent : l.content = c := by rw [LogFolder.content, hlive]; rfl
    have hwritten : (if w.isOpen then w.written else c.size) = c.size := by
      split_ifs with hopen
      · rw [(h.counts hopen).2, hcontent]
      · rfl
    simp only [Option.map_some, hwritten, hcontent]
    rfl

/-- It makes no difference whether the writer has the file open already. -/
theorem write_closed (h : w.On f l) (m : LogMessage) : w.closed.write f m = w.write f m := by
  simp only [write, h.opened_eq, h.closed.opened_eq]
  rfl

/-- Once it is open, the live file is there, and the writer knows its length. -/
theorem exists_opened (h : w.On f l) : ∃ f', w.opened f = .ok (w.openAt l.content.size, f', l.content) ∧
    (w.openAt l.content.size).On f' { l with live := some l.content } ∧
    ∀ p, LogFile.Outside w.place p → f'.node? p = f.node? p := by
  refine ⟨_, h.opened_eq, ⟨?_, fun _ => ⟨rfl, rfl⟩⟩, fun p hp => ?_⟩
  · cases hlive : l.live with
    | none => exact h.folder.put l.content
    | some c =>
      have hsame : { l with live := some l.content } = l := by
        rw [LogFolder.content, hlive, Option.getD_some, ← hlive]
      rw [hsame]
      exact h.folder
  · split_ifs
    · rfl
    · rw [f.node?_put (LogFile.live_ne_nil _), if_neg hp.1]

theorem append (h : w.On f l) (hopen : w.isOpen = true) (line : String) :
    (w.append f l.content line).1.On (w.append f l.content line).2
      { l with live := some (l.content.append line) } where
  folder := h.folder.put _
  counts _ := by
    refine ⟨rfl, ?_⟩
    show w.written + line.utf8ByteSize = (l.content.append line).size
    rw [(h.counts hopen).2, Content.size_append]

theorem node?_append (w : LogWriter) (f : Files) (c : Content) (line : String) {p : Place}
    (hp : LogFile.Outside w.place p) : (w.append f c line).2.node? p = f.node? p :=
  (f.node?_put (LogFile.live_ne_nil _) _ _).trans (if_neg hp.1)

/-- A write adds its line to the log and touches nothing else. -/
theorem exists_write (h : w.On f l) (m : LogMessage) : ∃ w' f', w.write f m = .ok (w', f') ∧
    w'.On f' (l.write w.rotation (lineOf m)) ∧ w'.closed = w.closed ∧
    ∀ p, LogFile.Outside w.place p → f'.node? p = f.node? p := by
  obtain ⟨f₁, hopen, hopened, hframe⟩ := h.exists_opened
  by_cases hfull : l.Full w.rotation.maxBytes (lineOf m)
  · have hrotated : w.closed.On (LogFile.rotate w.place w.rotation.keep f₁)
        { live := none, archives := l.archivesRotated w.rotation.keep } :=
      ⟨hopened.folder.rotate rfl _, nofun⟩
    obtain ⟨f₂, hreopen, hreopened, hframe'⟩ := hrotated.exists_opened
    refine ⟨_, _, write_of_full hopen hfull hreopen, ?_, rfl, fun p hp => ?_⟩
    · have hline : .text (lineOf m) = (Content.text "").append (lineOf m) :=
        congrArg Content.text String.empty_append.symm
      rw [LogFolder.write, if_pos hfull, hline]
      exact hreopened.append rfl (lineOf m)
    · exact (node?_append _ _ _ _ hp).trans ((hframe' p hp).trans
        ((LogFile.node?_rotate_of_outside hp _ _).trans (hframe p hp)))
  · refine ⟨_, _, write_of_room hopen hfull, ?_, rfl, fun p hp => ?_⟩
    · rw [LogFolder.write, if_neg hfull]
      exact hopened.append rfl (lineOf m)
    · exact (node?_append _ _ _ _ hp).trans (hframe p hp)

end On

end LogWriter

/-- What happens to a log. -/
inductive LogEvent
  | write (m : LogMessage)
  /-- The writer gets other settings. -/
  | configure (rotation : Rotation)
  /-- Another writer takes over. -/
  | reopen (rotation : Rotation)

namespace LogEvent

def apply (s : LogWriter × Files) : LogEvent → Except FileFault (LogWriter × Files)
  | .write m => s.1.write s.2 m
  | .configure rotation => .ok ({ s.1 with rotation }, s.2)
  | .reopen rotation => LogWriter.create s.2 s.1.directory rotation

/-- The line that is written, if one is. -/
def line? : LogEvent → Option String
  | .write m => some (LogWriter.lineOf m)
  | _ => none

end LogEvent

namespace LogFile

/-- A first writer, and what happens from then on. -/
def session (f : Files) (directory : String) (rotation : Rotation) (events : List LogEvent) :
    Except FileFault (LogWriter × Files) := do
  events.foldlM LogEvent.apply (← LogWriter.create f directory rotation)

end LogFile

/-- The settings in force, the log, and every file that was closed by a rotation, the last one
first. -/
structure LogCourse where
  rotation : Rotation
  folder : LogFolder := {}
  closed : List Content := []

namespace LogCourse

/-- Whether the next line makes the log rotate. -/
def Rotates (c : LogCourse) (m : LogMessage) : Prop :=
  c.folder.Full c.rotation.maxBytes (LogWriter.lineOf m)

instance (c : LogCourse) (m : LogMessage) : Decidable (c.Rotates m) :=
  inferInstanceAs (Decidable (LogFolder.Full _ _ _))

def step (c : LogCourse) : LogEvent → LogCourse
  | .write m => {
      rotation := c.rotation
      folder := c.folder.write c.rotation (LogWriter.lineOf m)
      closed := if c.Rotates m then c.folder.content :: c.closed else c.closed }
  | .configure rotation | .reopen rotation => { c with rotation }

/-- The course of a log that begins in an empty directory. -/
def after (rotation : Rotation) (events : List LogEvent) : LogCourse := events.foldl step { rotation }

theorem after_concat (rotation : Rotation) (events : List LogEvent) (e : LogEvent) :
    after rotation (events ++ [e]) = (after rotation events).step e :=
  List.foldl_append

end LogCourse

namespace LogWriter.On

variable {w : LogWriter} {f : Files} {c : LogCourse} {directory : String}

theorem exists_apply (h : w.On f c.folder) (hw : w.closed = { directory, rotation := c.rotation })
    (e : LogEvent) : ∃ w' f', e.apply (w, f) = .ok (w', f') ∧ w'.On f' (c.step e).folder ∧
      w'.closed = { directory, rotation := (c.step e).rotation } ∧
      ∀ p, LogFile.Outside (Path.place directory) p → f'.node? p = f.node? p := by
  obtain ⟨rfl, hrotation⟩ : w.directory = directory ∧ w.rotation = c.rotation := by
    simpa [LogWriter.closed] using hw
  cases e with
  | write m =>
    obtain ⟨w', f', hwrite, hon, hclosed, hframe⟩ := h.exists_write m
    rw [hrotation] at hon
    exact ⟨w', f', hwrite, hon, hclosed.trans hw, hframe⟩
  | configure rotation =>
    exact ⟨{ w with rotation }, f, rfl, ⟨h.folder, h.counts⟩, rfl, fun _ _ => rfl⟩
  | reopen rotation =>
    exact ⟨{ directory := w.directory, rotation }, f, create_eq h.folder.directory rotation,
      ⟨h.folder, nofun⟩, rfl, fun _ _ => rfl⟩

theorem exists_events (h : w.On f c.folder) (hw : w.closed = { directory, rotation := c.rotation })
    (events : List LogEvent) : ∃ w' f', events.foldlM LogEvent.apply (w, f) = .ok (w', f') ∧
      w'.On f' (events.foldl LogCourse.step c).folder ∧
      w'.closed = { directory, rotation := (events.foldl LogCourse.step c).rotation } ∧
      ∀ p, LogFile.Outside (Path.place directory) p → f'.node? p = f.node? p := by
  induction events generalizing w f c with
  | nil => exact ⟨w, f, rfl, h, hw, fun _ _ => rfl⟩
  | cons e events ih =>
    obtain ⟨w₁, f₁, happly, hon, hw₁, hframe⟩ := h.exists_apply hw e
    obtain ⟨w', f', hevents, hon', hw', hframe'⟩ := ih hon hw₁
    refine ⟨w', f', ?_, hon', hw', fun p hp => (hframe' p hp).trans (hframe p hp)⟩
    rw [List.foldlM_cons, happly]
    exact hevents

end LogWriter.On

namespace LogFile

variable {f : Files} {directory : String}

theorem on_of_isEmptyDirectory (h : f.IsEmptyDirectory (Path.place directory)) (rotation : Rotation) :
    LogWriter.On { directory, rotation } f {} :=
  ⟨⟨h.directory, h.empty _, fun _ => h.empty _⟩, nofun⟩

/-- In a directory that was empty there is nothing but the log, whatever happens to it. -/
theorem exists_session (h : f.IsEmptyDirectory (Path.place directory)) (rotation : Rotation)
    (events : List LogEvent) : ∃ w f', session f directory rotation events = .ok (w, f') ∧
      w.On f' (LogCourse.after rotation events).folder ∧
      w.closed = { directory, rotation := (LogCourse.after rotation events).rotation } ∧
      ∀ p, Outside (Path.place directory) p → f'.node? p = f.node? p := by
  obtain ⟨w, f', hevents, hon, hw, hframe⟩ := LogWriter.On.exists_events (c := { rotation })
    (on_of_isEmptyDirectory h rotation) rfl events
  refine ⟨w, f', ?_, hon, hw, hframe⟩
  rw [session, LogWriter.create_eq h.directory]
  exact hevents

/-- An empty directory beside a file. -/
def emptyLogs : Files := { nodes := [(["logs"], .directory), (["notes"], .file (.text "none"))] }

theorem isEmptyDirectory_emptyLogs : emptyLogs.IsEmptyDirectory (Path.place "logs") := by
  have hplace : Path.place "logs" = ["logs"] := by decide +kernel
  rw [hplace]
  refine ⟨fun i hi => ?_, fun name => rfl⟩
  obtain rfl | rfl := Nat.le_one_iff_eq_zero_or_eq_one.mp hi <;> rfl

end LogFile

end TeachPendant
