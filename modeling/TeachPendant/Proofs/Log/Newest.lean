import TeachPendant.Proofs.Log.Division
import TeachPendant.Proofs.Log.Session

namespace TeachPendant

namespace LogFile

/-- A file of these lines. -/
def fileOf (lines : List String) : Content := .text (String.join lines)

theorem fileOf_concat (lines : List String) (line : String) :
    fileOf (lines ++ [line]) = (fileOf lines).append line := by
  rw [fileOf, String.join_append, String.join_cons, String.join_nil, String.append_empty]
  rfl

theorem fileOf_singleton (line : String) : fileOf [line] = .text line := by
  rw [fileOf, String.join_cons, String.join_nil, String.append_empty]

/-- The files of a log directory, the newest first; there are no others. -/
structure Holds (d : Place) (f : Files) (files : List (List String)) : Prop where
  live : f.node? (live d) = files.head?.map fun lines => .file (fileOf lines)
  archives : ∀ g, f.node? (archive d (g + 1)) = files[g + 1]?.map fun lines => .file (fileOf lines)
  others : ∀ name, Outside d (d ++ [name]) → f.node? (d ++ [name]) = none

/-- What is kept of the lines written, the newest file first. A line is lost only if there is no way
to keep all. -/
structure Newest (r : Rotation) (lines : List String) (files : List (List String)) : Prop where
  suffix : files.reverse.flatten <:+ lines
  last : files.head?.bind List.getLast? = lines.getLast?
  fits : ∀ file ∈ files, file ≠ [] ∧ Fits r.maxBytes file
  kept : files.length ≤ r.keep + 1
  lost : files.reverse.flatten ≠ lines → ∀ others, IsDivision r.maxBytes lines others →
    r.keep + 1 < others.length

/-- The lines file by file, the newest file first. -/
def filled (maxBytes : Nat) (lines : List String) : List (List String) :=
  lines.foldl (fun files line => addLine maxBytes line files) []

/-- The files of these lines that are kept. -/
def newest (r : Rotation) (lines : List String) : List (List String) :=
  (filled r.maxBytes lines).take (r.keep + 1)

variable {r : Rotation} {line : String} {lines : List String}

theorem filled_concat (maxBytes : Nat) (lines : List String) (line : String) :
    filled maxBytes (lines ++ [line]) = addLine maxBytes line (filled maxBytes lines) :=
  List.foldl_append

theorem newest_concat (r : Rotation) (lines : List String) (line : String) :
    newest r (lines ++ [line]) = (addLine r.maxBytes line (newest r lines)).take (r.keep + 1) := by
  rw [newest, filled_concat, newest, take_addLine_take]

theorem filled_spec (maxBytes : Nat) (lines : List String) : Filled maxBytes (filled maxBytes lines) ∧
    (filled maxBytes lines).reverse.flatten = lines ∧
    (filled maxBytes lines).head?.bind List.getLast? = lines.getLast? := by
  induction lines using List.reverseRecOn with
  | nil => exact ⟨.nil _, rfl, rfl⟩
  | append_singleton lines line ih =>
    rw [filled_concat, addLine_flatten, ih.2.1, head?_addLine, List.getLast?_concat]
    exact ⟨ih.1.addLine line, rfl, rfl⟩

theorem newest_filled (r : Rotation) (lines : List String) : Filled r.maxBytes (newest r lines) :=
  (filled_spec r.maxBytes lines).1.take _

theorem newest_spec (r : Rotation) (lines : List String) : Newest r lines (newest r lines) := by
  obtain ⟨hfilled, hlines, hlast⟩ := filled_spec r.maxBytes lines
  have hfiles := newest_filled r lines
  refine ⟨?_, ?_, fun file hfile => ⟨hfiles.nonempty file hfile, hfiles.fits file hfile⟩,
    List.length_take_le _ _, fun hlost others hothers => ?_⟩
  · have hsuffix := (List.reverse_suffix.mpr (List.take_prefix (r.keep + 1) (filled r.maxBytes lines)))
    obtain ⟨dropped, hdropped⟩ := hsuffix
    exact ⟨dropped.flatten, by rw [newest, ← List.flatten_append, hdropped, hlines]⟩
  · rw [newest, List.head?_take, if_neg (Nat.succ_ne_zero _), hlast]
  · rw [← hlines] at hothers
    refine hfilled.lt_length_of_take_ne (fun htake => hlost ?_) hothers
    rw [newest, htake, hlines]

/-- One more line either is kept with all that were kept before, or there is no way to do so. -/
theorem newest_concat_flatten (r : Rotation) (lines : List String) (line : String) :
    (newest r (lines ++ [line])).reverse.flatten = (newest r lines).reverse.flatten ++ [line] ∨
      ∀ others, IsDivision r.maxBytes ((newest r lines).reverse.flatten ++ [line]) others →
        r.keep + 1 < others.length := by
  have hfilled := (newest_filled r lines).addLine line
  rw [newest_concat, ← addLine_flatten r.maxBytes]
  by_cases htake : (addLine r.maxBytes line (newest r lines)).take (r.keep + 1) =
      addLine r.maxBytes line (newest r lines)
  · exact .inl (by rw [htake])
  · exact .inr fun others hothers => hfilled.lt_length_of_take_ne htake hothers

end LogFile

open LogFile

namespace LogFolder

/-- A log of these lines, the newest file first. -/
def ofFiles (files : List (List String)) : LogFolder where
  live := files.head?.map fileOf
  archives := files.tail.map fileOf

theorem In.holds {d : Place} {f : Files} {files : List (List String)} (h : (ofFiles files).In d f)
    (hothers : ∀ name, Outside d (d ++ [name]) → f.node? (d ++ [name]) = none) : Holds d f files where
  live := by
    rw [h.live, ofFiles, Option.map_map]
    rfl
  archives g := by
    rw [h.archives, ofFiles, List.getElem?_map, List.getElem?_tail, Option.map_map]
    rfl
  others := hothers

/-- To write a line is to add it and to keep the newest files. -/
theorem write_ofFiles {r : Rotation} {files : List (List String)}
    (hpos : ∀ file ∈ files, 0 < byteCount file) (hkept : files.length ≤ r.keep + 1) (line : String) :
    (ofFiles files).write r line = ofFiles ((addLine r.maxBytes line files).take (r.keep + 1)) := by
  cases files with
  | nil =>
    have hroom : ¬ (ofFiles []).Full r.maxBytes line := fun h => absurd h.1 (Nat.lt_irrefl 0)
    have hempty : (ofFiles []).content = fileOf [] := congrArg Content.text String.join_nil.symm
    rw [write, if_neg hroom, hempty, ← fileOf_concat, addLine, List.take_succ_cons, List.take_nil]
    rfl
  | cons file older =>
    have hfull : (ofFiles (file :: older)).Full r.maxBytes line ↔
        r.maxBytes < byteCount (file ++ [line]) := by
      rw [byteCount_append, byteCount_singleton]
      exact and_iff_right (hpos file List.mem_cons_self)
    have holder : older.length ≤ r.keep := Nat.le_of_succ_le_succ hkept
    rw [write, addLine]
    by_cases hroom : r.maxBytes < byteCount (file ++ [line])
    · have hrotated : (ofFiles (file :: older)).archivesRotated r.keep =
          ((file :: older).take r.keep).map fileOf := by
        have hdrop : (older.map fileOf).drop r.keep = [] :=
          List.drop_eq_nil_of_le (by rwa [List.length_map])
        show (fileOf file :: older.map fileOf).take r.keep ++ (older.map fileOf).drop r.keep = _
        rw [hdrop, List.append_nil, ← List.map_cons, List.map_take]
      rw [if_pos (hfull.mpr hroom), if_pos hroom, hrotated, ← fileOf_singleton, List.take_succ_cons]
      rfl
    · rw [if_neg (mt hfull.mp hroom), if_neg hroom, List.take_of_length_le (by simpa using hkept)]
      exact congrArg (fun live => LogFolder.mk (some live) (older.map fileOf))
        (fileOf_concat file line).symm

end LogFolder

namespace LogEvent

/-- Whether the settings stay as they are. -/
def Keeps (rotation : Rotation) : LogEvent → Prop
  | .write _ => True
  | .configure rotation' | .reopen rotation' => rotation' = rotation

instance (rotation : Rotation) : (e : LogEvent) → Decidable (e.Keeps rotation)
  | .write _ => inferInstanceAs (Decidable True)
  | .configure rotation' | .reopen rotation' => inferInstanceAs (Decidable (rotation' = rotation))

/-- The lines that are written. -/
def lines (events : List LogEvent) : List String := events.filterMap line?

end LogEvent

namespace LogCourse

/-- A line has an end, so it is not empty, nor is a file that holds one. -/
theorem byteCount_newest_pos (rotation : Rotation) (events : List LogEvent) :
    ∀ file ∈ newest rotation (LogEvent.lines events), 0 < byteCount file := by
  intro file hfile
  have hspec := newest_spec rotation (LogEvent.lines events)
  obtain ⟨line, rest, rfl⟩ := List.exists_cons_of_ne_nil (hspec.fits file hfile).1
  have hmem : line ∈ (newest rotation (LogEvent.lines events)).reverse.flatten :=
    List.mem_flatten_of_mem (List.mem_reverse.mpr hfile) List.mem_cons_self
  obtain ⟨e, -, he⟩ := List.mem_filterMap.mp (hspec.suffix.mem hmem)
  cases e with
  | configure rotation | reopen rotation => cases he
  | write m =>
    obtain rfl : LogWriter.lineOf m = line := Option.some.inj he
    have hend : "\n".utf8ByteSize = 1 := rfl
    rw [← List.singleton_append, byteCount_append, byteCount_singleton, LogWriter.lineOf,
      String.utf8ByteSize_append]
    omega

theorem after_eq_newest {rotation : Rotation} {events : List LogEvent}
    (hkeeps : ∀ e ∈ events, e.Keeps rotation) : (after rotation events).rotation = rotation ∧
      (after rotation events).folder = .ofFiles (newest rotation (LogEvent.lines events)) := by
  induction events using List.reverseRecOn with
  | nil => exact ⟨rfl, rfl⟩
  | append_singleton events e ih =>
    obtain ⟨hrotation, hfolder⟩ := ih fun e h => hkeeps e (List.mem_append_left _ h)
    have he := hkeeps e (List.mem_append_right _ List.mem_cons_self)
    rw [after_concat, LogEvent.lines, List.filterMap_append]
    cases e with
    | write m =>
      refine ⟨hrotation, ?_⟩
      show (after rotation events).folder.write (after rotation events).rotation (LogWriter.lineOf m) = _
      rw [hrotation, hfolder, LogFolder.write_ofFiles (byteCount_newest_pos rotation events)
        (newest_spec rotation _).kept, ← newest_concat]
      rfl
    | configure rotation' | reopen rotation' =>
      rw [List.filterMap_cons_none rfl, List.filterMap_nil, List.append_nil]
      exact ⟨he, hfolder⟩

end LogCourse

namespace LogWriter.On

/-- Writers that take over with the same settings make no difference to the files. -/
theorem foldlM_writes {w v : LogWriter} {f : Files} {l : LogFolder} {events : List LogEvent}
    (hw : w.On f l) (hv : v.On f l) (hsame : v.closed = w.closed)
    (hkeeps : ∀ e ∈ events, e.Keeps w.rotation) :
    (events.foldlM LogEvent.apply (w, f)).map Prod.snd =
      ((events.filter (·.line?.isSome)).foldlM LogEvent.apply (v, f)).map Prod.snd := by
  induction events generalizing w v f l with
  | nil => rfl
  | cons e events ih =>
    obtain ⟨he, hevents⟩ := List.forall_mem_cons.mp hkeeps
    cases e with
    | write m =>
      obtain ⟨w', f', hwrite, hon, hclosed, -⟩ := hw.exists_write m
      have hwrite' : v.write f m = .ok (w', f') := by rw [← hv.write_closed, hsame, hw.write_closed, hwrite]
      have hrotation : w'.closed.rotation = w.closed.rotation := congrArg LogWriter.rotation hclosed
      have hrest := ih hon hon rfl fun e h => hrotation ▸ hevents e h
      rw [List.filter_cons_of_pos rfl, List.foldlM_cons, List.foldlM_cons]
      simp only [LogEvent.apply, hwrite, hwrite']
      exact hrest
    | configure rotation =>
      obtain rfl : rotation = w.rotation := he
      exact ih hw hv hsame hevents
    | reopen rotation =>
      obtain rfl : rotation = w.rotation := he
      have hreopen : LogEvent.apply (w, f) (.reopen w.rotation) = .ok (w.closed, f) :=
        create_eq hw.folder.directory _
      rw [List.filter_cons_of_neg Bool.false_ne_true, List.foldlM_cons, hreopen]
      exact ih hw.closed hv hsame hevents

end LogWriter.On

namespace LogFile

variable {f : Files} {directory : String} {rotation : Rotation} {events : List LogEvent}

theorem session_writes (h : f.IsEmptyDirectory (Path.place directory))
    (hkeeps : ∀ e ∈ events, e.Keeps rotation) :
    (session f directory rotation events).map Prod.snd =
      (session f directory rotation (events.filter (·.line?.isSome))).map Prod.snd := by
  have hon := on_of_isEmptyDirectory h rotation
  rw [session, session, LogWriter.create_eq h.directory]
  exact hon.foldlM_writes hon rfl hkeeps

theorem session_concat (f : Files) (directory : String) (rotation : Rotation) (events : List LogEvent)
    (e : LogEvent) : session f directory rotation (events ++ [e]) =
      session f directory rotation events >>= fun s => e.apply s := by
  rw [session, session]
  cases LogWriter.create f directory rotation with
  | error fault => rfl
  | ok s =>
    show (events ++ [e]).foldlM LogEvent.apply s = events.foldlM LogEvent.apply s >>= _
    rw [List.foldlM_append]
    exact bind_congr fun s => bind_pure (e.apply s)

theorem session_holds (h : f.IsEmptyDirectory (Path.place directory))
    (hkeeps : ∀ e ∈ events, e.Keeps rotation) : ∃ w f', session f directory rotation events = .ok (w, f') ∧
      Holds (Path.place directory) f' (newest rotation (LogEvent.lines events)) := by
  obtain ⟨w, f', hsession, hon, hclosed, hframe⟩ := exists_session h rotation events
  have hdirectory : w.closed.directory = directory := congrArg LogWriter.directory hclosed
  have hin := hon.folder
  rw [(LogCourse.after_eq_newest hkeeps).2, LogWriter.place,
    show w.directory = directory from hdirectory] at hin
  exact ⟨w, f', hsession, hin.holds fun name hname => (hframe _ hname).trans (h.empty name)⟩

/-- A log keeps the newest lines, in order. Whether another line makes it lose one depends only on
whether there is a way to keep it with those that are left, and other writers with the same settings
make no difference. -/
theorem session_newest (h : f.IsEmptyDirectory (Path.place directory))
    (hkeeps : ∀ e ∈ events, e.Keeps rotation) :
    ∃ w f' files, session f directory rotation events = .ok (w, f') ∧
      Holds (Path.place directory) f' files ∧
      Newest rotation (LogEvent.lines events) files ∧
      (∀ m, ∃ w' f'' files', w.write f' m = .ok (w', f'') ∧ Holds (Path.place directory) f'' files' ∧
        Newest rotation (LogEvent.lines events ++ [LogWriter.lineOf m]) files' ∧
        (files'.reverse.flatten = files.reverse.flatten ++ [LogWriter.lineOf m] ∨
          ∀ others, IsDivision rotation.maxBytes (files.reverse.flatten ++ [LogWriter.lineOf m]) others →
            rotation.keep + 1 < others.length)) ∧
      ∃ w', session f directory rotation (events.filter (·.line?.isSome)) = .ok (w', f') := by
  obtain ⟨w, f', hsession, hholds⟩ := session_holds h hkeeps
  refine ⟨w, f', _, hsession, hholds, newest_spec _ _, fun m => ?_, ?_⟩
  · have hkeeps' : ∀ e ∈ events ++ [.write m], e.Keeps rotation :=
      List.forall_mem_append.mpr ⟨hkeeps, List.forall_mem_singleton.mpr trivial⟩
    obtain ⟨w', f'', hsession', hholds'⟩ := session_holds h hkeeps'
    have hlines : LogEvent.lines (events ++ [.write m]) =
        LogEvent.lines events ++ [LogWriter.lineOf m] := List.filterMap_append
    rw [session_concat, hsession] at hsession'
    rw [hlines] at hholds'
    exact ⟨w', f'', _, hsession', hholds', newest_spec _ _, newest_concat_flatten _ _ _⟩
  · have hwrites := session_writes h hkeeps
    rw [hsession] at hwrites
    cases hothers : session f directory rotation (events.filter (·.line?.isSome)) with
    | error fault =>
      rw [hothers] at hwrites
      cases hwrites
    | ok s =>
      rw [hothers] at hwrites
      exact ⟨s.1, congrArg (fun f => Except.ok (s.1, f)) (Except.ok.inj hwrites).symm⟩

/-- Two lines that fill a file, one that is too long for any, and one more. -/
def fourLines : List LogEvent :=
  [.write (.info "a"), .reopen ⟨18, 1⟩, .write (.info "b"), .write (.info "a longer line"),
    .reopen ⟨18, 1⟩, .write (.info "c")]

def fourLinesKept : Files := { nodes := [(["logs"], .directory), (["notes"], .file (.text "none")),
  (["logs", "pendant.log.1"], .file (.text "[INFO] a longer line\n")),
  (["logs", "pendant.log"], .file (.text "[INFO] c\n"))] }

theorem session_newest_fourLines : emptyLogs.IsEmptyDirectory (Path.place "logs") ∧
    (∀ e ∈ fourLines, e.Keeps ⟨18, 1⟩) ∧ ∃ w files,
      session emptyLogs "logs" ⟨18, 1⟩ fourLines = .ok (w, fourLinesKept) ∧
      Holds (Path.place "logs") fourLinesKept files ∧
      Newest ⟨18, 1⟩ (LogEvent.lines fourLines) files := by
  have hkeeps : ∀ e ∈ fourLines, e.Keeps ⟨18, 1⟩ := by decide
  obtain ⟨w, f', files, hsession, hholds, hnewest, -⟩ :=
    session_newest isEmptyDirectory_emptyLogs hkeeps
  have hkept : (session emptyLogs "logs" ⟨18, 1⟩ fourLines).toOption.map Prod.snd =
      some fourLinesKept := by decide +kernel
  obtain rfl : f' = fourLinesKept := by
    rw [hsession] at hkept
    exact Option.some.inj hkept
  exact ⟨isEmptyDirectory_emptyLogs, hkeeps, w, files, hsession, hholds, hnewest⟩

end LogFile

end TeachPendant
