import TeachPendant.Proofs.Files.Tree
import TeachPendant.Proofs.Settings.Ranges

namespace TeachPendant

namespace Settings

variable {s t : Settings} {f g g' : Files} {path content : String} {content? : Option String}

/-- Other settings that agree with some wherever these are in their ranges. A setting without a range
is always in it. -/
structure KeepsInRange (s t : Settings) : Prop where
  numbers : ∀ (i : ℕ) (l : Limit) (n : ℕ),
    s.checked[i]? = some (l, n) → l.admits n → t.checked[i]? = some (l, n)
  directory : s.logging.directory ≠ some "" → t.logging.directory = s.logging.directory
  simulate : t.motion.simulate = s.motion.simulate
  defaultMode : t.execution.defaultMode = s.execution.defaultMode
  output : t.logging.output = s.logging.output
  level : t.logging.level = s.logging.level

theorem keepsInRange_settled (s : Settings) : s.KeepsInRange s.settled where
  numbers := fun i l n hi hn => by
    rw [checked_settled, List.getElem?_map, hi, Option.map_some, Limit.settle_of_admits hn]
  directory := directory_settled_of_ne
  simulate := rfl
  defaultMode := rfl
  output := rfl
  level := rfl

theorem exists_save (hpath : path ≠ "") (h : f.Room (Path.place path)) (s : Settings) :
    ∃ g, s.save path f = .ok g ∧ g.readText path = .ok s.text := by
  obtain ⟨g, g', hg, hwrite⟩ := (Files.exists_write_iff_room (.text s.text)).mpr ⟨hpath, h⟩
  refine ⟨g', ?_, Files.readText_write hwrite⟩
  rw [save, hg]
  exact congrArg (attempt _) hwrite

/-- A file that could be read can be written. -/
theorem exists_save_of_readText (h : f.readText path = .ok content) (s : Settings) :
    ∃ g, s.save path f = .ok g ∧ g.readText path = .ok s.text := by
  obtain ⟨hpath, hobstacle, c, hnode⟩ := Files.exists_file_of_readText h
  refine exists_save hpath (Files.room_of_obstacle? hobstacle ?_) s
  rw [hnode]
  nofun

/-- Writing another file makes no difference to that, even if it is the same one. -/
theorem exists_save_of_write {other : String} {c : Content} (h : f.readText path = .ok content)
    (hother : f.write other c = .ok g) (s : Settings) :
    ∃ g', s.save path g = .ok g' ∧ g'.readText path = .ok s.text := by
  obtain ⟨hpath, hobstacle, c, hnode⟩ := Files.exists_file_of_readText h
  obtain ⟨-, -, hfile, rfl⟩ := Files.write_eq_ok_iff.mp hother
  refine exists_save hpath (Files.room_of_obstacle? (Files.obstacle?_put hobstacle hfile) ?_) s
  rw [Files.node?_put f (Files.ne_nil_of_node? hfile)]
  split_ifs
  · nofun
  · rw [hnode]
    nofun

/-- What a settings file settles to. -/
def ofContent (content? : Option String) : Settings := ((content?.bind read?).getD {}).settled

theorem ofContent_some (h : read? content = some s) : ofContent (some content) = s.settled := by
  rw [ofContent, Option.bind_some, h, Option.getD_some]

theorem ofContent_unreadable (h : content?.bind read? = none) : ofContent content? = {} := by
  rw [ofContent, h, Option.getD_none, settled_of_valid valid_default]

/-- Both ways to load read the same. -/
theorem load_of_readText (h : f.readText path = .ok content) :
    ∃ messages, load path f = .ok (ofContent (some content), messages) := by
  cases hread : read? content with
  | none =>
    refine ⟨[.error ("Failed to parse config: " ++ unreadable ++ ". Using defaults.")], ?_⟩
    rw [ofContent_unreadable (show (some content).bind read? = none from hread)]
    simp only [load, h, attempt, bind, Except.bind, hread]
  | some s =>
    refine ⟨s.warnings, ?_⟩
    rw [ofContent_some hread]
    simp only [load, h, attempt, bind, Except.bind, hread, validate]

theorem contains_of_readText (h : f.readText path = .ok content) :
    path ≠ "" ∧ f.contains (Path.place path) := by
  obtain ⟨hpath, -, c, hnode⟩ := Files.exists_file_of_readText h
  exact ⟨hpath, by rw [Files.contains, hnode]; rfl⟩

theorem loadOrCreate_of_usual (h : f.readText path = .ok content) (hread : read? content = some s)
    (husual : trimmed content = trimmed s.settled.text) :
    loadOrCreate path f = .ok (s.settled, f, s.warnings) := by
  simp only [loadOrCreate, if_pos (contains_of_readText h), h, attempt, bind, Except.bind, hread]
  exact if_pos husual

theorem loadOrCreate_of_unusual (h : f.readText path = .ok content) (hread : read? content = some s)
    (hunusual : trimmed content ≠ trimmed s.settled.text) (hsave : s.settled.save path f = .ok g) :
    loadOrCreate path f = .ok (s.settled, g, s.warnings) := by
  have hsave' : s.validate.1.save path f = .ok g := hsave
  simp only [loadOrCreate, if_pos (contains_of_readText h), h, attempt, bind, Except.bind, hread, hsave']
  exact if_neg hunusual

theorem loadOrCreate_of_unreadable (h : f.readText path = .ok content) (hread : read? content = none)
    (hbackup : f.write (backupPath path) (.text content) = .ok g)
    (hsave : ({} : Settings).save path g = .ok g') :
    ∃ messages, loadOrCreate path f = .ok ({}, g', messages) := by
  simp only [loadOrCreate, if_pos (contains_of_readText h), h, attempt, bind, Except.bind, hread,
    hbackup, hsave]
  exact ⟨_, rfl⟩

theorem loadOrCreate_of_absent (hfree : f.node? (Path.place path) = none)
    (hsave : ({} : Settings).save path f = .ok g) : loadOrCreate path f = .ok ({}, g, []) := by
  have hgone : ¬ (path ≠ "" ∧ f.contains (Path.place path)) := by
    rw [Files.contains, hfree]
    exact fun h => Bool.false_ne_true h.2
  simp only [loadOrCreate, if_neg hgone, hsave, bind, Except.bind]

/-- Settings in their ranges are loaded from their own text, and the file is left alone. -/
theorem loadOrCreate_text (h : f.readText path = .ok s.text) (hs : s.Writable) (hv : s.valid) :
    loadOrCreate path f = .ok (s, f, []) := by
  have hload := loadOrCreate_of_usual h (read?_text hs) (by rw [settled_of_valid hv])
  rwa [settled_of_valid hv, warnings_of_valid hv] at hload

/-- What stands in the place of the settings file: nothing, or a text. There is room for the file, and
for a copy of a text that says nothing. -/
inductive At (path : String) (f : Files) : Option String → Prop
  | absent (named : path ≠ "") (free : f.node? (Path.place path) = none)
      (room : f.Room (Path.place path)) : At path f none
  | present {content : String} (reads : f.readText path = .ok content)
      (backup : read? content = none → ∃ g, f.write (backupPath path) (.text content) = .ok g) :
      At path f (some content)

/-- The first time, the file is left alone only if it says what would be written. The second time it
always does. -/
theorem At.exists_loadOrCreate (h : At path f content?) : ∃ f' messages,
    loadOrCreate path f = .ok (ofContent content?, f', messages) ∧
    (∃ messages', loadOrCreate path f' = .ok (ofContent content?, f', messages')) ∧
    ∃ text, f'.readText path = .ok text ∧ trimmed text = trimmed (ofContent content?).text := by
  cases h with
  | absent named free room =>
    obtain ⟨g, hsave, hreads⟩ := exists_save named room {}
    rw [ofContent_unreadable rfl]
    exact ⟨g, [], loadOrCreate_of_absent free hsave,
      ⟨[], loadOrCreate_text hreads writable_default valid_default⟩, _, hreads, rfl⟩
  | @present content reads backup =>
    cases hread : read? content with
    | none =>
      obtain ⟨g, hbackup⟩ := backup hread
      obtain ⟨g', hsave, hreads⟩ := exists_save_of_write reads hbackup {}
      obtain ⟨messages, hload⟩ := loadOrCreate_of_unreadable reads hread hbackup hsave
      rw [ofContent_unreadable (show (some content).bind read? = none from hread)]
      exact ⟨g', messages, hload,
        ⟨[], loadOrCreate_text hreads writable_default valid_default⟩, _, hreads, rfl⟩
    | some s =>
      rw [ofContent_some hread]
      by_cases husual : trimmed content = trimmed s.settled.text
      · have hload := loadOrCreate_of_usual reads hread husual
        exact ⟨f, _, hload, ⟨_, hload⟩, content, reads, husual⟩
      · obtain ⟨g, hsave, hreads⟩ := exists_save_of_readText reads s.settled
        have hwritable := (writable_of_read? hread).settled
        exact ⟨g, _, loadOrCreate_of_unusual reads hread husual hsave,
          ⟨[], loadOrCreate_text hreads hwritable s.valid_settled⟩, _, hreads, rfl⟩

/-- Loading settles after one load. What is loaded lies in its ranges, is loaded again from the file
that was left, which then stays as it is, and is also what loading without writing gives. Settling
settings twice does no more than settling them once, and nothing to what was in its range. -/
theorem At.settles (h : At path f content?) : ∃ f' messages,
    loadOrCreate path f = .ok (ofContent content?, f', messages) ∧
    (ofContent content?).valid ∧
    (∃ messages', loadOrCreate path f' = .ok (ofContent content?, f', messages')) ∧
    (∃ text, f'.readText path = .ok text ∧ trimmed text = trimmed (ofContent content?).text) ∧
    (content?.isSome → ∃ messages', load path f = .ok (ofContent content?, messages')) ∧
    ∀ t : Settings, t.validate.1.validate = (t.validate.1, []) ∧ t.KeepsInRange t.validate.1 := by
  obtain ⟨f', messages, hload, hagain, htext⟩ := h.exists_loadOrCreate
  refine ⟨f', messages, hload, valid_settled _, hagain, htext, fun hsome => ?_,
    fun t => ⟨t.validate_settled, t.keepsInRange_settled⟩⟩
  cases h with
  | absent => cases hsome
  | present reads _ => exact load_of_readText reads

/-- A few settings, two of them out of their ranges. -/
def twoOutOfRange : String := "[registers]\ndata = 0\nio = 16\n\n[motion]\ntick_ms = 500\n"

def twoOutOfRangeFile : Files := { nodes := [(["pendant"], .directory),
  (["pendant", "config.toml"], .file (.text twoOutOfRange))] }

theorem settles_twoOutOfRange :
    At "pendant/config.toml" twoOutOfRangeFile (some twoOutOfRange) ∧ ∃ s f' messages,
      s = { registers := { io := 16 } } ∧ s.valid ∧
      loadOrCreate "pendant/config.toml" twoOutOfRangeFile = .ok (s, f', messages) ∧
      (∃ messages', loadOrCreate "pendant/config.toml" f' = .ok (s, f', messages')) ∧
      ∃ messages', load "pendant/config.toml" twoOutOfRangeFile = .ok (s, messages') := by
  have hplace : Path.place "pendant/config.toml" = ["pendant", "config.toml"] := by decide +kernel
  have hread : read? twoOutOfRange = some { registers := { data := 0, io := 16 }
                                            motion := { tickMs := 500 } } := by decide +kernel
  have hat : At "pendant/config.toml" twoOutOfRangeFile (some twoOutOfRange) := by
    refine .present ?_ fun hnone => ?_
    · rw [Files.readText, Files.read, hplace]
      rfl
    · rw [hread] at hnone
      cases hnone
  obtain ⟨f', messages, hload, hvalid, hagain, -, hsame, -⟩ := hat.settles
  exact ⟨hat, _, f', messages, ofContent_some hread, hvalid, hload, hagain, hsame rfl⟩

end Settings

end TeachPendant
