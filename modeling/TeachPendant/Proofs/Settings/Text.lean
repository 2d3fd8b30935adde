import TeachPendant.Proofs.Document.TomlRoundTrip
import TeachPendant.Proofs.Saved.Fields
import TeachPendant.Settings.File

namespace TeachPendant

namespace Saved

open Document

variable {form : Form} {depth : ℕ} {fs : List (String × Document)}

theorem looseFields?_object (distinct : (fs.map (·.1)).Nodup) (names : List String) :
    (object fs).looseFields? form names = some (names.map fun name => fs.lookup name) :=
  fields?_named (fun _ => .inl rfl) distinct names 0

theorem count?_natural {bound n : ℕ} (h : n < bound) (standard : ℕ) :
    count? bound standard (some (.natural n)) = some n := natural?_natural h

theorem runMode?_name (m : RunMode) : runMode? form depth (.text m.name) = some m := by
  cases m <;> simp [runMode?, RunMode.name, oneOf?, oneOf?.pick, List.idxOf?_cons, noContentIn, noContent]

theorem logTarget?_name (t : LogTarget) : logTarget? form depth (.text t.name) = some t := by
  cases t <;>
    simp [logTarget?, LogTarget.name, oneOf?, oneOf?.pick, List.idxOf?_cons, noContentIn, noContent]

theorem severity?_toDocument (s : Severity) : severity? form depth s.toDocument = some s := by
  cases s <;> simp [severity?, Severity.toDocument, Severity.name, oneOf?, oneOf?.pick, List.idxOf?_cons,
    noContentIn, noContent]

end Saved

namespace Settings

open Saved Document
open TomlReader (Bare Leaf)

/-- The numbers that are checked, each with its limit. -/
def checked (s : Settings) : List (Limit × Nat) := s.checkedBeforeDirectory ++ s.checkedAfterDirectory

theorem forall_checked {P : Limit → Nat → Prop} {s : Settings} : (∀ x ∈ s.checked, P x.1 x.2) ↔
    (P .dataRegisters s.registers.data ∧ P .ioRegisters s.registers.io ∧
      P .positionRegisters s.registers.positions) ∧
    (P .tickMs s.motion.tickMs ∧ P .stepsAtFullSpeed s.motion.stepsAtFullSpeed ∧
      P .settleJitterMs s.motion.settleJitterMs) ∧
    P .maxTicks s.execution.maxTicks ∧
    P .maxFileKb s.logging.maxFileKb ∧ P .keepFiles s.logging.keepFiles := by
  simp only [checked, checkedBeforeDirectory, checkedAfterDirectory, List.cons_append, List.nil_append,
    List.forall_mem_cons, List.not_mem_nil, false_implies, implies_true, and_true, and_assoc]

/-- Whether every number can be written as a whole number and read back. -/
structure Writable (s : Settings) : Prop where
  long : ∀ x ∈ s.checked, x.2 < 2 ^ 63
  steps : s.motion.stepsAtFullSpeed < 2 ^ 32

variable {form : Form} {depth : ℕ} {s : Settings}

theorem Writable.lt (h : s.Writable) : ∀ x ∈ s.checked, x.2 < 2 ^ 64 := fun x hx =>
  Nat.lt_trans (h.long x hx) (by decide)

theorem registerSettings?_object {r : RegisterSettings} (hdata : r.data < 2 ^ 64) (hio : r.io < 2 ^ 64)
    (hpositions : r.positions < 2 ^ 64) : registerSettings? form (depth + 1) (.object [
      ("data", .natural r.data), ("io", .natural r.io), ("positions", .natural r.positions)]) =
        some r := by
  rw [registerSettings?, looseFields?_object (by simp)]
  simp only [List.map_cons, List.map_nil, List.lookup_cons, String.reduceBEq, count?_natural hdata,
    count?_natural hio, count?_natural hpositions, Option.bind_eq_bind, Option.bind_some]

theorem motionSettings?_object {m : MotionSettings} (htick : m.tickMs < 2 ^ 64)
    (hsteps : m.stepsAtFullSpeed < 2 ^ 32) (hjitter : m.settleJitterMs < 2 ^ 64) :
    motionSettings? form (depth + 1) (.object [
      ("simulate", .bool m.simulate), ("tick_ms", .natural m.tickMs),
      ("steps_at_full_speed", .natural m.stepsAtFullSpeed),
      ("settle_jitter_ms", .natural m.settleJitterMs)]) = some m := by
  rw [motionSettings?, looseFields?_object (by simp)]
  simp only [List.map_cons, List.map_nil, List.lookup_cons, String.reduceBEq, fieldOr?, bool?,
    count?_natural htick, count?_natural hsteps, count?_natural hjitter, Option.bind_eq_bind,
    Option.bind_some]

theorem executionSettings?_object {e : ExecutionSettings} (hticks : e.maxTicks < 2 ^ 64) :
    executionSettings? form (depth + 1) (.object [
      ("default_mode", .text e.defaultMode.name), ("max_ticks", .natural e.maxTicks)]) = some e := by
  rw [executionSettings?, looseFields?_object (by simp)]
  simp only [List.map_cons, List.map_nil, List.lookup_cons, String.reduceBEq, fieldOr?, runMode?_name,
    count?_natural hticks, Option.bind_eq_bind, Option.bind_some]

/-- The directory is left out if none is set. -/
theorem loggingSettings?_object {l : LoggingSettings} (hsize : l.maxFileKb < 2 ^ 64)
    (hkeep : l.keepFiles < 2 ^ 64) : loggingSettings? form (depth + 1) (.object (
      [("output", .text l.output.name), ("level", l.level.toDocument)] ++
        (match l.directory with
          | some directory => [("directory", .text directory)]
          | none => []) ++
        [("max_file_kb", .natural l.maxFileKb), ("keep_files", .natural l.keepFiles)])) = some l := by
  obtain ⟨output, level, directory, size, keep⟩ := l
  have hsize' := count?_natural hsize Limit.maxFileKb.standard
  have hkeep' := count?_natural hkeep Limit.keepFiles.standard
  cases directory with
  | none =>
    rw [loggingSettings?, looseFields?_object (by simp)]
    simp only [List.cons_append, List.nil_append, List.map_cons, List.map_nil, List.lookup_cons,
      List.lookup_nil, String.reduceBEq, fieldOr?, optionalField?, logTarget?_name,
      severity?_toDocument, hsize', hkeep', Option.bind_eq_bind, Option.bind_some]
  | some directory =>
    rw [loggingSettings?, looseFields?_object (by simp)]
    simp only [List.cons_append, List.nil_append, List.map_cons, List.map_nil, List.lookup_cons,
      List.lookup_nil, String.reduceBEq, fieldOr?, optionalField?, optional?, text?, Option.map_some,
      logTarget?_name, severity?_toDocument, hsize', hkeep', Option.bind_eq_bind, Option.bind_some]

theorem settings?_toDocument (h : s.Writable) : settings? form (depth + 2) s.toDocument = some s := by
  obtain ⟨⟨hdata, hio, hpositions⟩, ⟨htick, -, hjitter⟩, hticks, hsize, hkeep⟩ :=
    (forall_checked (P := fun _ n => n < 2 ^ 64)).mp h.lt
  rw [settings?, toDocument, tables, looseFields?_object (by simp)]
  simp only [List.map_cons, List.map_nil, List.lookup_cons, String.reduceBEq, fieldOr?,
    registerSettings?_object hdata hio hpositions, motionSettings?_object htick h.steps hjitter,
    executionSettings?_object hticks, Option.bind_eq_bind, Option.bind_some]
  exact Option.bind_eq_some_iff.mpr ⟨s.logging, loggingSettings?_object hsize hkeep, rfl⟩

/-- The names in the settings file, table by table. -/
def names (directory : Bool) : List (String × List String) :=
  [("registers", ["data", "io", "positions"]),
    ("motion", ["simulate", "tick_ms", "steps_at_full_speed", "settle_jitter_ms"]),
    ("execution", ["default_mode", "max_ticks"]),
    ("logging", ["output", "level"] ++ (if directory then ["directory"] else []) ++
      ["max_file_kb", "keep_files"])]

theorem map_tables (s : Settings) : s.tables.map (fun t => (t.1, t.2.map (·.1))) =
    names s.logging.directory.isSome := by
  rw [tables]
  cases s.logging.directory <;> rfl

theorem names_bare (directory : Bool) : ((names directory).map (·.1)).Nodup ∧
    ∀ t ∈ names directory, Bare t.1 ∧ t.2.Nodup ∧ ∀ k ∈ t.2, Bare k := by
  cases directory <;> decide

theorem leaf_tables (h : s.Writable) : ∀ t ∈ s.tables, ∀ f ∈ t.2, Leaf f.2 := by
  obtain ⟨⟨hdata, hio, hpositions⟩, ⟨htick, hsteps, hjitter⟩, hticks, hsize, hkeep⟩ :=
    (forall_checked (P := fun _ n => n < 2 ^ 63)).mp h.long
  rw [tables]
  cases s.logging.directory <;>
    simp only [List.cons_append, List.nil_append, List.forall_mem_cons, List.not_mem_nil, false_implies,
      implies_true, and_true, Severity.toDocument, Leaf.bool, Leaf.text, Leaf.natural hdata,
      Leaf.natural hio, Leaf.natural hpositions, Leaf.natural htick, Leaf.natural hsteps,
      Leaf.natural hjitter, Leaf.natural hticks, Leaf.natural hsize, Leaf.natural hkeep]

theorem written_tables (h : s.Writable) : TomlReader.Written s.tables := by
  obtain ⟨hnodup, hbare⟩ := names_bare s.logging.directory.isSome
  rw [← map_tables, List.map_map] at hnodup
  rw [← map_tables, List.forall_mem_map] at hbare
  exact {
    names := hnodup
    bare := fun t ht => (hbare t ht).1
    keys := fun t ht => (hbare t ht).2.1
    fields := fun t ht f hf =>
      ⟨(hbare t ht).2.2 f.1 (List.mem_map_of_mem hf), leaf_tables h t ht f hf⟩ }

/-- Settings are read back from their text. -/
theorem read?_text (h : s.Writable) : read? s.text = some s := by
  rw [read?, text, TomlReader.read?_write (written_tables h)]
  exact settings?_toDocument h

end Settings

end TeachPendant
