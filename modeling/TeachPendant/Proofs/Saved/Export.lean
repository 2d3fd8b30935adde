import TeachPendant.Proofs.Document.JsonRoundTrip
import TeachPendant.Proofs.Saved.Depth

namespace TeachPendant

open Number

/-- What is read where a number stands in JSON by itself. -/
def Number.rereadAlone (x : Single) : Option Single :=
  (JsonReader.read? (String.ofList x.inJson)).bind Document.number?

theorem Number.rereadAlone_eq (x : Single) :
    rereadAlone x = if x.isFinite then some x else none := by
  have htext : String.ofList x.inJson = JsonText.pretty (.single x) := by
    rw [JsonText.pretty, JsonText.write]
  rw [rereadAlone, htext, JsonText.read?_pretty (.single x), Option.bind_some, Document.reread,
    number?_reread]

/-- JSON: numbers come back with 64 bits, or as `null` if they are not finite. -/
def Passage.json : Passage where
  image := Document.reread
  name := Key.reread
  keeps := Binary.isFinite
  null := rfl
  bool _ := rfl
  integer _ := rfl
  text _ := rfl
  list := Document.reread_list
  record := Document.reread_record
  textName s := by
    rw [Key.reread]
    split
    · exact .inl rfl
    · exact .inr rfl
  indexName _ := .inr rfl
  number := number?_reread
  held x depth := by
    cases hx : x.isFinite with
    | true =>
      obtain ⟨y, hy, -⟩ := exists_reread_eq hx
      rw [Document.reread, hy]
      cases depth <;> rfl
    | false =>
      rw [Document.reread, Binary.reread, hx]
      cases depth <;> rfl

theorem Instruction.numbers_mapCalls (f : CallTarget → CallTarget) (i : Instruction) :
    (i.mapCalls f).numbers = i.numbers := by
  induction i using Instruction.induction with
  | single action commented hi hs =>
    cases action with
    | ifThen condition body => exact absurd rfl (hi condition body)
    | select argument cases => exact absurd rfl (hs argument cases)
    | _ => simp [mapCalls, mapActionCalls, numbers, Action.numbers]
  | ifThen condition body commented hb =>
    simp [mapCalls, mapActionCalls, numbers, Action.numbers, hb]
  | select argument cases commented hb =>
    have hcases : ∀ c ∈ cases, (c.mapCalls f).numbers = c.numbers := by
      rintro ⟨value, body⟩ hc
      rw [SelectCase.mapCalls, SelectCase.numbers, SelectCase.numbers, hb value body hc]
    have hall : (cases.map (SelectCase.mapCalls f)).flatMap SelectCase.numbers =
        cases.flatMap SelectCase.numbers := by
      rw [List.flatMap_map]
      exact List.flatMap_congr hcases
    simp [mapCalls, mapActionCalls, numbers, Action.numbers, mapCaseCalls_eq, caseNumbers_eq, hall]

theorem Instruction.SameButLinks.numbers_eq {i j : Instruction} (h : i.SameButLinks j) :
    j.numbers = i.numbers := by
  rw [← numbers_mapCalls .unlinked j, ← h.unlinked_eq, numbers_mapCalls]

namespace Snapshot

variable {s loaded : Snapshot}

theorem SameText.numbers_eq (h : s.SameText loaded) : loaded.numbers = s.numbers := by
  have hp (p q : Program) (hpq : p.SameText q) : q.numbers = p.numbers := by
    rw [Program.numbers, Program.numbers, hpq.positions_eq,
      flatMap_of_forall₂ hpq.lines fun _ _ hline => hline.numbers_eq]
  have hl (l m : Library) (hlm : l.SameText m) : m.numbers = l.numbers := flatMap_of_forall₂ hlm hp
  rw [numbers, numbers, h.registers_eq, flatMap_of_forall₂ h.libraries hl]

/-- Versions have 32 bits, and points are kept by their slots. -/
structure WellFormed (s : Snapshot) : Prop where
  version : s.version < 2 ^ 32
  ascending : ∀ l ∈ s.libraries, ∀ p ∈ l.programs, p.positions.Ascending

/-- A cell of the supported version that nests no deeper than JSON is read. -/
structure Exportable (s : Snapshot) : Prop where
  version : s.version = formatVersion
  ascending : ∀ l ∈ s.libraries, ∀ p ∈ l.programs, p.positions.Ascending
  shallow : s.toDocument.holds Form.json.depth = true

theorem Exportable.wellFormed (h : s.Exportable) : s.WellFormed where
  version := by
    rw [h.version]
    decide
  ascending := h.ascending

/-- An import is finished like any other load, or the text is no cell at all. -/
theorem WellFormed.ofJson_toJson (h : s.WellFormed) :
    ofJson s.toJson =
      if s.toDocument.holds Form.json.depth = true ∧ ∀ x ∈ s.numbers, x.isFinite = true then s.finish
      else .error unreadable := by
  have hread : JsonReader.read? s.toJson = some (Passage.json.image s.toDocument) := by
    rw [toJson, JsonText.read?_pretty (plain_toDocument h.version)]
    rfl
  rw [ofJson, hread, Option.bind_some]
  by_cases hd : s.toDocument.holds Form.json.depth = true
  · have hpass : Passage.json.pass s.numbers s.kept =
        if ∀ x ∈ s.numbers, x.isFinite = true then some s.kept else none :=
      if_congr List.all_eq_true rfl rfl
    rw [ofDocument?_image _ h.version h.ascending hd, hpass]
    simp only [hd, true_and]
    split_ifs
    · exact s.finish_kept
    · rfl
  · have hnone : ofDocument? .json Form.json.depth (Passage.json.image s.toDocument) = none :=
      Option.eq_none_iff_forall_not_mem.mpr fun b hb => hd (s.readWhole _ b hb)
    rw [hnone, if_neg fun h => hd h.1]

/-- What stands in the way of an import is another version, too deep a nesting or a number that is
not finite, and nothing else. -/
theorem WellFormed.imported_iff (h : s.WellFormed) :
    (∃ loaded warnings, ofJson s.toJson = .ok (loaded, warnings)) ↔
      s.version = formatVersion ∧ s.toDocument.holds Form.json.depth = true ∧
        ∀ x ∈ s.numbers, x.isFinite = true := by
  rw [h.ofJson_toJson]
  constructor
  · rintro ⟨loaded, warnings, hloaded⟩
    split_ifs at hloaded with hread
    refine ⟨?_, hread⟩
    by_contra hv
    rw [finish, if_pos hv] at hloaded
    cases hloaded
  · rintro ⟨hv, hread⟩
    obtain ⟨loaded, -, hfinish⟩ := exists_finish hv
    exact ⟨loaded, _, by rw [if_pos hread, hfinish]⟩

/-- Whatever is imported of an export is the cell that was exported. -/
theorem WellFormed.restored_of_imported (h : s.WellFormed) {warnings : Trace}
    (hloaded : ofJson s.toJson = .ok (loaded, warnings)) :
    s.Restored loaded ∧ warnings = Cell.warnings (linkCalls loaded.libraries).2 := by
  obtain ⟨hv, hread⟩ := h.imported_iff.mp ⟨loaded, warnings, hloaded⟩
  obtain ⟨restored, hrestored, hfinish⟩ := exists_finish hv
  rw [h.ofJson_toJson, if_pos hread, hfinish] at hloaded
  cases hloaded
  exact ⟨hrestored, rfl⟩

/-- A cell comes back whole just when each of its numbers is finite and comes back by itself. -/
theorem ofJson_toJson_restored_iff (h : s.Exportable) :
    (∃ loaded, s.Restored loaded ∧
      ofJson s.toJson = .ok (loaded, Cell.warnings (linkCalls loaded.libraries).2)) ↔
    ∀ x ∈ s.numbers, x.isFinite = true ∧ rereadAlone x = some x := by
  constructor
  · rintro ⟨loaded, -, hloaded⟩ x hx
    obtain ⟨-, -, hfinite⟩ := h.wellFormed.imported_iff.mp ⟨loaded, _, hloaded⟩
    exact ⟨hfinite x hx, by rw [rereadAlone_eq, if_pos (hfinite x hx)]⟩
  · intro hnumbers
    obtain ⟨loaded, warnings, hloaded⟩ :=
      h.wellFormed.imported_iff.mpr ⟨h.version, h.shallow, fun x hx => (hnumbers x hx).1⟩
    obtain ⟨hrestored, rfl⟩ := h.wellFormed.restored_of_imported hloaded
    exact ⟨loaded, hrestored, hloaded⟩

/-- Names with a quote, a backslash, a line break, a control character and a character beyond ASCII,
a call that was linked elsewhere, and numbers in a nested expression and in taught positions. -/
def exported : Snapshot where
  registers := {
    data := [{ value := .ofInt (-3), comment := "a \"b\" \\ c\n\x01" }, { value := .zero true }]
    io := [{ value := true, comment := "é" }]
    positions := [{ value := .origin }] }
  libraries := [⟨[
    { name := "MA\tIN \u2192"
      lines := [
        ⟨7, .ofAction (.call { program := "WO\"RK", device := 0, link := some ⟨1, 5⟩ })⟩,
        ⟨3, .mk (.ifThen (.tree (.data 18446744073709551615) .lt
          (.nested (.sequence [.operand (.number (.ofCode false 1))]))) (.ofAction (.jump 9))) true⟩]
      positions := ⟨[(4, .origin), (9, .origin)], 0⟩ },
    { name := "WO\"RK" }]⟩, ⟨[]⟩]

theorem ofJson_toJson_exported :
    exported.Exportable ∧ (∀ x ∈ exported.numbers, x.isFinite = true ∧ rereadAlone x = some x) ∧
      ∃ loaded, exported.Restored loaded ∧ ofJson exported.toJson =
        .ok (loaded, Cell.warnings (linkCalls loaded.libraries).2) := by
  have h : exported.Exportable := ⟨rfl, by decide, by decide +kernel⟩
  have hfinite : ∀ x ∈ exported.numbers, x.isFinite = true := by decide +kernel
  have hnumbers : ∀ x ∈ exported.numbers, x.isFinite = true ∧ rereadAlone x = some x :=
    fun x hx => ⟨hfinite x hx, by rw [rereadAlone_eq, if_pos (hfinite x hx)]⟩
  exact ⟨h, hnumbers, (ofJson_toJson_restored_iff h).mpr hnumbers⟩

/-- No finite number is changed by writing it as JSON and reading it: alone it comes back as it was,
and whatever is imported of a cell holds the numbers of the cell, each in its place. Among cells of
the supported version only those that nest too deep or hold a number that is not finite are not
imported. -/
theorem ofJson_toJson_numbers :
    (∀ x : Single, x.isFinite = true → rereadAlone x = some x) ∧
    ∀ s : Snapshot, s.WellFormed →
      (∀ loaded warnings, ofJson s.toJson = .ok (loaded, warnings) →
        s.Restored loaded ∧ loaded.numbers = s.numbers) ∧
      ((∃ loaded warnings, ofJson s.toJson = .ok (loaded, warnings)) ↔
        s.version = formatVersion ∧ s.toDocument.holds Form.json.depth = true ∧
          ∀ x ∈ s.numbers, x.isFinite = true) := by
  refine ⟨fun x hx => ?_, fun s h => ⟨fun loaded warnings hloaded => ?_, h.imported_iff⟩⟩
  · rw [rereadAlone_eq, if_pos hx]
  · obtain ⟨hrestored, -⟩ := h.restored_of_imported hloaded
    exact ⟨hrestored, hrestored.text.numbers_eq⟩

/-- The negative zero, the least numbers with all and with few bits, the largest one and one whose
digits lie next to a midpoint, in every place that holds a number. -/
def extremes : Snapshot where
  registers := {
    data := [{ value := .zero true }, { value := .ofCode false 1 }]
    io := []
    positions := [{ value := { Point.origin with x := .ofCode true 0x7f7fffff } }] }
  libraries := [⟨[
    { name := "MAIN"
      lines := [
        ⟨1, .ofAction (.motion {
          kind := .linear, target := .taught 4, speed := .ofCode false 0x15ae43fd, termination := 0
          toolFrame := 0, userFrame := 0, offset := none, via := none })⟩,
        ⟨2, .ofAction (.assign (.data 0) [.operand (.number (.ofCode true 0x00800000))])⟩]
      positions := ⟨[(4, { Point.origin with r := .ofCode false 0x7f7fffff })], 5⟩ }]⟩, ⟨[]⟩]

theorem ofJson_toJson_extremes :
    extremes.WellFormed ∧ (∀ x ∈ extremes.numbers, x.isFinite = true) ∧
      rereadAlone (.ofCode false 0x15ae43fd) = some (.ofCode false 0x15ae43fd) ∧
      ∃ loaded warnings, ofJson extremes.toJson = .ok (loaded, warnings) ∧
        extremes.Restored loaded ∧ loaded.numbers = extremes.numbers := by
  have h : extremes.WellFormed := ⟨by decide, by decide⟩
  have hfinite : ∀ x ∈ extremes.numbers, x.isFinite = true := by decide +kernel
  obtain ⟨hkeeps, himported⟩ := ofJson_toJson_numbers.2 extremes h
  obtain ⟨loaded, warnings, hloaded⟩ := himported.mpr ⟨rfl, by decide +kernel, hfinite⟩
  exact ⟨h, hfinite, ofJson_toJson_numbers.1 _ (by decide +kernel), loaded, warnings, hloaded,
    hkeeps loaded warnings hloaded⟩

end Snapshot

end TeachPendant
