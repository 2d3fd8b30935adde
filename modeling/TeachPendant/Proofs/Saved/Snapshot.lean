import TeachPendant.Proofs.Linking.SameButLinks
import TeachPendant.Proofs.Saved.Program

namespace TeachPendant

open Number Document

namespace Program

theorem renumberFrom_map (f : Instruction → Instruction) (g : Line → Nat) (n : Nat)
    (lines : List Line) :
    renumberFrom n (lines.map fun l => ⟨g l, f l.instruction⟩) =
      (renumberFrom n lines).map fun l => { l with instruction := f l.instruction } := by
  induction lines generalizing n with
  | nil => rfl
  | cons l lines ih => rw [List.map_cons, renumberFrom, renumberFrom, List.map_cons, ih]

theorem map_instruction_renumberFrom (n : Nat) (lines : List Line) :
    (renumberFrom n lines).map (·.instruction) = lines.map (·.instruction) := by
  induction lines generalizing n with
  | nil => rfl
  | cons l lines ih => rw [renumberFrom, List.map_cons, List.map_cons, ih]

theorem map_id_renumberFrom (n : Nat) (lines : List Line) :
    (renumberFrom n lines).map (·.id) = List.range' n lines.length := by
  induction lines generalizing n with
  | nil => rfl
  | cons l lines ih => rw [renumberFrom, List.map_cons, ih, List.length_cons, List.range'_succ]

/-- The lines stand under the identities 1, 2, ... in order, and new ones get the next. -/
def Numbered (p : Program) : Prop :=
  p.lines.map (·.id) = List.range' 1 p.length ∧ p.nextId = p.length + 1

theorem renumber_kept (p : Program) : p.kept.renumber = p.renumber.mapCalls .unlinked := by
  have h := renumberFrom_map (Instruction.mapCalls .unlinked) (fun _ => 0) 1 p.lines
  simp only [renumber, kept, mapCalls, length, h, List.length_map]

theorem numbered_renumber (p : Program) : p.renumber.Numbered := by
  have h := map_id_renumberFrom 1 p.lines
  have hl := congrArg List.length h
  rw [List.length_map, List.length_range'] at hl
  refine ⟨?_, ?_⟩
  · simp only [renumber, length, h, hl]
  · simp only [renumber, length, hl]

theorem Numbered.mapCalls {p : Program} (h : p.Numbered) (f : CallTarget → CallTarget) :
    (p.mapCalls f).Numbered := by
  simpa [Numbered, Program.mapCalls, length, Function.comp_def] using h

/-- Numbering the lines and changing nothing in calls but their links leaves the text as it is. -/
theorem sameText_renumber {f : CallTarget → CallTarget} (hf : ∀ t, (f t).unlinked = t.unlinked)
    (p : Program) : p.SameText (p.renumber.mapCalls f) where
  name_eq := rfl
  positions_eq := rfl
  lines := by
    have hmap : (p.renumber.mapCalls f).lines.map (·.instruction) =
        (p.lines.map (·.instruction)).map (·.mapCalls f) := by
      rw [← map_instruction_renumberFrom 1 p.lines, List.map_map, mapCalls, List.map_map]
      rfl
    have htext : List.Forall₂ Instruction.SameButLinks (p.lines.map (·.instruction))
        ((p.renumber.mapCalls f).lines.map (·.instruction)) := by
      rw [hmap, List.forall₂_map_right_iff, List.forall₂_same]
      exact fun i _ => i.sameButLinks_mapCalls hf
    rwa [List.forall₂_map_left_iff, List.forall₂_map_right_iff] at htext

end Program

namespace Snapshot

variable {s : Snapshot} {form : Form} {depth : Nat}

/-- A snapshot without what is not saved. -/
def kept (s : Snapshot) : Snapshot := { s with libraries := s.libraries.map Library.kept }

/-- Versions are kept in 32 bits and positions by their slots. A notation has its own bounds on
lengths and on nesting. -/
structure Storable (s : Snapshot) : Prop where
  version : s.version < 2 ^ 32
  ascending : ∀ l ∈ s.libraries, ∀ p ∈ l.programs, p.positions.Ascending
  short : s.toDocument.short = true
  shallow : s.toDocument.holds Form.messagePack.depth = true

/-- What is read of a saved cell is the cell without what is not saved, unless a number was lost. -/
theorem ofDocument?_image (w : Passage) (hv : s.version < 2 ^ 32)
    (ha : ∀ l ∈ s.libraries, ∀ p ∈ l.programs, p.positions.Ascending)
    (h : s.toDocument.holds depth = true) :
    ofDocument? form depth (w.image s.toDocument) = w.pass s.numbers s.kept := by
  obtain ⟨n, rfl, hf⟩ := holds_object.mp h
  simp only [List.forall_mem_cons] at hf
  obtain ⟨-, hr, hl, -⟩ := hf
  have hls : listOf? (Saved.library? form) n
      (w.image (.list (s.libraries.map Library.toDocument))) =
        w.pass (s.libraries.flatMap Library.numbers) (s.libraries.map Library.kept) :=
    w.listOf?_image hl fun l hm m hd => Saved.library?_image (ha l hm) hd
  rw [ofDocument?, toDocument, w.fields?_object (by simp)]
  simp [List.lookup_cons, -Nat.reducePow, natural?_natural hv, Saved.registerBank?_image hr, hls,
    kept, numbers]

theorem ofDocument?_toDocument (hv : s.version < 2 ^ 32)
    (ha : ∀ l ∈ s.libraries, ∀ p ∈ l.programs, p.positions.Ascending)
    (h : s.toDocument.holds depth = true) : ofDocument? form depth s.toDocument = some s.kept := by
  have hi : ofDocument? form depth (Passage.unchanged.image s.toDocument) = _ :=
    ofDocument?_image .unchanged hv ha h
  rwa [Passage.pass_unchanged] at hi

theorem plain_toDocument (hv : s.version < 2 ^ 32) : s.toDocument.Plain := by
  have hn : (natural s.version).Plain := plain_natural (Nat.lt_trans hv (by decide))
  simp [toDocument, hn]

/-- The cells are the same but for what lines are known by and calls linked to. -/
structure SameText (s t : Snapshot) : Prop where
  version_eq : s.version = t.version
  registers_eq : s.registers = t.registers
  libraries : List.Forall₂ Library.SameText s.libraries t.libraries

/-- What loading makes of a saved cell: its lines are numbered, its calls have the links that
linking gives them, and for the rest nothing has changed. -/
structure Restored (s loaded : Snapshot) : Prop where
  text : s.SameText loaded
  numbered : ∀ l ∈ loaded.libraries, ∀ p ∈ l.programs, p.Numbered
  linked : (linkCalls loaded.libraries).1 = loaded.libraries

theorem renumber_kept (s : Snapshot) :
    s.kept.renumber.libraries = s.renumber.libraries.map (·.mapCalls .unlinked) := by
  simp [kept, renumber, Library.kept, Library.mapCalls, Program.renumber_kept]

theorem link_renumber_kept (s : Snapshot) : s.kept.renumber.link = s.renumber.link := by
  have hl : linkCalls s.kept.renumber.libraries = linkCalls s.renumber.libraries := by
    rw [renumber_kept]
    exact linkCalls_mapCalls (f := .unlinked) (fun _ => rfl) _
  rw [link, link, hl]
  rfl

theorem restored_link (s : Snapshot) : s.Restored s.renumber.link.1 where
  text := by
    have hp (p : Program) :
        p.SameText (p.renumber.mapCalls (Linking.linkTarget s.renumber.libraries)) :=
      p.sameText_renumber (f := Linking.linkTarget s.renumber.libraries) fun _ => rfl
    have hl (l : Library) : l.SameText (Library.mapCalls ⟨l.programs.map Program.renumber⟩
        (Linking.linkTarget s.renumber.libraries)) := by
      rw [Library.SameText, Library.mapCalls, List.map_map, List.forall₂_map_right_iff]
      exact List.forall₂_same.mpr fun p _ => hp p
    refine ⟨rfl, rfl, ?_⟩
    rw [link, linkCalls, renumber, List.map_map, List.forall₂_map_right_iff]
    exact List.forall₂_same.mpr fun l _ => hl l
  numbered := by
    intro l hl p hp
    obtain ⟨m, hm, rfl⟩ := List.mem_map.mp hl
    obtain ⟨k, -, rfl⟩ := List.mem_map.mp hm
    obtain ⟨q, hq, rfl⟩ := List.mem_map.mp hp
    obtain ⟨r, -, rfl⟩ := List.mem_map.mp hq
    exact r.numbered_renumber.mapCalls _
  linked := congrArg Prod.fst (linkCalls_linkCalls s.renumber.libraries)

theorem finish_kept (s : Snapshot) : s.kept.finish = s.finish := by
  have hv : s.kept.version = s.version := rfl
  rw [finish, finish, link_renumber_kept, hv]

theorem exists_finish (hv : s.version = formatVersion) : ∃ loaded, s.Restored loaded ∧
    s.finish = .ok (loaded, Cell.warnings (linkCalls loaded.libraries).2) := by
  have hw : (linkCalls s.renumber.link.1.libraries).2 = s.renumber.link.2 :=
    congrArg Prod.snd (linkCalls_linkCalls s.renumber.libraries)
  exact ⟨s.renumber.link.1, s.restored_link, by rw [finish, if_neg (not_not_intro hv), hw]⟩

namespace Storable

variable (h : s.Storable)
include h

theorem ofMessagePack_append (extra : List UInt8) :
    ofMessagePack (s.toMessagePack ++ extra) = s.finish := by
  have hp := plain_toDocument h.version
  have hr : MessagePack.read? (s.toMessagePack ++ extra) = some s.toDocument :=
    MessagePack.read?_write hp h.short extra
  have hl := (MessagePack.readBack hp h.short).length_pos
  have he : (s.toMessagePack ++ extra).isEmpty = false := by
    rw [List.isEmpty_eq_false_iff, ← List.length_pos_iff, List.length_append]
    exact Nat.lt_of_lt_of_le hl (Nat.le_add_right _ _)
  rw [ofMessagePack, he, if_neg Bool.false_ne_true, hr, Option.bind_some,
    ofDocument?_toDocument h.version h.ascending h.shallow]
  exact s.finish_kept

theorem ofMessagePack_prefix {bytes cut : List UInt8} (hb : bytes ++ cut = s.toMessagePack)
    (hc : cut ≠ []) : ∃ reason, ofMessagePack bytes = .error (.storage (.other reason)) := by
  have hr := MessagePack.read?_prefix (plain_toDocument h.version) h.short hb hc
  rw [ofMessagePack, hr]
  split
  · exact ⟨_, rfl⟩
  · exact ⟨_, rfl⟩

end Storable

/-- Saving and loading loses nothing. Bytes that follow are ignored, and what was saved in another
version or is cut short does not load. -/
theorem ofMessagePack_toMessagePack {s : Snapshot} (h : s.Storable) :
    (s.version = formatVersion → ∃ loaded, s.Restored loaded ∧ ∀ extra,
      ofMessagePack (s.toMessagePack ++ extra) =
        .ok (loaded, Cell.warnings (linkCalls loaded.libraries).2)) ∧
    (s.version ≠ formatVersion → ∀ extra,
      ofMessagePack (s.toMessagePack ++ extra) = .error (.storage (.unsupportedVersion s.version))) ∧
    ∀ bytes cut, bytes ++ cut = s.toMessagePack → cut ≠ [] →
      ∃ reason, ofMessagePack bytes = .error (.storage (.other reason)) := by
  refine ⟨fun hv => ?_, fun hv extra => ?_, fun bytes cut hb hc => h.ofMessagePack_prefix hb hc⟩
  · have hw : (linkCalls s.renumber.link.1.libraries).2 = s.renumber.link.2 :=
      congrArg Prod.snd (linkCalls_linkCalls s.renumber.libraries)
    refine ⟨s.renumber.link.1, s.restored_link, fun extra => ?_⟩
    rw [h.ofMessagePack_append, finish, if_neg (not_not_intro hv), hw]
  · rw [h.ofMessagePack_append, finish, if_pos hv]

/-- Numbers that are none, a call that was linked elsewhere, lines out of order and a nested
expression. -/
def archived : Snapshot where
  registers := {
    data := [{ value := .nan, comment := "gap" }, { value := .infinite true }]
    io := [{ value := true }]
    positions := [{ value := .origin, comment := "home" }] }
  libraries := [⟨[
    { name := "MAIN"
      lines := [
        ⟨7, .ofAction (.call { program := "WORK", device := 0, link := some ⟨1, 5⟩ })⟩,
        ⟨3, .mk (.ifThen (.tree (.data 18446744073709551615) .lt
          (.nested (.sequence [.operand (.number .nan)]))) (.ofAction (.jump 9))) true⟩]
      positions := ⟨[(4, .origin), (9, .origin)], 0⟩ },
    { name := "WORK" }]⟩, ⟨[]⟩]

theorem ofMessagePack_archived :
    archived.Storable ∧ ∃ loaded, archived.Restored loaded ∧ ∀ extra,
      ofMessagePack (archived.toMessagePack ++ extra) =
        .ok (loaded, Cell.warnings (linkCalls loaded.libraries).2) := by
  have h : archived.Storable := ⟨by decide, by decide, by decide +kernel, by decide +kernel⟩
  exact ⟨h, (ofMessagePack_toMessagePack h).1 rfl⟩

end Snapshot

end TeachPendant
