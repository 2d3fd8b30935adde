import Mathlib.Tactic.SplitIfs
import TeachPendant.Document.TomlReader
import TeachPendant.Proofs.Document.TomlTree

namespace TeachPendant

/-- Documents in which every whole number has 64 bits and a sign. -/
inductive Document.Long : Document → Prop
  | null : Long .null
  | bool (b : Bool) : Long (.bool b)
  | integer {z : Int} (least : -2 ^ 63 ≤ z) (greatest : z < 2 ^ 63) : Long (.integer z)
  | single (x : Number.Single) : Long (.single x)
  | double (x : Number.Double) : Long (.double x)
  | text (s : String) : Long (.text s)
  | bytes (bs : List UInt8) : Long (.bytes bs)
  | unreadable : Long .unreadable
  | list {items : List Document} (each : ∀ d ∈ items, Long d) : Long (.list items)
  | record {fields : List (Key × Document)} (each : ∀ f ∈ fields, Long f.2) : Long (.record fields)

open Document (Long)

/-- Tables in which every whole number has 64 bits and a sign. -/
def TomlFields.Long (fields : TomlFields) : Prop := ∀ f ∈ fields, f.2.toDocument.Long

namespace TomlFields

variable {fields fields' inner : TomlFields} {items : List TomlFields} {key : String} {path : List String}
  {entry : TomlEntry} {origin : TableOrigin}

theorem long_toDocument : fields.toDocument.Long ↔ fields.Long := by
  rw [toDocument, tomlFieldDocuments_eq]
  constructor
  · rintro (_ | _ | _ | _ | _ | _ | _ | _ | _ | each) f hf
    exact each _ (List.mem_map_of_mem hf)
  · intro h
    refine .record fun f hf => ?_
    obtain ⟨g, hg, rfl⟩ := List.mem_map.mp hf
    exact h g hg

theorem long_table : (TomlEntry.table origin inner).toDocument.Long ↔ inner.Long := long_toDocument

theorem long_tables : (TomlEntry.tables items).toDocument.Long ↔ ∀ fields ∈ items, fields.Long := by
  rw [TomlEntry.toDocument, tomlItemDocuments_eq]
  constructor
  · rintro (_ | _ | _ | _ | _ | _ | _ | _ | each | _) fields hfields
    exact long_toDocument.mp (each _ (List.mem_map_of_mem hfields))
  · intro h
    refine .list fun d hd => ?_
    obtain ⟨fields, hfields, rfl⟩ := List.mem_map.mp hd
    exact long_toDocument.mpr (h fields hfields)

theorem long_nil : Long [] := nofun

theorem Long.put (h : fields.Long) (hentry : entry.toDocument.Long) (key : String) :
    Long (fields.put key entry) := by
  induction fields with
  | nil => exact List.forall_mem_singleton.mpr hentry
  | cons f fields ih =>
    obtain ⟨hf, hfields⟩ := List.forall_mem_cons.mp h
    rw [TomlFields.put]
    split
    · exact List.forall_mem_cons.mpr ⟨hentry, hfields⟩
    · exact List.forall_mem_cons.mpr ⟨hf, ih hfields⟩

theorem Long.lookup (h : fields.Long) (hkey : fields.lookup key = some entry) :
    entry.toDocument.Long := by
  induction fields with
  | nil => cases hkey
  | cons f fields ih =>
    obtain ⟨hf, hfields⟩ := List.forall_mem_cons.mp h
    rw [List.lookup_cons] at hkey
    split at hkey
    · cases hkey
      exact hf
    · exact ih hfields hkey

/-- An edit somewhere along a path. -/
theorem Long.walk {dotted : Bool} {edit : TableOrigin → TomlFields → Option TomlFields}
    (hedit : ∀ origin inner inner', inner.Long → edit origin inner = some inner' → inner'.Long)
    (h : fields.Long) (hwalk : TomlFields.walk dotted edit path origin fields = some fields') :
    fields'.Long := by
  induction path generalizing origin fields fields' with
  | nil => exact hedit _ _ _ h hwalk
  | cons key path ih =>
    rw [TomlFields.walk] at hwalk
    split at hwalk
    · obtain ⟨inner, hinner, rfl⟩ := Option.map_eq_some_iff.mp hwalk
      exact h.put (long_table.mpr (ih long_nil hinner)) key
    · cases hwalk
    · next hlookup =>
      split at hwalk
      · cases hwalk
      · obtain ⟨inner, hinner, rfl⟩ := Option.map_eq_some_iff.mp hwalk
        exact h.put (long_table.mpr (ih (long_table.mp (h.lookup hlookup)) hinner)) key
    · next items hlookup =>
      have hitems := long_tables.mp (h.lookup hlookup)
      split at hwalk
      · cases hwalk
      · next last hlast =>
        obtain ⟨inner, hinner, rfl⟩ := Option.map_eq_some_iff.mp hwalk
        have hlast := ih (hitems last (List.mem_of_getLast? hlast)) hinner
        refine h.put (long_tables.mpr ?_) key
        exact List.forall_mem_append.mpr ⟨fun f hf => hitems f ((List.dropLast_sublist items).mem hf),
          List.forall_mem_singleton.mpr hlast⟩

theorem Long.assign (h : fields.Long) (hentry : entry.toDocument.Long)
    (hassign : fields.assign path entry = some fields') : fields'.Long := by
  rw [TomlFields.assign] at hassign
  split at hassign
  · cases hassign
  · refine h.walk (fun origin inner inner' hinner hedit => ?_) hassign
    split at hedit
    · cases hedit
    · cases hedit
      exact hinner.put hentry _

theorem Long.assignIn {header : List String} (h : fields.Long) (hentry : entry.toDocument.Long)
    (hassign : fields.assignIn header path entry = some fields') : fields'.Long :=
  h.walk (fun _ _ _ hinner hedit => hinner.assign hentry hedit) hassign

theorem Long.declare (h : fields.Long) (hdeclare : fields.declare path = some fields') :
    fields'.Long := by
  rw [TomlFields.declare] at hdeclare
  split at hdeclare
  · cases hdeclare
  · refine h.walk (fun origin inner inner' hinner hedit => ?_) hdeclare
    split at hedit
    · cases hedit
      exact hinner.put (long_table.mpr long_nil) _
    · next hlookup =>
      cases hedit
      exact hinner.put (long_table.mpr (long_table.mp (hinner.lookup hlookup))) _
    · cases hedit

theorem Long.declareNext (h : fields.Long) (hdeclare : fields.declareNext path = some fields') :
    fields'.Long := by
  rw [TomlFields.declareNext] at hdeclare
  split at hdeclare
  · cases hdeclare
  · refine h.walk (fun origin inner inner' hinner hedit => ?_) hdeclare
    split at hedit
    · cases hedit
      exact hinner.put (long_tables.mpr (List.forall_mem_singleton.mpr long_nil)) _
    · next hlookup =>
      cases hedit
      exact hinner.put (long_tables.mpr (List.forall_mem_append.mpr
        ⟨long_tables.mp (hinner.lookup hlookup), List.forall_mem_singleton.mpr long_nil⟩)) _
    · cases hedit

end TomlFields

namespace TomlReader

variable {d : Document} {cs rest : List Char} {n : Nat}

theorem long_integerOf {negative : Bool} (h : integerOf negative n = some d) : d.Long := by
  rw [integerOf] at h
  split_ifs at h with hnegative hn hn
  · cases h
    exact .integer (by omega) (by omega)
  · cases h
    exact .integer (by omega) (by omega)

theorem long_based {base : Nat} (h : based base cs = some (d, rest)) : d.Long := by
  simp only [based, Option.bind_eq_bind, Option.bind_eq_some_iff] at h
  obtain ⟨⟨ds, rest'⟩, -, d', hd, heq⟩ := h
  cases heq
  exact long_integerOf hd

theorem long_numberOf {n : Number.Numeral} (h : numberOf n = some d) : d.Long := by
  rw [numberOf] at h
  split at h
  · exact long_integerOf h
  · split at h
    · cases h
      exact .double _
    · split_ifs at h
      cases h
      exact .double _

theorem long_decimal (h : decimal cs = some (d, rest)) : d.Long := by
  rw [decimal] at h
  split at h
  split at h
  · cases h
    exact .double _
  · cases h
    exact .double _
  · split at h
    all_goals
      simp only [Option.bind_eq_bind, Option.bind_eq_some_iff] at h
      obtain ⟨whole, -, fraction, -, exponent, -, d', hd, heq⟩ := h
      cases heq
      exact long_numberOf hd

theorem long_number (h : number cs = some (d, rest)) : d.Long := by
  unfold number at h
  split_ifs at h
  · obtain ⟨_, -, heq⟩ := Option.map_eq_some_iff.mp h
    cases heq
    exact .unreadable
  · obtain ⟨_, -, heq⟩ := Option.map_eq_some_iff.mp h
    cases heq
    exact .unreadable
  · split at h
    · exact long_based h
    · exact long_based h
    · exact long_based h
    · exact long_decimal h

variable {fuel depth : Nat} {entry : TomlEntry} {ds : List Document} {done done' : TomlFields}

/-- What holds of the values, the items and the fields that are read with some fuel. -/
structure ReadsLong (fuel : Nat) : Prop where
  value : ∀ {depth cs entry rest}, value fuel depth cs = some (entry, rest) → entry.toDocument.Long
  items : ∀ {depth cs ds rest}, items fuel depth cs = some (ds, rest) → ∀ d ∈ ds, d.Long
  fields : ∀ {depth done cs done' rest}, done.Long → fields fuel depth done cs = some (done', rest) →
    done'.Long

theorem long_value (ih : ReadsLong fuel) (h : value (fuel + 1) depth cs = some (entry, rest)) :
    entry.toDocument.Long := by
  unfold value at h
  split at h
  · cases h
  · cases h
    exact .bool true
  · cases h
    exact .bool false
  · split at h
    · cases h
    · obtain ⟨⟨ds, more⟩, hitems, heq⟩ := Option.map_eq_some_iff.mp h
      cases heq
      exact .list (ih.items hitems)
  · split at h
    · cases h
    · split at h
      · cases h
        exact .record nofun
      · obtain ⟨⟨fs, more⟩, hfields, heq⟩ := Option.map_eq_some_iff.mp h
        cases heq
        exact TomlFields.long_toDocument.mpr (ih.fields TomlFields.long_nil hfields)
  · split_ifs at h
    · obtain ⟨⟨s, more⟩, -, heq⟩ := Option.map_eq_some_iff.mp h
      cases heq
      exact .text s
    · obtain ⟨⟨d, more⟩, hnumber, heq⟩ := Option.map_eq_some_iff.mp h
      cases heq
      exact long_number hnumber

theorem long_items (ih : ReadsLong fuel) (h : items (fuel + 1) depth cs = some (ds, rest)) :
    ∀ d ∈ ds, d.Long := by
  unfold items at h
  split at h
  · cases h
    nofun
  · simp only [Option.bind_eq_bind, Option.bind_eq_some_iff] at h
    obtain ⟨⟨entry, more⟩, hvalue, h⟩ := h
    have hentry := ih.value hvalue
    dsimp only at h
    split at h
    · cases h
      exact List.forall_mem_singleton.mpr hentry
    · obtain ⟨⟨ds, last⟩, hds, heq⟩ := Option.bind_eq_some_iff.mp h
      cases heq
      exact List.forall_mem_cons.mpr ⟨hentry, ih.items hds⟩
    · cases h

theorem long_fields (ih : ReadsLong fuel) (hdone : done.Long)
    (h : fields (fuel + 1) depth done cs = some (done', rest)) : done'.Long := by
  simp only [fields, Option.bind_eq_bind, Option.bind_eq_some_iff] at h
  obtain ⟨⟨path, more⟩, -, more', -, ⟨entry, last⟩, hvalue, next, hassign, h⟩ := h
  have hnext := hdone.assign (ih.value hvalue) hassign
  dsimp only at h
  split at h
  · cases h
    exact hnext
  · exact ih.fields hnext h
  · cases h

theorem readsLong (fuel : Nat) : ReadsLong fuel := by
  induction fuel with
  | zero => exact ⟨nofun, nofun, nofun⟩
  | succ fuel ih => exact ⟨long_value ih, long_items ih, long_fields ih⟩

theorem long_lines {header : List String} (hdone : done.Long)
    (h : lines fuel header done cs = some done') : done'.Long := by
  induction fuel generalizing header done cs with
  | zero => cases h
  | succ fuel ih =>
    unfold lines at h
    split at h
    · cases h
      exact hdone
    · simp only [Option.bind_eq_bind, Option.bind_eq_some_iff] at h
      obtain ⟨_, -, _, -, _, -, _, -, next, hnext, h⟩ := h
      exact ih (hdone.declareNext hnext) h
    · simp only [Option.bind_eq_bind, Option.bind_eq_some_iff] at h
      obtain ⟨_, -, _, -, _, -, next, hnext, h⟩ := h
      exact ih (hdone.declare hnext) h
    · simp only [Option.bind_eq_bind, Option.bind_eq_some_iff] at h
      obtain ⟨_, -, _, -, _, hvalue, _, -, next, hnext, h⟩ := h
      exact ih (hdone.assignIn ((readsLong _).value hvalue) hnext) h

theorem long_read? {text : String} (h : read? text = some d) : d.Long := by
  obtain ⟨fields, hfields, rfl⟩ := Option.map_eq_some_iff.mp h
  exact TomlFields.long_toDocument.mpr (long_lines TomlFields.long_nil hfields)

end TomlReader

end TeachPendant
