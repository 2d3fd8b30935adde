import TeachPendant.Document.TomlTree

namespace TeachPendant

theorem tomlFieldDocuments_eq (fields : TomlFields) :
    tomlFieldDocuments fields = fields.map fun f => (.text f.1, f.2.toDocument) := by
  induction fields with
  | nil => rfl
  | cons f fields ih => exact congrArg (List.cons _) ih

theorem tomlItemDocuments_eq (items : List TomlFields) :
    tomlItemDocuments items = items.map TomlFields.toDocument := by
  induction items with
  | nil => rfl
  | cons fields items ih => exact congrArg (List.cons _) ih

namespace TomlFields

variable {done inner : TomlFields} {name key : String} {e e' : TomlEntry}

theorem lookup_eq_none (h : key ∉ done.map (·.1)) : done.lookup key = none := by
  rw [List.lookup_eq_none_iff]
  intro f hf
  exact bne_iff_ne.mpr fun heq => h (List.mem_map.mpr ⟨f, hf, heq.symm⟩)

theorem lookup_last (h : key ∉ done.map (·.1)) : (done ++ [(key, e)]).lookup key = some e := by
  rw [List.lookup_append, lookup_eq_none h, Option.none_or, List.lookup_cons_self]

theorem put_new (h : key ∉ done.map (·.1)) : done.put key e = done ++ [(key, e)] := by
  induction done with
  | nil => rfl
  | cons f done ih =>
    rw [List.map_cons, List.mem_cons, not_or] at h
    rw [put, if_neg (Ne.symm h.1), ih h.2, List.cons_append]

theorem put_last (h : key ∉ done.map (·.1)) : (done ++ [(key, e)]).put key e' = done ++ [(key, e')] := by
  induction done with
  | nil => exact if_pos rfl
  | cons f done ih =>
    rw [List.map_cons, List.mem_cons, not_or] at h
    rw [List.cons_append, put, if_neg (Ne.symm h.1), ih h.2, List.cons_append]

theorem declare_new (h : name ∉ done.map (·.1)) :
    done.declare [name] = some (done ++ [(name, .table .declared [])]) := by
  simp only [declare, List.getLast?_singleton, List.dropLast_singleton, walk, lookup_eq_none h, put_new h]

theorem assignIn_last (h : name ∉ done.map (·.1)) (hkey : key ∉ inner.map (·.1)) (d : Document) :
    assignIn (done ++ [(name, .table .declared inner)]) [name] [key] (.value d) =
      some (done ++ [(name, .table .declared (inner ++ [(key, .value d)]))]) := by
  have hassign : assign inner [key] (.value d) = some (inner ++ [(key, .value d)]) := by
    simp only [assign, List.getLast?_singleton, List.dropLast_singleton, walk, lookup_eq_none hkey,
      put_new hkey]
    rfl
  simp only [assignIn, walk, lookup_last h, hassign]
  exact congrArg some (put_last h)

end TomlFields

end TeachPendant
