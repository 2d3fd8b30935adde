import TeachPendant.Proofs.Document.TomlTree
import TeachPendant.Proofs.Document.TomlValue

namespace TeachPendant

namespace TomlReader

variable {c : Char} {rest : List Char} {d : Document}

/-- A name that needs no quotes. -/
def Bare (name : String) : Prop := name ≠ "" ∧ name.toList.all isBareKey

instance (name : String) : Decidable (Bare name) := inferInstanceAs (Decidable (_ ∧ _))

theorem Bare.forall_mem {name : String} (h : Bare name) : ∀ c ∈ name.toList, isBareKey c = true :=
  List.all_eq_true.mp h.2

theorem Bare.exists_toList_eq_cons {name : String} (h : Bare name) :
    ∃ c cs, name.toList = c :: cs ∧ isBareKey c = true := by
  have hne : name.toList ≠ [] := fun heq => h.1 (String.toList_eq_nil_iff.mp heq)
  obtain ⟨c, cs, hcs⟩ := List.exists_cons_of_ne_nil hne
  exact ⟨c, cs, hcs, h.forall_mem c (by rw [hcs]; exact List.mem_cons_self)⟩

theorem keyPart_bare {name : String} (h : Bare name) (hrest : ∀ c ∈ rest.head?, isBareKey c = false) :
    keyPart (name.toList ++ rest) = some (name, rest) := by
  have hstop : rest.takeWhile isBareKey = [] ∧ rest.dropWhile isBareKey = rest := by
    cases rest with
    | nil => exact ⟨rfl, rfl⟩
    | cons c cs =>
      have hc : isBareKey c = false := hrest c rfl
      simp [hc]
  have htake : (name.toList ++ rest).takeWhile isBareKey = name.toList := by
    rw [List.takeWhile_append_of_pos h.forall_mem, hstop.1, List.append_nil]
  have hdrop : (name.toList ++ rest).dropWhile isBareKey = rest := by
    rw [List.dropWhile_append_of_pos h.forall_mem, hstop.2]
  obtain ⟨c, cs, hcs, hc⟩ := h.exists_toList_eq_cons
  have hname : String.ofList (c :: cs) = name := by rw [← hcs, String.ofList_toList]
  rw [hcs] at htake hdrop ⊢
  rw [keyPart]
  · rw [htake, hdrop, ← hname]
  · rintro cs' heq
    rw [(List.cons_eq_cons.mp heq).1] at hc
    cases hc
  · rintro cs' heq
    rw [(List.cons_eq_cons.mp heq).1] at hc
    cases hc

theorem skipBlanks_of_head (h : isBlank c = false) (cs : List Char) : skipBlanks (c :: cs) = c :: cs := by
  rw [skipBlanks, List.dropWhile_cons_of_neg (by simpa using h)]

theorem skipBlanks_leaf (h : Leaf d) (rest : List Char) :
    skipBlanks (TomlText.leaf d ++ rest) = TomlText.leaf d ++ rest := by
  obtain ⟨c, cs, hcs, hc⟩ := h.exists_eq_cons
  rw [hcs, List.cons_append, skipBlanks_of_head hc]

/-- Characters at which neither blanks, nor a comment, nor the end of a line begins. -/
def Starts (c : Char) : Prop := isBlank c = false ∧ c ≠ '#' ∧ c ≠ '\n' ∧ c ≠ '\r'

instance (c : Char) : Decidable (Starts c) := inferInstanceAs (Decidable (_ ∧ _))

theorem starts_of_isBareKey (h : isBareKey c = true) : Starts c := by
  refine ⟨?_, ?_, ?_, ?_⟩
  · rw [← Bool.not_eq_true]
    intro hblank
    simp only [isBlank, Bool.or_eq_true, beq_iff_eq] at hblank
    obtain rfl | rfl := hblank <;> cases h
  all_goals
    rintro rfl
    cases h

theorem skipLines_of_starts (h : Starts c) (fuel : ℕ) (cs : List Char) :
    skipLines fuel (c :: cs) = c :: cs := by
  obtain ⟨hblank, hcomment, hbreak, hreturn⟩ := h
  have hskip : skipComment (skipBlanks (c :: cs)) = c :: cs := by
    rw [skipBlanks_of_head hblank, skipComment]
    exact fun _ heq => hcomment (List.cons_eq_cons.mp heq).1
  have hline : lineBreak? (c :: cs) = none :=
    TomlText.lineBreak?_eq_none (by rintro d hd; cases hd; exact ⟨hbreak, hreturn⟩)
  cases fuel with
  | zero => rfl
  | succ fuel => simp only [skipLines, hskip, hline]

/-- A bare name alone makes a key. -/
theorem key_bare {name : String} (h : Bare name) (hrest : ∀ c ∈ rest.head?, isBareKey c = false)
    (hdot : (skipBlanks rest).head? ≠ some '.') (fuel : ℕ) :
    key (fuel + 1) (name.toList ++ rest) = some ([name], skipBlanks rest) := by
  have hpart := keyPart_bare h hrest
  obtain ⟨c, cs, hcs, hc⟩ := h.exists_toList_eq_cons
  rw [hcs] at hpart ⊢
  have hskip : skipBlanks (c :: cs ++ rest) = c :: cs ++ rest :=
    skipBlanks_of_head (starts_of_isBareKey hc).1 _
  simp only [key, hskip, hpart, Option.bind_eq_bind, Option.bind_some]
  split
  · next heq => rw [heq] at hdot; exact absurd rfl hdot
  · rfl

variable {header : List String} {done done' : TomlFields} {name : String}

/-- One more header; an empty line may stand before it. -/
theorem lines_header (h : Bare name) (hdone : done.declare [name] = some done') {blank : List Char}
    (hblank : blank = [] ∨ blank = ['\n']) (header : List String) (fuel : ℕ) (rest : List Char) :
    lines (fuel + 1) header done (blank ++ '[' :: (name.toList ++ ']' :: '\n' :: rest)) =
      lines fuel [name] done' rest := by
  have hstarts (k : ℕ) (cs : List Char) : skipLines k ('[' :: cs) = '[' :: cs :=
    skipLines_of_starts (by decide) k cs
  have hskip : skipLines (blank ++ '[' :: (name.toList ++ ']' :: '\n' :: rest)).length
      (blank ++ '[' :: (name.toList ++ ']' :: '\n' :: rest)) =
        '[' :: (name.toList ++ ']' :: '\n' :: rest) := by
    obtain rfl | rfl := hblank
    · exact hstarts _ _
    · exact hstarts _ _
  have hkey (k : ℕ) : key (k + 1) (name.toList ++ ']' :: '\n' :: rest) =
      some ([name], ']' :: '\n' :: rest) := key_bare h (by simp; decide) (by simp [skipBlanks, isBlank]) k
  obtain ⟨c, cs, hcs, hc⟩ := h.exists_toList_eq_cons
  have hbracket : c ≠ '[' := by
    rintro rfl
    cases hc
  have hexpect : expect ']' (']' :: '\n' :: rest) = some ('\n' :: rest) := rfl
  have hend : endOfLine ('\n' :: rest) = some rest := rfl
  rw [hcs] at hskip hkey ⊢
  rw [lines, hskip]
  split
  · next heq => cases heq
  · next heq => exact absurd (List.cons_eq_cons.mp (List.cons_eq_cons.mp heq).2).1 hbracket
  · next heq =>
    cases heq
    simp only [hkey, hexpect, hend, hdone, Option.bind_eq_bind, Option.bind_some]
  · next _ hne => exact absurd rfl (hne _)

/-- One more field. -/
theorem lines_field (h : Bare name) (hd : Leaf d) (hdone : done.assignIn header [name] (.value d) = some done')
    (fuel : ℕ) (rest : List Char) : lines (fuel + 1) header done (TomlText.field (name, d) ++ rest) =
      lines fuel header done' rest := by
  have hfield : TomlText.field (name, d) ++ rest =
      name.toList ++ ' ' :: '=' :: ' ' :: (TomlText.leaf d ++ '\n' :: rest) := by
    simp [TomlText.field]
  have hkey (k : ℕ) : key (k + 1) (name.toList ++ ' ' :: '=' :: ' ' :: (TomlText.leaf d ++ '\n' :: rest)) =
      some ([name], '=' :: ' ' :: (TomlText.leaf d ++ '\n' :: rest)) :=
    key_bare h (by simp; decide) (by simp [skipBlanks, isBlank]) k
  have hexpect : expect '=' ('=' :: ' ' :: (TomlText.leaf d ++ '\n' :: rest)) =
      some (' ' :: (TomlText.leaf d ++ '\n' :: rest)) := rfl
  have hend : endOfLine ('\n' :: rest) = some rest := rfl
  have hvalue (k : ℕ) : value (k + 1) nestingLimit (skipBlanks (' ' :: (TomlText.leaf d ++ '\n' :: rest))) =
      some (.value d, '\n' :: rest) := by
    rw [skipBlanks, List.dropWhile_cons_of_pos rfl]
    exact (congrArg _ (skipBlanks_leaf hd _)).trans (value_leaf hd k _ rest)
  obtain ⟨c, cs, hcs, hc⟩ := h.exists_toList_eq_cons
  have hskip (k : ℕ) (more : List Char) : skipLines k (c :: more) = c :: more :=
    skipLines_of_starts (starts_of_isBareKey hc) k more
  have hbracket : c ≠ '[' := by
    rintro rfl
    cases hc
  rw [hcs] at hkey
  rw [hfield, hcs, List.cons_append, lines, hskip]
  split
  · next heq => cases heq
  · next heq => exact absurd (List.cons_eq_cons.mp heq).1 hbracket
  · next heq => exact absurd (List.cons_eq_cons.mp heq).1 hbracket
  · rw [List.cons_append] at hkey
    simp only [hkey, hexpect, hvalue, hend, hdone, Option.bind_eq_bind, Option.bind_some]

/-- The fields of a table as they are kept while the document is read. -/
def leaves (fs : List (String × Document)) : TomlFields := fs.map fun f => (f.1, .value f.2)

/-- What is kept of whole tables. -/
def kept (tables : List (String × List (String × Document))) : TomlFields :=
  tables.map fun t => (t.1, .table .declared (leaves t.2))

theorem lines_fields {fs : List (String × Document)} (hfields : ∀ f ∈ fs, Bare f.1 ∧ Leaf f.2)
    (before : List (String × Document)) (hkeys : ((before ++ fs).map (·.1)).Nodup)
    (hname : name ∉ done.map (·.1)) (fuel : ℕ) (rest : List Char) :
    lines (fs.length + fuel) [name] (done ++ [(name, .table .declared (leaves before))])
        (fs.flatMap TomlText.field ++ rest) =
      lines fuel [name] (done ++ [(name, .table .declared (leaves (before ++ fs)))]) rest := by
  induction fs generalizing before with
  | nil => rw [List.length_nil, Nat.zero_add, List.append_nil]; rfl
  | cons f fs ih =>
    obtain ⟨⟨hbare, hleaf⟩, hfs⟩ := List.forall_mem_cons.mp hfields
    have hkey : f.1 ∉ (leaves before).map (·.1) := by
      rw [leaves, List.map_map]
      rw [List.map_append, List.map_cons, List.nodup_middle, List.nodup_cons] at hkeys
      exact fun hmem => hkeys.1 (List.mem_append_left _ hmem)
    have hdone := TomlFields.assignIn_last hname hkey f.2
    have hkeys' : ((before ++ [f] ++ fs).map (·.1)).Nodup := by
      rwa [List.append_assoc, List.singleton_append]
    have hrest := ih hfs (before ++ [f]) hkeys'
    rw [leaves, List.map_append, List.map_singleton, List.append_assoc, List.singleton_append] at hrest
    rw [List.length_cons, Nat.succ_add_eq_add_succ, List.flatMap_cons, List.append_assoc]
    exact (lines_field hbare hleaf hdone _ _).trans hrest

/-- Tables that are written so that they can be read back. -/
structure Written (tables : List (String × List (String × Document))) : Prop where
  names : (tables.map (·.1)).Nodup
  bare : ∀ t ∈ tables, Bare t.1
  keys : ∀ t ∈ tables, (t.2.map (·.1)).Nodup
  fields : ∀ t ∈ tables, ∀ f ∈ t.2, Bare f.1 ∧ Leaf f.2

variable {t : String × List (String × Document)} {tables before : List (String × List (String × Document))}

theorem Written.tail (h : Written (t :: tables)) : Written tables where
  names := (List.nodup_cons.mp h.names).2
  bare u hu := h.bare u (.tail _ hu)
  keys u hu := h.keys u (.tail _ hu)
  fields u hu := h.fields u (.tail _ hu)

theorem lines_table (h : Written (t :: tables)) (hname : t.1 ∉ before.map (·.1)) {blank : List Char}
    (hblank : blank = [] ∨ blank = ['\n']) (header : List String) (fuel : ℕ) (rest : List Char) :
    lines (t.2.length + 1 + fuel) header (kept before) (blank ++ (TomlText.table t ++ rest)) =
      lines fuel [t.1] (kept (before ++ [t])) rest := by
  have hnew : t.1 ∉ (kept before).map (·.1) := by
    rwa [kept, List.map_map]
  have htext : TomlText.table t ++ rest =
      '[' :: (t.1.toList ++ ']' :: '\n' :: (t.2.flatMap TomlText.field ++ rest)) := by
    simp [TomlText.table]
  have hheader := lines_header (h.bare t List.mem_cons_self) (TomlFields.declare_new hnew) hblank header
    (t.2.length + fuel) (t.2.flatMap TomlText.field ++ rest)
  have hfields := lines_fields (h.fields t List.mem_cons_self) [] (h.keys t List.mem_cons_self) hnew
    fuel rest
  have hkept : kept (before ++ [t]) = kept before ++ [(t.1, .table .declared (leaves t.2))] :=
    List.map_append
  rw [htext, Nat.add_right_comm, hkept]
  exact hheader.trans hfields

theorem lines_tables (h : Written tables) (hnames : ((before ++ tables).map (·.1)).Nodup)
    (header : List String) (fuel : ℕ) :
    lines ((tables.map fun t => t.2.length + 1).sum + (fuel + 1)) header (kept before)
        (tables.flatMap fun t => '\n' :: TomlText.table t) = some (kept (before ++ tables)) := by
  induction tables generalizing before header with
  | nil => rw [List.append_nil]; rfl
  | cons t tables ih =>
    have hname : t.1 ∉ before.map (·.1) := by
      rw [List.map_append, List.map_cons, List.nodup_middle, List.nodup_cons] at hnames
      exact fun hmem => hnames.1 (List.mem_append_left _ hmem)
    have hnames' : ((before ++ [t] ++ tables).map (·.1)).Nodup := by
      rwa [List.append_assoc, List.singleton_append]
    have hrest := ih h.tail hnames' [t.1]
    rw [List.append_assoc, List.singleton_append] at hrest
    rw [List.map_cons, List.sum_cons, Nat.add_assoc, List.flatMap_cons]
    exact (lines_table h hname (.inr rfl) _ _ _).trans hrest

/-- Between any two tables there is an empty line. -/
theorem toList_write (t : String × List (String × Document))
    (tables : List (String × List (String × Document))) : (TomlText.write (t :: tables)).toList =
      TomlText.table t ++ tables.flatMap fun t => '\n' :: TomlText.table t := by
  rw [TomlText.write, String.toList_ofList, List.map_cons]
  induction tables generalizing t with
  | nil => simp
  | cons u tables ih =>
    rw [List.map_cons, List.intercalate_cons_cons, ih, List.flatMap_cons]
    simp

theorem length_lt_length_table (t : String × List (String × Document)) :
    t.2.length < (TomlText.table t).length := by
  have hfields : t.2.length ≤ (t.2.flatMap TomlText.field).length := by
    induction t.2 with
    | nil => exact Nat.le_refl 0
    | cons f fs ih =>
      have hfield : 0 < (TomlText.field f).length := by
        rw [TomlText.field, List.length_append]
        exact Nat.succ_pos _
      rw [List.flatMap_cons, List.length_append, List.length_cons]
      omega
  simp only [TomlText.table, List.length_append, List.length_cons]
  omega

theorem sum_le_length (tables : List (String × List (String × Document))) :
    (tables.map fun t => t.2.length + 1).sum ≤
      (tables.flatMap fun t => '\n' :: TomlText.table t).length := by
  induction tables with
  | nil => exact Nat.le_refl 0
  | cons t tables ih =>
    have ht := length_lt_length_table t
    rw [List.map_cons, List.sum_cons, List.flatMap_cons, List.length_append, List.length_cons]
    omega

theorem toDocument_leaves (fs : List (String × Document)) :
    (leaves fs).toDocument = .object fs := by
  rw [TomlFields.toDocument, tomlFieldDocuments_eq, leaves, List.map_map]
  rfl

theorem toDocument_kept (tables : List (String × List (String × Document))) :
    (kept tables).toDocument = .object (tables.map fun t => (t.1, .object t.2)) := by
  rw [TomlFields.toDocument, tomlFieldDocuments_eq, kept, List.map_map, Document.object, List.map_map]
  exact congrArg Document.record (List.map_congr_left fun t _ =>
    congrArg (Prod.mk (Key.text t.1)) (toDocument_leaves t.2))

/-- Tables are read back from their text. -/
theorem read?_write (h : Written tables) : read? (TomlText.write tables) =
    some (.object (tables.map fun t => (t.1, .object t.2))) := by
  rw [← toDocument_kept]
  cases tables with
  | nil => rfl
  | cons t tables =>
    have htext := toList_write t tables
    have hfuel : t.2.length + 1 + ((tables.map fun t => t.2.length + 1).sum + 1) ≤
        (TomlText.write (t :: tables)).toList.length + 1 := by
      have hlength := length_lt_length_table t
      have hlengths := sum_le_length tables
      rw [htext, List.length_append]
      omega
    obtain ⟨fuel, hfuel⟩ := Nat.exists_eq_add_of_le hfuel
    have hsteps : (TomlText.write (t :: tables)).toList.length + 1 =
        t.2.length + 1 + ((tables.map fun t => t.2.length + 1).sum + (fuel + 1)) := by omega
    have hlines : lines ((TomlText.write (t :: tables)).toList.length + 1) [] []
        (TomlText.write (t :: tables)).toList = some (kept (t :: tables)) := by
      have hnames : (([t] ++ tables).map (·.1)).Nodup := h.names
      have hnew : t.1 ∉ ([] : List (String × List (String × Document))).map (·.1) := List.not_mem_nil
      rw [hsteps, htext]
      exact (lines_table h hnew (.inl rfl) [] _ _).trans (lines_tables h.tail hnames [t.1] fuel)
    rw [read?]
    split
    · next heq =>
      rw [htext] at heq
      cases heq
    · rw [hlines]
      rfl

end TomlReader

end TeachPendant
