import TeachPendant.Proofs.Document.JsonName
import TeachPendant.Proofs.Document.RoundTrip

namespace TeachPendant

open Number

namespace Document

mutual

/-- What comes back of a document that is written in JSON. -/
def reread : Document → Document
  | .null => .null
  | .bool b => .bool b
  | .integer z => .integer z
  | .single x => x.reread
  | .double x => x.reread
  | .text s => .text s
  | .bytes bs => .list (bs.map fun b => .natural b.toNat)
  | .unreadable => .null
  | .list items => .list (rereadItems items)
  | .record fields => .record (rereadFields fields)

def rereadItems : List Document → List Document
  | [] => []
  | d :: rest => d.reread :: rereadItems rest

def rereadFields : List (Key × Document) → List (Key × Document)
  | [] => []
  | (k, d) :: rest => (k.reread, d.reread) :: rereadFields rest

end

theorem reread_list (items : List Document) :
    (list items).reread = .list (items.map reread) := by
  have hi (ds : List Document) : rereadItems ds = ds.map reread := by
    induction ds with
    | nil => rfl
    | cons d ds ih => rw [rereadItems, ih, List.map_cons]
  rw [reread, hi]

theorem reread_record (fields : List (Key × Document)) :
    (record fields).reread = .record (fields.map fun f => (f.1.reread, f.2.reread)) := by
  have hf (fs : List (Key × Document)) :
      rereadFields fs = fs.map fun f => (f.1.reread, f.2.reread) := by
    induction fs with
    | nil => rfl
    | cons f fs ih => rw [rereadFields, ih, List.map_cons]
  rw [reread, hf]

end Document

namespace JsonText

open JsonReader

variable {b cs rest : List Char}

theorem skipBlanks_append (hb : ∀ c ∈ b, isBlank c = true) (cs : List Char) :
    skipBlanks (b ++ cs) = skipBlanks cs := List.dropWhile_append_of_pos hb

theorem isBlank_of_mem_lineBreak (l : Layout) : ∀ c ∈ l.lineBreak, isBlank c = true := by
  intro c hc
  cases l with
  | compact => cases hc
  | indented level =>
    rw [Layout.lineBreak, List.mem_cons] at hc
    obtain rfl | hc := hc
    · rfl
    · rw [List.eq_of_mem_replicate hc]
      rfl

theorem value_blanks (hb : ∀ c ∈ b, isBlank c = true) (fuel : ℕ) (cs : List Char) :
    value fuel (b ++ cs) = value fuel cs := by
  cases fuel with
  | zero => rw [value, value]
  | succ fuel => rw [value, value, skipBlanks_append hb]

theorem items_blanks (hb : ∀ c ∈ b, isBlank c = true) (fuel : ℕ) (cs : List Char) :
    items fuel (b ++ cs) = items fuel cs := by
  cases fuel with
  | zero => rw [items, items]
  | succ fuel => rw [items, items, value_blanks hb]

theorem fields_blanks (hb : ∀ c ∈ b, isBlank c = true) (fuel : ℕ) (cs : List Char) :
    fields fuel (b ++ cs) = fields fuel cs := by
  cases fuel with
  | zero => rw [fields, fields]
  | succ fuel => rw [fields, fields, skipBlanks_append hb]

theorem ends_nil : Ends [] := nofun

theorem ends_cons {c : Char} (h : isDigit c = false ∧ c ≠ '.' ∧ c ≠ 'e' ∧ c ≠ 'E') :
    Ends (c :: rest) := by
  intro c' hc
  obtain rfl : c = c' := by simpa using hc
  exact h

theorem ends_lineBreak (l : Layout) {c : Char}
    (h : isDigit c = false ∧ c ≠ '.' ∧ c ≠ 'e' ∧ c ≠ 'E') :
    Ends (l.lineBreak ++ c :: rest) := by
  cases l with
  | compact => exact ends_cons h
  | indented level => exact ends_cons (by decide)

/-- The text of a value starts with no blank, nor with the end of a list. -/
theorem exists_write_eq_cons (l : Layout) (d : Document) :
    ∃ c cs, write l d = c :: cs ∧ isBlank c = false ∧ c ≠ ']' := by
  have hdigit {e : ℕ} (he : e < 10) : isBlank e.digitChar = false ∧ e.digitChar ≠ ']' := by
    have hall : ∀ e < 10, isBlank e.digitChar = false ∧ e.digitChar ≠ ']' := by decide
    exact hall e he
  have hinJson {f : Format} (x : Binary f) :
      ∃ c cs, x.inJson = c :: cs ∧ isBlank c = false ∧ c ≠ ']' := by
    cases hx : x.isFinite with
    | false =>
      refine ⟨'n', ['u', 'l', 'l'], ?_, by decide⟩
      simp only [Binary.inJson, hx, Bool.not_false, if_true]
    | true =>
      rw [Binary.inJson_eq hx]
      split
      · exact ⟨_, _, rfl, by decide⟩
      · obtain ⟨e, cs, he, htext⟩ := ((x.shortest .toEven).written_numeral
          (x.shortest_digits .toEven) x.negative).exists_text_eq_cons
        exact ⟨_, _, htext, hdigit he⟩
  cases d with
  | null => exact ⟨_, _, rfl, by decide⟩
  | bool b => cases b <;> exact ⟨_, _, rfl, by decide⟩
  | integer z =>
    rw [write, integer]
    split
    · exact ⟨_, _, rfl, by decide⟩
    · obtain ⟨e, es, hes⟩ := List.exists_cons_of_length_pos (length_digitsOf_pos z.natAbs)
      have he : e < 10 := lt_ten_of_mem_digitsOf (hes ▸ List.mem_cons_self)
      exact ⟨_, _, by rw [← map_digitChar_digitsOf, hes, List.map_cons], hdigit he⟩
  | single x => exact hinJson x
  | double x => exact hinJson x
  | text s => exact ⟨_, _, rfl, by decide⟩
  | bytes bs => exact ⟨_, _, rfl, by decide⟩
  | unreadable => exact ⟨_, _, rfl, by decide⟩
  | list items => cases items <;> exact ⟨_, _, by rw [write], by decide⟩
  | record fields => cases fields <;> exact ⟨_, _, by rw [write], by decide⟩

theorem length_write_pos (l : Layout) (d : Document) : 0 < (write l d).length := by
  obtain ⟨c, cs, hw, -⟩ := exists_write_eq_cons l d
  rw [hw]
  exact Nat.succ_pos _

section Steps

variable {fuel : ℕ} {more : List Char} {ps : List Piece} {k : Key} {d : Document}

theorem value_items (hb : ∀ c ∈ b, isBlank c = true) {c : Char} (hc : isBlank c = false)
    (hclose : c ≠ ']') {ds : List Document} (h : items fuel (c :: cs) = some (ds, rest)) :
    value (fuel + 1) ('[' :: (b ++ c :: cs)) = some (.list ds, rest) := by
  simp only [value, skipBlanks_cons (c := '[') rfl, skipBlanks_append hb, skipBlanks_cons hc]
  split
  · next heq => exact absurd (List.cons.inj heq).1 hclose
  · simp only [h, Option.bind_eq_bind, Option.bind_some]

theorem items_last (hb : ∀ c ∈ b, isBlank c = true)
    (h : value fuel cs = some (d, b ++ ']' :: rest)) :
    items (fuel + 1) cs = some ([d], rest) := by
  simp only [items, h, Option.bind_eq_bind, Option.bind_some, skipBlanks_append hb,
    skipBlanks_cons (c := ']') rfl]

theorem items_next (h : value fuel cs = some (d, ',' :: more)) {ds : List Document}
    (hm : items fuel more = some (ds, rest)) : items (fuel + 1) cs = some (d :: ds, rest) := by
  simp only [items, h, Option.bind_eq_bind, Option.bind_some, skipBlanks_cons (c := ',') rfl, hm]

theorem value_fields (hb : ∀ c ∈ b, isBlank c = true) {fs : List (Key × Document)}
    (h : fields fuel ('"' :: cs) = some (fs, rest)) :
    value (fuel + 1) ('{' :: (b ++ '"' :: cs)) = some (.record fs, rest) := by
  simp only [value, skipBlanks_cons (c := '{') rfl, skipBlanks_append hb,
    skipBlanks_cons (c := '"') rfl]
  split
  · next heq => exact absurd (List.cons.inj heq).1 (by decide)
  · simp only [h, Option.bind_eq_bind, Option.bind_some]

/-- A field up to its value. -/
theorem exists_pieces_colon (k : Key) (l : Layout) (cs : List Char) : ∃ name after value ps,
    key k ++ (l.colon ++ cs) = '"' :: name ∧ pieces name = some (ps, after) ∧
      skipBlanks after = ':' :: value ∧ (∀ fuel, JsonReader.value fuel value = JsonReader.value fuel cs) ∧
      keyOf ps (name.length - after.length - 1) = k.reread := by
  obtain ⟨name, ps, hkey, hpieces, hname⟩ := exists_pieces_key k (l.colon ++ cs)
  obtain ⟨b, hcolon, hb⟩ : ∃ b, l.colon = ':' :: b ∧ ∀ c ∈ b, isBlank c = true := by
    cases l with
    | compact => exact ⟨[], rfl, nofun⟩
    | indented level => exact ⟨[' '], rfl, List.forall_mem_singleton.mpr rfl⟩
  have hlength : (name ++ '"' :: (l.colon ++ cs)).length - (l.colon ++ cs).length - 1 =
      name.length := by
    simp only [List.length_append, List.length_cons]
    omega
  refine ⟨name ++ '"' :: (l.colon ++ cs), l.colon ++ cs, b ++ cs, ps, ?_, hpieces, ?_,
    fun fuel => value_blanks hb fuel cs, by rw [hlength, hname]⟩
  · rw [hkey, List.append_assoc, List.cons_append, List.singleton_append]
  · rw [hcolon, List.cons_append, skipBlanks_cons rfl]

theorem fields_last (k : Key) (l : Layout) (hb : ∀ c ∈ b, isBlank c = true)
    (h : value fuel cs = some (d, b ++ '}' :: rest)) :
    fields (fuel + 1) (key k ++ (l.colon ++ cs)) = some ([(k.reread, d)], rest) := by
  obtain ⟨name, after, text, ps, htext, hpieces, hcolon, hvalue, hkey⟩ := exists_pieces_colon k l cs
  simp only [htext, fields, skipBlanks_cons (c := '"') rfl, hpieces, Option.bind_eq_bind,
    Option.bind_some, hcolon, hvalue, h, hkey, skipBlanks_append hb, skipBlanks_cons (c := '}') rfl]

theorem fields_next (k : Key) (l : Layout) (h : value fuel cs = some (d, ',' :: more))
    {fs : List (Key × Document)} (hm : fields fuel more = some (fs, rest)) :
    fields (fuel + 1) (key k ++ (l.colon ++ cs)) = some ((k.reread, d) :: fs, rest) := by
  obtain ⟨name, after, text, ps, htext, hpieces, hcolon, hvalue, hkey⟩ := exists_pieces_colon k l cs
  simp only [htext, fields, skipBlanks_cons (c := '"') rfl, hpieces, Option.bind_eq_bind,
    Option.bind_some, hcolon, hvalue, h, hkey, skipBlanks_cons (c := ',') rfl, hm]

end Steps

/-- A document that is read back from its text, given fuel for each character of it. -/
def ReadBack (d : Document) : Prop :=
  ∀ (l : Layout) (fuel : ℕ) (rest : List Char), Ends rest → (write l d).length ≤ fuel →
    value fuel (write l d ++ rest) = some (d.reread, rest)

namespace ReadBack

variable {d : Document} {ds : List Document}

theorem leaf (h : ∀ l fuel rest, Ends rest →
    value (fuel + 1) (write l d ++ rest) = some (d.reread, rest)) : ReadBack d := by
  intro l fuel rest hr hf
  have hpos := length_write_pos l d
  obtain ⟨n, rfl⟩ : ∃ n, fuel = n + 1 := ⟨fuel - 1, by omega⟩
  exact h l n rest hr

theorem text (s : String) : ReadBack (.text s) := by
  refine leaf fun l fuel rest _ => ?_
  obtain ⟨ps, hpieces, hjoin⟩ := exists_pieces s.toList rest
  have hw : write l (.text s) ++ rest = '"' :: (s.toList.flatMap escapeChar ++ '"' :: rest) := by
    simp [write, quoted]
  simp only [hw, value, skipBlanks_cons (c := '"') rfl, hpieces, Option.bind_eq_bind,
    Option.bind_some, textOf, hjoin, String.ofList_toList, Document.reread]

theorem items (h : ∀ e ∈ d :: ds, ReadBack e) (l : Layout) (fuel : ℕ) (rest : List Char)
    (hf : (write l.deeper d).length + (writeItems l ds).length < fuel) :
    items fuel (write l.deeper d ++ (writeItems l ds ++ (l.lineBreak ++ ']' :: rest))) =
      some ((d :: ds).map Document.reread, rest) := by
  induction ds generalizing d fuel with
  | nil =>
    obtain ⟨fuel, rfl⟩ : ∃ n, fuel = n + 1 := ⟨fuel - 1, by omega⟩
    have hd := h d List.mem_cons_self l.deeper fuel (l.lineBreak ++ ']' :: rest)
      (ends_lineBreak l (by decide)) (by omega)
    exact items_last (isBlank_of_mem_lineBreak l) hd
  | cons e ds ih =>
    obtain ⟨fuel, rfl⟩ : ∃ n, fuel = n + 1 := ⟨fuel - 1, by omega⟩
    have hpos := length_write_pos l.deeper d
    simp only [writeItems, List.length_cons, List.length_append] at hf
    have hd := h d List.mem_cons_self l.deeper fuel
      (writeItems l (e :: ds) ++ (l.lineBreak ++ ']' :: rest)) (ends_cons (by decide)) (by omega)
    have hds := ih (d := e) (fun x hx => h x (List.mem_cons_of_mem d hx)) fuel (by omega)
    simp only [writeItems, List.cons_append, List.append_assoc] at hd ⊢
    exact items_next hd (by rwa [items_blanks (isBlank_of_mem_lineBreak _)])

theorem list (h : ∀ d ∈ ds, ReadBack d) : ReadBack (.list ds) := by
  intro l fuel rest _ hf
  cases ds with
  | nil =>
    obtain ⟨fuel, rfl⟩ : ∃ n, fuel = n + 1 := ⟨fuel - 1, by simp [write] at hf; omega⟩
    simp only [write, List.cons_append, List.nil_append, value, skipBlanks_cons (c := '[') rfl,
      skipBlanks_cons (c := ']') rfl]
    rfl
  | cons d ds =>
    simp only [write, List.length_cons, List.length_append] at hf
    obtain ⟨fuel, rfl⟩ : ∃ n, fuel = n + 1 := ⟨fuel - 1, by omega⟩
    have hitems := items h l fuel rest (by omega)
    obtain ⟨c, cs, hw, hc, hclose⟩ := exists_write_eq_cons l.deeper d
    rw [hw, List.cons_append] at hitems
    have hvalue := value_items (isBlank_of_mem_lineBreak l.deeper) hc hclose hitems
    rw [Document.reread_list, ← hvalue]
    simp [write, hw]

theorem fields {k : Key} {fs : List (Key × Document)} (h : ∀ f ∈ (k, d) :: fs, ReadBack f.2)
    (l : Layout) (fuel : ℕ) (rest : List Char)
    (hf : (key k).length + (write l.deeper d).length + (writeFields l fs).length < fuel) :
    fields fuel (key k ++ (l.colon ++
        (write l.deeper d ++ (writeFields l fs ++ (l.lineBreak ++ '}' :: rest))))) =
      some (((k, d) :: fs).map fun f => (f.1.reread, f.2.reread), rest) := by
  induction fs generalizing k d fuel with
  | nil =>
    obtain ⟨fuel, rfl⟩ : ∃ n, fuel = n + 1 := ⟨fuel - 1, by omega⟩
    have hread : ReadBack d := h (k, d) List.mem_cons_self
    have hd := hread l.deeper fuel (l.lineBreak ++ '}' :: rest) (ends_lineBreak l (by decide))
      (by omega)
    exact fields_last k l (isBlank_of_mem_lineBreak l) hd
  | cons f fs ih =>
    obtain ⟨k', e⟩ := f
    obtain ⟨fuel, rfl⟩ : ∃ n, fuel = n + 1 := ⟨fuel - 1, by omega⟩
    have hpos := length_write_pos l.deeper d
    simp only [writeFields, List.length_cons, List.length_append] at hf
    have hread : ReadBack d := h (k, d) List.mem_cons_self
    have hd := hread l.deeper fuel (writeFields l ((k', e) :: fs) ++ (l.lineBreak ++ '}' :: rest))
      (ends_cons (by decide)) (by omega)
    have hfs := ih (k := k') (d := e) (fun x hx => h x (List.mem_cons_of_mem _ hx)) fuel (by omega)
    simp only [writeFields, List.cons_append, List.append_assoc] at hd ⊢
    exact fields_next k l hd (by rwa [fields_blanks (isBlank_of_mem_lineBreak _)])

theorem record {fs : List (Key × Document)} (h : ∀ f ∈ fs, ReadBack f.2) :
    ReadBack (.record fs) := by
  intro l fuel rest _ hf
  cases fs with
  | nil =>
    obtain ⟨fuel, rfl⟩ : ∃ n, fuel = n + 1 := ⟨fuel - 1, by simp [write] at hf; omega⟩
    simp only [write, List.cons_append, List.nil_append, value, skipBlanks_cons (c := '{') rfl,
      skipBlanks_cons (c := '}') rfl]
    rfl
  | cons f fs =>
    obtain ⟨k, d⟩ := f
    simp only [write, List.length_cons, List.length_append] at hf
    obtain ⟨fuel, rfl⟩ : ∃ n, fuel = n + 1 := ⟨fuel - 1, by omega⟩
    have hfields := fields h l fuel rest (by omega)
    obtain ⟨name, -, hkey, -⟩ := exists_pieces_key k []
    rw [hkey, List.cons_append, List.cons_append] at hfields
    have hvalue := value_fields (isBlank_of_mem_lineBreak l.deeper) hfields
    rw [Document.reread_record, ← hvalue]
    simp [write, hkey]

/-- Bytes are written as the list of their values, all in one line. -/
theorem bytes (bs : List UInt8) : ReadBack (.bytes bs) := by
  have hbyte (b : UInt8) : write .compact (.natural b.toNat) = digitChars b.toNat := by
    simp [Document.natural, write, integer]
  have hitems (b : UInt8) (bs : List UInt8) :
      List.intercalate [','] ((b :: bs).map fun b => digitChars b.toNat) = digitChars b.toNat ++
        writeItems .compact (bs.map fun b => .natural b.toNat) := by
    induction bs generalizing b with
    | nil => simp [writeItems]
    | cons b' bs ih =>
      have hnext := ih b'
      simp only [List.map_cons] at hnext
      simp [List.intercalate_cons_cons, hnext, writeItems, hbyte, Layout.deeper, Layout.lineBreak]
  have hwrite (l : Layout) :
      write l (.bytes bs) = write .compact (.list (bs.map fun b => .natural b.toNat)) := by
    cases bs with
    | nil => simp [write]
    | cons b bs =>
      rw [write, hitems]
      simp [write, hbyte, Layout.deeper, Layout.lineBreak]
  have hreread : Document.reread (.list (bs.map fun b => .natural b.toNat)) =
      Document.reread (.bytes bs) := by
    rw [Document.reread_list, Document.reread, List.map_map]
    rfl
  have hlist : ReadBack (.list (bs.map fun b => .natural b.toNat)) := by
    refine list fun d hd => ?_
    obtain ⟨b, -, rfl⟩ := List.mem_map.mp hd
    have hb := b.toNat_lt
    exact leaf fun _ _ _ hr => value_integer (by omega) (by omega) hr _
  intro l fuel rest hr hf
  rw [hwrite] at hf ⊢
  rw [hlist .compact fuel rest hr hf, hreread]

end ReadBack

theorem readBack {d : Document} (h : d.Plain) : ReadBack d := by
  induction h with
  | null => exact .leaf fun _ _ _ _ => by rfl
  | bool b => exact .leaf fun _ _ _ _ => by cases b <;> rfl
  | integer hl hu => exact .leaf fun _ _ _ hr => value_integer hl hu hr _
  | single x => exact .leaf fun _ _ _ hr => x.value_inJson hr _
  | double x => exact .leaf fun _ _ _ hr => x.value_inJson hr _
  | text s => exact .text s
  | bytes bs => exact .bytes bs
  | list each ih => exact .list ih
  | record keys each ih => exact .record ih

/-- A document is read back whole from the text it was written to. -/
theorem read?_pretty {d : Document} (h : d.Plain) : read? (pretty d) = some d.reread := by
  have hread := readBack h (.indented 0) ((write (.indented 0) d).length + 1) [] ends_nil
    (Nat.le_succ _)
  rw [List.append_nil] at hread
  simp only [read?, pretty, String.toList_ofList, hread]
  rfl

end JsonText

end TeachPendant
