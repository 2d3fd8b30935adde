import TeachPendant.Proofs.Document.Headers

namespace TeachPendant

/-- Texts and counts that headers of 32 bits can give the length of. -/
def Key.short : Key → Bool
  | .text s => s.utf8ByteSize < 2 ^ 32
  | .escaped s => s.utf8ByteSize < 2 ^ 32
  | _ => true

/-- Keys that are told from all others when they are written. -/
def Key.Plain : Key → Prop
  | .text _ => True
  | .index n => n < 2 ^ 64
  | _ => False

namespace Document

mutual

/-- Every length in a document fits the longest header, which has 32 bits for it. -/
def short : Document → Bool
  | .text s => s.utf8ByteSize < 2 ^ 32
  | .bytes bs => bs.length < 2 ^ 32
  | .list items => items.length < 2 ^ 32 && shortItems items
  | .record fields => fields.length < 2 ^ 32 && shortFields fields
  | _ => true

def shortItems : List Document → Bool
  | [] => true
  | d :: rest => d.short && shortItems rest

def shortFields : List (Key × Document) → Bool
  | [] => true
  | (k, d) :: rest => k.short && d.short && shortFields rest

end

theorem short_list {items : List Document} :
    (Document.list items).short = true ↔ items.length < 2 ^ 32 ∧ ∀ d ∈ items, d.short = true := by
  have hi (ds : List Document) : shortItems ds = ds.all short := by
    induction ds with
    | nil => rfl
    | cons d ds ih => rw [shortItems, ih, List.all_cons]
  rw [short, hi, Bool.and_eq_true, decide_eq_true_iff, List.all_eq_true]

theorem short_record {fields : List (Key × Document)} :
    (Document.record fields).short = true ↔
      fields.length < 2 ^ 32 ∧ ∀ f ∈ fields, f.1.short = true ∧ f.2.short = true := by
  have hf (fs : List (Key × Document)) :
      shortFields fs = fs.all fun f => f.1.short && f.2.short := by
    induction fs with
    | nil => rfl
    | cons f fs ih => rw [shortFields, ih, List.all_cons]
  simp only [short, hf, Bool.and_eq_true, decide_eq_true_iff, List.all_eq_true]

/-- Documents of values that the notation tells from all others. -/
inductive Plain : Document → Prop
  | null : Plain .null
  | bool (b : Bool) : Plain (.bool b)
  | integer {z : Int} (lower : -2 ^ 63 ≤ z) (upper : z < 2 ^ 64) : Plain (.integer z)
  | single (x : Number.Single) : Plain (.single x)
  | double (x : Number.Double) : Plain (.double x)
  | text (s : String) : Plain (.text s)
  | bytes (bs : List UInt8) : Plain (.bytes bs)
  | list {items : List Document} (each : ∀ d ∈ items, Plain d) : Plain (.list items)
  | record {fields : List (Key × Document)} (keys : ∀ f ∈ fields, f.1.Plain)
      (each : ∀ f ∈ fields, Plain f.2) : Plain (.record fields)

end Document

namespace MessagePack

variable {fuel : Nat} {rest : List UInt8}

/-- What a header announces. -/
def content (fuel : Nat) : Head → List UInt8 → Option (Document × List UInt8)
  | .leaf d, rest => some (d, rest)
  | .text n, rest => (take? n rest).map fun (v, rest) => (textOf v, rest)
  | .bytes n, rest => (take? n rest).map fun (v, rest) => (.bytes v, rest)
  | .list n, rest => (items fuel n rest).map fun (ds, rest) => (.list ds, rest)
  | .record n, rest => (fields fuel n rest).map fun (fs, rest) => (.record fs, rest)

theorem value_succ (fuel : Nat) :
    value (fuel + 1) = fun bs => (head bs).bind fun (k, rest) => content fuel k rest := by
  funext bs
  rw [value]
  split <;> (next h => rw [h]; rfl)

theorem items_succ (fuel n : Nat) :
    items (fuel + 1) (n + 1) = fun bs =>
      (value fuel bs).bind fun (d, bs) => (items fuel n bs).map fun (ds, rest) => (d :: ds, rest) := by
  funext bs
  rw [items]
  split <;> (next h => rw [h]; rfl)

theorem fields_succ (fuel n : Nat) :
    fields (fuel + 1) (n + 1) = fun bs =>
      (value fuel bs).bind fun (k, bs) => (value fuel bs).bind fun (d, bs) =>
        (fields fuel n bs).map fun (fs, rest) => ((keyOf k, d) :: fs, rest) := by
  funext bs
  rw [fields]
  cases value fuel bs with
  | none => rfl
  | some p =>
    simp only [Option.bind_some]
    split <;> (next h => rw [h]; rfl)

namespace Onward

variable {fuel' : Nat}

theorem content (hi : ∀ n, Onward (items fuel n) (items fuel' n))
    (hf : ∀ n, Onward (fields fuel n) (fields fuel' n)) (k : Head) :
    Onward (content fuel k) (content fuel' k) := by
  cases k with
  | leaf d => exact pure d
  | text n => exact (take? n).map textOf
  | bytes n => exact (take? n).map Document.bytes
  | list n => exact (hi n).map Document.list
  | record n => exact (hf n).map Document.record

theorem reader : ∀ {fuel fuel' : Nat}, fuel ≤ fuel' →
    Onward (value fuel) (value fuel') ∧ (∀ n, Onward (items fuel n) (items fuel' n)) ∧
      ∀ n, Onward (fields fuel n) (fields fuel' n)
  | 0, fuel', _ => by
    refine ⟨none, fun n => ?_, fun n => ?_⟩
    · cases n with
      | zero => cases fuel' <;> exact pure []
      | succ n => exact none
    · cases n with
      | zero => cases fuel' <;> exact pure []
      | succ n => exact none
  | fuel + 1, 0, h => by omega
  | fuel + 1, fuel' + 1, h => by
    obtain ⟨hv, hi, hf⟩ := reader (Nat.le_of_succ_le_succ h)
    refine ⟨?_, fun n => ?_, fun n => ?_⟩
    · rw [value_succ, value_succ]
      exact head.bind (content hi hf)
    · cases n with
      | zero => exact pure []
      | succ n =>
        rw [items_succ, items_succ]
        exact hv.bind fun d => (hi n).map (d :: ·)
    · cases n with
      | zero => exact pure []
      | succ n =>
        rw [fields_succ, fields_succ]
        exact hv.bind fun k => hv.bind fun d => (hf n).map ((keyOf k, d) :: ·)

end Onward

/-- A document that is read back from its bytes, given fuel for two steps with each of them. -/
def ReadBack (d : Document) : Prop :=
  ∀ fuel rest, 2 * (write d).length ≤ fuel + 1 → value fuel (write d ++ rest) = some (d, rest)

/-- Keys are read as documents first. -/
def ofKey : Key → Document
  | .text s => .text s
  | .escaped s => .text s
  | .index n => .natural n
  | .unreadable => .null

namespace ReadBack

theorem of_head {d : Document} {k : Head} {header body : List UInt8} (hw : write d = header ++ body)
    (hh : ∀ bs, head (header ++ bs) = some (k, bs))
    (hc : ∀ fuel rest, 2 * body.length ≤ fuel → content fuel k (body ++ rest) = some (d, rest)) :
    ReadBack d := by
  intro fuel rest hf
  have hp : header ≠ [] := by
    rintro rfl
    cases hh []
  have hl := List.length_pos_iff.mpr hp
  rw [hw, List.length_append] at hf
  cases fuel with
  | zero => omega
  | succ fuel =>
    simp only [value_succ, hw, List.append_assoc, hh, Option.bind_some]
    exact hc fuel rest (by omega)

theorem leaf {d : Document} (hh : ∀ bs, head (write d ++ bs) = some (.leaf d, bs)) : ReadBack d :=
  of_head (List.append_nil _).symm hh fun _ _ _ => rfl

theorem text {s : String} (h : s.utf8ByteSize < 2 ^ 32) : ReadBack (.text s) := by
  refine of_head rfl (fun bs => head_textHeader (by rwa [length_textBytes])) fun fuel rest _ => ?_
  simp only [content, take?_append rfl, Option.map_some, textOf_textBytes]

theorem bytes {bs : List UInt8} (h : bs.length < 2 ^ 32) : ReadBack (.bytes bs) := by
  refine of_head rfl (fun _ => head_bytesHeader h) fun fuel rest _ => ?_
  simp only [content, take?_append rfl, Option.map_some]

theorem length_pos {d : Document} (h : ReadBack d) : 0 < (write d).length := by
  refine Nat.pos_of_ne_zero fun hl => ?_
  have hv := h 0 [] (by omega)
  cases hv

theorem items {ds : List Document} (h : ∀ d ∈ ds, ReadBack d) (fuel : Nat) (rest : List UInt8)
    (hf : 2 * (writeItems ds).length ≤ fuel) :
    items fuel ds.length (writeItems ds ++ rest) = some (ds, rest) := by
  induction ds generalizing fuel with
  | nil => cases fuel <;> rfl
  | cons d ds ih =>
    obtain ⟨hd, hs⟩ := List.forall_mem_cons.mp h
    have hl := hd.length_pos
    rw [writeItems, List.length_append] at hf
    cases fuel with
    | zero => omega
    | succ fuel =>
      have hv := hd fuel (writeItems ds ++ rest) (by omega)
      have hi := ih hs fuel (by omega)
      simp only [List.length_cons, items_succ, writeItems, List.append_assoc, hv, hi,
        Option.bind_some, Option.map_some]

theorem list {ds : List Document} (hl : ds.length < 2 ^ 32) (h : ∀ d ∈ ds, ReadBack d) :
    ReadBack (.list ds) := by
  refine of_head (by rw [write]) (fun _ => head_listHeader hl) fun fuel rest hf => ?_
  rw [content, items h fuel rest hf, Option.map_some]

theorem key {k : Key} (hp : k.Plain) (hs : k.short) :
    write (ofKey k) = key k ∧ keyOf (ofKey k) = k ∧ ReadBack (ofKey k) := by
  cases k with
  | text s => exact ⟨rfl, rfl, text (of_decide_eq_true hs)⟩
  | escaped s => exact absurd hp id
  | unreadable => exact absurd hp id
  | index n =>
    have hn : n < 2 ^ 64 := hp
    refine ⟨?_, ?_, leaf fun bs => head_integer (by omega) (by omega)⟩
    · rfl
    · rfl

theorem fields {fs : List (Key × Document)}
    (h : ∀ f ∈ fs, f.1.Plain ∧ f.1.short ∧ ReadBack f.2) (fuel : Nat) (rest : List UInt8)
    (hf : 2 * (writeFields fs).length ≤ fuel) :
    fields fuel fs.length (writeFields fs ++ rest) = some (fs, rest) := by
  induction fs generalizing fuel with
  | nil => cases fuel <;> rfl
  | cons f fs ih =>
    obtain ⟨k, d⟩ := f
    simp only [List.forall_mem_cons] at h
    obtain ⟨⟨hkp, hks, hd⟩, hfs⟩ := h
    obtain ⟨hw, ho, hk⟩ := key hkp hks
    have hkl := hk.length_pos
    have hdl := hd.length_pos
    rw [writeFields, List.length_append, List.length_append, ← hw] at hf
    cases fuel with
    | zero => omega
    | succ fuel =>
      have hkv := hk fuel (write d ++ (writeFields fs ++ rest)) (by omega)
      have hdv := hd fuel (writeFields fs ++ rest) (by omega)
      have hi := ih hfs fuel (by omega)
      simp only [List.length_cons, fields_succ, writeFields, List.append_assoc, ← hw, hkv, hdv, hi,
        Option.bind_some, Option.map_some, ho]

theorem record {fs : List (Key × Document)} (hl : fs.length < 2 ^ 32)
    (h : ∀ f ∈ fs, f.1.Plain ∧ f.1.short ∧ ReadBack f.2) : ReadBack (.record fs) := by
  refine of_head (by rw [write]) (fun _ => head_recordHeader hl) fun fuel rest hf => ?_
  rw [content, fields h fuel rest hf, Option.map_some]

end ReadBack

theorem readBack {d : Document} (hp : d.Plain) (hs : d.short) : ReadBack d := by
  induction hp with
  | null => exact .leaf fun _ => rfl
  | bool b => exact .leaf fun _ => by cases b <;> rfl
  | integer hl hu => exact .leaf fun _ => head_integer hl hu
  | single x => exact .leaf fun _ => head_single x
  | double x => exact .leaf fun _ => head_double x
  | text s => exact .text (of_decide_eq_true hs)
  | bytes bs => exact .bytes (of_decide_eq_true hs)
  | list each ih =>
    obtain ⟨hl, hi⟩ := Document.short_list.mp hs
    exact .list hl fun d hd => ih d hd (hi d hd)
  | record keys each ih =>
    obtain ⟨hl, hi⟩ := Document.short_record.mp hs
    exact .record hl fun f hf => ⟨keys f hf, (hi f hf).1, ih f hf (hi f hf).2⟩

variable {d : Document} (hp : d.Plain) (hs : d.short)
include hp hs

/-- A document is found at the head of the bytes it was written to, whatever comes after it. -/
theorem read?_write (extra : List UInt8) : read? (write d ++ extra) = some d := by
  have hf : 2 * (write d).length ≤ 2 * (write d ++ extra).length + 1 + 1 := by
    rw [List.length_append]
    omega
  rw [read?, readBack hp hs _ extra hf, Option.map_some]

/-- What stops before the end of a document is no document: it would be the same one when the rest
of the bytes follow. -/
theorem read?_prefix {bs cut : List UInt8} (h : bs ++ cut = write d) (hc : cut ≠ []) :
    read? bs = none := by
  rw [read?, Option.map_eq_none_iff]
  cases hb : value (2 * bs.length + 1) bs with
  | none => rfl
  | some p =>
    obtain ⟨d', rest⟩ := p
    have hl : bs.length ≤ (write d).length := by
      rw [← h, List.length_append]
      omega
    have hf : 2 * bs.length + 1 ≤ 2 * (write d).length + 1 := by omega
    have hw := (Onward.reader hf).1 hb cut
    have hd := readBack hp hs (2 * (write d).length + 1) [] (by omega)
    rw [h] at hw
    rw [List.append_nil, hw] at hd
    simp only [Option.some.injEq, Prod.mk.injEq, List.append_eq_nil_iff] at hd
    exact absurd hd.2.2 hc

end MessagePack

end TeachPendant
