import TeachPendant.Proofs.Document.RoundTrip
import TeachPendant.Saved.Basic

namespace TeachPendant

open Number

namespace Document

variable {fs : List (String × Document)} {d : Document} {depth : Nat}

/-- A field is found by its name, whether or not this was written with escapes. -/
theorem field?_named {key : String → Key} (hk : ∀ s, key s = .text s ∨ key s = .escaped s)
    (distinct : (fs.map (·.1)).Nodup) (name : String) (i : Nat) :
    field? (fs.map fun f => (key f.1, f.2)) name i = some (fs.lookup name) := by
  have hnamed (s : String) : named name i (key s) = (s == name) := by
    obtain h | h := hk s <;> rw [h, named]
  have hf (l : List (String × Document)) :
      (l.map fun f => (key f.1, f.2)).filter (fun f => named name i f.1) =
        (l.filter fun f => f.1 == name).map fun f => (key f.1, f.2) := by
    rw [List.filter_map]
    exact congrArg _ (List.filter_congr fun f _ => hnamed f.1)
  rw [field?, hf]
  induction fs with
  | nil => rfl
  | cons f fs ih =>
    obtain ⟨n, d⟩ := f
    obtain ⟨hn, hd⟩ := List.nodup_cons.mp distinct
    by_cases h : n = name
    · subst h
      have he : fs.filter (fun f => f.1 == n) = [] := by
        rw [List.filter_eq_nil_iff]
        intro f hf hb
        exact hn (List.mem_map.mpr ⟨f, hf, beq_iff_eq.mp hb⟩)
      simp [he]
    · have hb : (name == n) = false := beq_eq_false_iff_ne.mpr (Ne.symm h)
      rw [List.filter_cons_of_neg (by simpa using h), ih hd, List.lookup_cons, hb]

theorem fields?_named {key : String → Key} (hk : ∀ s, key s = .text s ∨ key s = .escaped s)
    (distinct : (fs.map (·.1)).Nodup) (names : List String) (least : Nat) :
    (record (fs.map fun f => (key f.1, f.2))).fields? names least =
      some (names.map fun name => fs.lookup name) := by
  have hu : (fs.map fun f => (key f.1, f.2)).any (fun f => f.1 == Key.unreadable) = false := by
    have hne (s : String) : key s ≠ .unreadable := by
      obtain h | h := hk s <;> rw [h] <;> nofun
    simp [hne]
  have hm (n : Nat) : (names.zipIdx n).mapM
      (fun f => field? (fs.map fun f => (key f.1, f.2)) f.1 f.2) =
        some (names.map fun name => fs.lookup name) := by
    induction names generalizing n with
    | nil => rfl
    | cons name names ih =>
      rw [List.zipIdx_cons, List.mapM_cons, field?_named hk distinct, ih]
      rfl
  rw [fields?, hu]
  exact hm 0

@[simp] theorem choice?_text {form : Form} (tags : List String) (tag : String) :
    (Document.text tag).choice? form tags = (tags.idxOf? tag).map fun i => (i, none) := rfl

theorem holds_list {items : List Document} :
    (list items).holds depth = true ↔
      ∃ n, depth = n + 1 ∧ ∀ d ∈ items, d.holds n = true := by
  cases depth with
  | zero => simp [holds]
  | succ n => simp [holds]

theorem holds_object :
    (object fs).holds depth = true ↔ ∃ n, depth = n + 1 ∧ ∀ f ∈ fs, f.2.holds n = true := by
  cases depth with
  | zero => simp [object, holds]
  | succ n => simp [object, holds]

theorem holds_tagged {tag : String} :
    (tagged tag d).holds depth = true ↔ ∃ n, depth = n + 1 ∧ d.holds n = true := by
  rw [tagged, holds_object]
  simp

theorem natural?_natural {n bound : Nat} (h : n < bound) :
    (natural n).natural? bound = some n := by
  simp [natural, natural?, h]

@[simp] theorem word?_word (i : UInt64) : (word i).word? = some i := by
  have hi : (word i).natural? (2 ^ 64) = some i.toNat := natural?_natural i.toNat_lt
  rw [word?, hi, Option.map_some, UInt64.ofNat_toNat]

@[simp] theorem halfWord?_natural (i : UInt32) : (natural i.toNat).halfWord? = some i := by
  rw [halfWord?, natural?_natural i.toNat_lt, Option.map_some, UInt32.ofNat_toNat]

@[simp] theorem byte?_natural (i : UInt8) : (natural i.toNat).byte? = some i := by
  rw [byte?, natural?_natural i.toNat_lt, Option.map_some, UInt8.ofNat_toNat]

attribute [simp] Plain.null Plain.bool Plain.single Plain.text

theorem plain_natural {n : Nat} (h : n < 2 ^ 64) : (natural n).Plain :=
  .integer (by omega) (by omega)

@[simp] theorem plain_word (i : UInt64) : (word i).Plain := plain_natural i.toNat_lt

@[simp] theorem plain_halfWord (i : UInt32) : (natural i.toNat).Plain :=
  plain_natural (Nat.lt_trans i.toNat_lt (by decide))

@[simp] theorem plain_byte (i : UInt8) : (natural i.toNat).Plain :=
  plain_natural (Nat.lt_trans i.toNat_lt (by decide))

@[simp] theorem plain_list {items : List Document} :
    (list items).Plain ↔ ∀ d ∈ items, d.Plain := by
  constructor
  · intro h
    cases h with
    | list each => exact each
  · exact .list

@[simp] theorem plain_object : (object fs).Plain ↔ ∀ f ∈ fs, f.2.Plain := by
  constructor
  · intro h f hf
    cases h with
    | record keys each => exact each _ (List.mem_map_of_mem hf)
  · intro h
    refine .record ?_ ?_
    · intro f hf
      obtain ⟨g, _, rfl⟩ := List.mem_map.mp hf
      trivial
    · intro f hf
      obtain ⟨g, hg, rfl⟩ := List.mem_map.mp hf
      exact h g hg

@[simp] theorem plain_tagged {tag : String} : (tagged tag d).Plain ↔ d.Plain := by
  simp [tagged]

@[simp] theorem plain_ofOption {α : Type} {f : α → Document} {o : Option α} :
    (ofOption f o).Plain ↔ ∀ x ∈ o, (f x).Plain := by
  cases o <;> simp [ofOption]

end Document

namespace Point

@[simp] theorem plain_toDocument (p : Point) : p.toDocument.Plain := by
  simp [toDocument]

end Point

end TeachPendant
