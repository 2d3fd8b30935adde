import TeachPendant.Proofs.Saved.Fields

namespace TeachPendant

open Number

/-- What comes back of documents that are written in a notation and read: names may come back as
written with escapes, and numbered names as texts; the numbers for which `keeps` holds come back as
they are in value, the others as none. -/
structure Passage where
  image : Document → Document
  name : Key → Key
  keeps : Single → Bool
  null : image .null = .null
  bool (b : Bool) : image (.bool b) = .bool b
  integer (z : Int) : image (.integer z) = .integer z
  text (s : String) : image (.text s) = .text s
  list (items : List Document) : image (.list items) = .list (items.map image)
  record (fields : List (Key × Document)) :
    image (.record fields) = .record (fields.map fun f => (name f.1, image f.2))
  textName (s : String) : name (.text s) = .text s ∨ name (.text s) = .escaped s
  indexName (n : Nat) :
    name (.index n) = .index n ∨ name (.index n) = .text (String.ofList (digitChars n))
  number (x : Single) : (image (.single x)).number? = if keeps x then some x else none
  held (x : Single) (depth : Nat) : (image (.single x)).holds depth = true

/-- A notation in which everything comes back as it is. -/
def Passage.unchanged : Passage where
  image := id
  name := id
  keeps _ := true
  null := rfl
  bool _ := rfl
  integer _ := rfl
  text _ := rfl
  list items := by rw [List.map_id]; rfl
  record fields := (congrArg Document.record (List.map_id fields)).symm
  textName _ := .inl rfl
  indexName _ := .inl rfl
  number _ := rfl
  held _ depth := by cases depth <;> rfl

namespace Passage

open Document

variable {w : Passage} {α β : Type} {form : Form} {depth : Nat} {d : Document}
  {fs : List (String × Document)} {xs ys : List Single} {a : α}

attribute [simp] Passage.null Passage.bool Passage.text

@[simp] theorem image_natural (n : Nat) : w.image (.natural n) = .natural n := w.integer n

@[simp] theorem image_word (i : UInt64) : w.image (.word i) = .word i := w.integer i.toNat

/-- What is read of something that holds the numbers `xs`: nothing if one of them was lost. -/
def pass (w : Passage) (xs : List Single) (a : α) : Option α :=
  if xs.all w.keeps then some a else none

@[simp] theorem pass_nil : w.pass [] a = some a := rfl

@[simp] theorem map_pass (f : α → β) : (w.pass xs a).map f = w.pass xs (f a) := by
  unfold pass
  split_ifs <;> rfl

@[simp] theorem pass_bind_some (f : α → β) :
    ((w.pass xs a).bind fun a => some (f a)) = w.pass xs (f a) := by
  unfold pass
  split_ifs <;> rfl

@[simp] theorem pass_bind_pass (f : α → β) :
    ((w.pass xs a).bind fun a => w.pass ys (f a)) = w.pass (xs ++ ys) (f a) := by
  by_cases hx : xs.all w.keeps = true <;> by_cases hy : ys.all w.keeps = true <;>
    simp [pass, hx, hy]

theorem pass_unchanged (xs : List Single) (a : α) : unchanged.pass xs a = some a :=
  if_pos (List.all_eq_true.mpr fun _ _ => rfl)

theorem number?_single (x : Single) : (w.image (.single x)).number? = w.pass [x] x := by
  rw [w.number, pass, List.all_cons, List.all_nil, Bool.and_true]

theorem mapM_pass {γ : Type} {read : γ → Option β} {write : α → γ} {numbers : α → List Single}
    {kept : α → β} {l : List α} (h : ∀ x ∈ l, read (write x) = w.pass (numbers x) (kept x)) :
    (l.map write).mapM read = w.pass (l.flatMap numbers) (l.map kept) := by
  induction l with
  | nil => rfl
  | cons x l ih =>
    obtain ⟨hx, hl⟩ := List.forall_mem_cons.mp h
    simp only [List.map_cons, List.mapM_cons, hx, ih hl]
    simp

/-- A list is read to what each of its items is read to. -/
theorem listOf?_image {read : Nat → Document → Option β} {write : α → Document}
    {numbers : α → List Single} {kept : α → β} {l : List α}
    (hd : (Document.list (l.map write)).holds depth = true)
    (h : ∀ x ∈ l, ∀ n, (write x).holds n = true →
      read n (w.image (write x)) = w.pass (numbers x) (kept x)) :
    listOf? read depth (w.image (.list (l.map write))) =
      w.pass (l.flatMap numbers) (l.map kept) := by
  obtain ⟨n, rfl, hl⟩ := holds_list.mp hd
  rw [w.list, List.map_map]
  exact mapM_pass fun x hx => h x hx n (hl _ (List.mem_map_of_mem hx))

theorem image_object (w : Passage) (fs : List (String × Document)) :
    w.image (object fs) =
      .record ((fs.map fun f => (f.1, w.image f.2)).map fun f => (w.name (.text f.1), f.2)) := by
  rw [object, w.record, List.map_map, List.map_map]
  rfl

theorem fields?_object (w : Passage) (distinct : (fs.map (·.1)).Nodup) (names : List String)
    (least : Nat) : (w.image (object fs)).fields? names least =
      some (names.map fun name => (fs.map fun f => (f.1, w.image f.2)).lookup name) := by
  have hd : ((fs.map fun f => (f.1, w.image f.2)).map (·.1)).Nodup := by
    rwa [List.map_map]
  rw [image_object, fields?_named w.textName hd]

/-- All fields of a structure, in the order in which they were written. -/
theorem fields?_written (w : Passage) {fs : List (String × Document)} {names : List String}
    (order : fs.map (·.1) = names) (distinct : names.Nodup) (least : Nat) :
    (w.image (object fs)).fields? names least = some (fs.map fun f => some (w.image f.2)) := by
  subst order
  rw [w.fields?_object distinct]
  congr 1
  induction fs with
  | nil => rfl
  | cons f fs ih =>
    obtain ⟨hn, hd⟩ := List.nodup_cons.mp distinct
    have hrest : fs.map (fun g => ((f :: fs).map fun h => (h.1, w.image h.2)).lookup g.1) =
        fs.map fun g => some (w.image g.2) := by
      have hne : ∀ g ∈ fs, (g.1 == f.1) = false := fun g hg =>
        beq_eq_false_iff_ne.mpr fun he => hn (List.mem_map.mpr ⟨g, hg, he⟩)
      have ih := ih hd
      rw [List.map_map] at ih
      rw [← ih]
      refine List.map_congr_left fun g hg => ?_
      simp [List.lookup_cons, hne g hg]
    rw [List.map_map]
    simpa [List.lookup_cons] using hrest

@[simp] theorem choice?_tagged (tags : List String) (tag : String) :
    (w.image (tagged tag d)).choice? form tags =
      (tags.idxOf? tag).map fun i => (i, some (w.image d)) := by
  have ht : tagOf tags (w.name (.text tag)) = tags.idxOf? tag := by
    obtain h | h := w.textName tag <;> rw [h, tagOf]
  simp only [tagged, image_object, List.map_cons, List.map_nil, choice?, ht]

theorem image_tagged_ne_null (tag : String) (d : Document) : w.image (tagged tag d) ≠ .null := by
  rw [tagged, image_object]
  rintro ⟨⟩

/-- Documents that come back as deep as they were. -/
def Level (w : Passage) (d : Document) : Prop := ∀ depth, (w.image d).holds depth = d.holds depth

@[simp] theorem level_leaf {d : Document} (h : w.image d = d) : w.Level d := fun _ => by rw [h]

@[simp] theorem level_single (x : Single) : w.Level (.single x) := by
  intro depth
  rw [w.held]
  cases depth <;> rfl

theorem level_list {items : List Document} (h : ∀ d ∈ items, w.Level d) :
    w.Level (.list items) := by
  intro depth
  rw [w.list]
  cases depth with
  | zero => rfl
  | succ n =>
    rw [holds, holds, List.all_map, Bool.eq_iff_iff, List.all_eq_true, List.all_eq_true]
    exact forall₂_congr fun d hd => by rw [Function.comp_apply, h d hd n]

theorem level_object (h : ∀ f ∈ fs, w.Level f.2) : w.Level (object fs) := by
  intro depth
  rw [image_object, object]
  cases depth with
  | zero => rfl
  | succ n =>
    have hname (s : String) : w.name (.text s) ≠ .unreadable := by
      obtain hs | hs := w.textName s <;> rw [hs] <;> rintro ⟨⟩
    rw [holds, holds, List.map_map, List.all_map, List.all_map, Bool.eq_iff_iff, List.all_eq_true,
      List.all_eq_true]
    exact forall₂_congr fun f hf => by simp [hname, h f hf n]

theorem level_tagged {tag : String} (h : w.Level d) : w.Level (tagged tag d) :=
  level_object (by simpa using h)

end Passage

namespace Point

open Document

variable {w : Passage} {depth : Nat}

theorem triple?_image {x y z : Single}
    (h : (Document.list [.single x, .single y, .single z]).holds depth = true) :
    triple? depth (w.image (.list [.single x, .single y, .single z])) =
      w.pass [x, y, z] (x, y, z) := by
  have hl : listOf? (fun _ => number?) depth (w.image (.list ([x, y, z].map .single))) =
      w.pass ([x, y, z].flatMap fun x => [x]) ([x, y, z].map id) :=
    Passage.listOf?_image h fun x _ _ _ => Passage.number?_single x
  replace hl : listOf? (fun _ => number?) depth
      (w.image (.list [.single x, .single y, .single z])) = w.pass [x, y, z] [x, y, z] := hl
  rw [triple?, hl]
  unfold Passage.pass
  split_ifs <;> rfl

theorem ofDocument?_image {p : Point} (h : p.toDocument.holds depth) :
    ofDocument? depth (w.image p.toDocument) = w.pass p.components p := by
  obtain ⟨n, rfl, hf⟩ := holds_object.mp h
  simp only [List.forall_mem_cons] at hf
  obtain ⟨hp, ho, _⟩ := hf
  rw [ofDocument?, toDocument, w.fields?_object (by simp)]
  simp [List.lookup_cons, triple?_image hp, triple?_image ho, components]

end Point

end TeachPendant
