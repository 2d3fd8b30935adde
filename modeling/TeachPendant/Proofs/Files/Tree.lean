import Mathlib.Tactic.SplitIfs
import TeachPendant.Files

namespace TeachPendant

namespace Files

variable {f : Files} {p q : Place} {n : Node}

theorem node?_of_ne (f : Files) (hq : q ≠ []) : f.node? q = f.nodes.lookup q := by
  rw [node?, List.isEmpty_eq_false_iff.mpr hq, if_neg Bool.false_ne_true]

/-- Only the top of the tree has no name. -/
theorem ne_nil_of_node? (h : f.node? p ≠ some .directory) : p ≠ [] := by
  rintro rfl
  exact h rfl

theorem lookup_cons_node (p q : Place) (n : Node) (nodes : List (Place × Node)) :
    ((p, n) :: nodes).lookup q = if q = p then some n else nodes.lookup q := by
  rw [List.lookup_cons]
  by_cases hq : q = p
  · rw [if_pos hq, hq, beq_self_eq_true]
  · rw [if_neg hq, beq_false_of_ne hq]

theorem lookup_putNode (p q : Place) (n : Node) (nodes : List (Place × Node)) :
    (putNode p n nodes).lookup q = if q = p then some n else nodes.lookup q := by
  induction nodes with
  | nil => exact lookup_cons_node p q n []
  | cons e nodes ih =>
    obtain ⟨r, m⟩ := e
    rw [putNode]
    by_cases hr : p = r
    · rw [if_pos hr, ← hr, lookup_cons_node, lookup_cons_node]
      split_ifs <;> rfl
    · rw [if_neg hr, lookup_cons_node, lookup_cons_node, ih]
      split_ifs with hq hp <;> first | rfl | exact absurd (hp.symm.trans hq) hr

theorem lookup_filter (p q : Place) (nodes : List (Place × Node)) :
    (nodes.filter (·.1 != p)).lookup q = if q = p then none else nodes.lookup q := by
  induction nodes with
  | nil => exact (ite_self none).symm
  | cons e nodes ih =>
    obtain ⟨r, m⟩ := e
    rw [lookup_cons_node]
    by_cases hr : r = p
    · rw [List.filter_cons_of_neg (by simpa using hr), ih, hr]
      split_ifs <;> rfl
    · rw [List.filter_cons_of_pos (by simpa using hr), lookup_cons_node, ih]
      split_ifs with hq hp <;> first | rfl | exact absurd (hq.symm.trans hp) hr

theorem node?_put (f : Files) (hp : p ≠ []) (n : Node) (q : Place) :
    (f.put p n).node? q = if q = p then some n else f.node? q := by
  by_cases hq : q = []
  · subst hq
    rw [if_neg hp.symm]
    rfl
  · rw [node?_of_ne _ hq, node?_of_ne _ hq, put, lookup_putNode]

theorem node?_remove (f : Files) (hp : p ≠ []) (q : Place) :
    (f.remove p).node? q = if q = p then none else f.node? q := by
  by_cases hq : q = []
  · subst hq
    rw [if_neg hp.symm]
    rfl
  · rw [node?_of_ne _ hq, node?_of_ne _ hq, remove, lookup_filter]

/-- Into a place that is free, what stands in another is moved, also if that is nothing. -/
theorem node?_move {r : Place} (hp : p ≠ []) (hq : q ≠ []) (hfree : f.node? q = none) :
    (f.move p q).node? r = if r = q then f.node? p else if r = p then none else f.node? r := by
  unfold move
  split
  · next n hn => rw [node?_put _ hq, node?_remove _ hp, hn]
  · next hn =>
    by_cases hrq : r = q
    · rw [if_pos hrq, hrq, hfree, hn]
    · rw [if_neg hrq]
      by_cases hrp : r = p
      · rw [if_pos hrp, hrp, hn]
      · rw [if_neg hrp]

/-- A directory, as are all above it. -/
def IsDirectory (f : Files) (p : Place) : Prop := ∀ i ≤ p.length, f.node? (p.take i) = some .directory

theorem IsDirectory.node? (h : f.IsDirectory p) : f.node? p = some .directory := by
  have hp := h p.length (Nat.le_refl _)
  rwa [List.take_length] at hp

/-- Nothing is in the way to a place exactly if all above it are directories. -/
theorem obstacle?_eq_none_iff :
    f.obstacle? p = none ↔ ∀ i < p.length, f.node? (p.take i) = some .directory := by
  simp only [obstacle?, List.findSome?_eq_none_iff, List.mem_range]
  refine forall₂_congr fun i _ => ?_
  cases f.node? (p.take i) with
  | none => simp
  | some n => cases n <;> simp

theorem IsDirectory.obstacle? (h : f.IsDirectory p) (name : String) :
    f.obstacle? (p ++ [name]) = none := by
  rw [obstacle?_eq_none_iff]
  intro i hi
  rw [List.length_append, List.length_singleton] at hi
  rw [List.take_append_of_le_length (by omega)]
  exact h i (by omega)

/-- Places that are not above it make no difference to a directory. -/
theorem IsDirectory.congr {g : Files} (h : f.IsDirectory p)
    (hg : ∀ q, q.length ≤ p.length → g.node? q = f.node? q) : g.IsDirectory p := by
  intro i hi
  rw [hg _ (by rw [List.length_take]; omega)]
  exact h i hi

/-- A directory in which there is nothing. -/
structure IsEmptyDirectory (f : Files) (p : Place) : Prop where
  directory : f.IsDirectory p
  empty : ∀ name, f.node? (p ++ [name]) = none

/-- One directory is made, unless something is there. -/
def withDirectory (f : Files) (p : Place) : Files := if f.contains p then f else f.put p .directory

theorem node?_withDirectory (f : Files) (p q : Place) : (f.withDirectory p).node? q =
    if q = p then some ((f.node? q).getD .directory) else f.node? q := by
  by_cases hq : q = p
  · subst hq
    rw [if_pos rfl, withDirectory, contains]
    cases hn : f.node? q with
    | some n => exact hn
    | none =>
      have hne : q ≠ [] := by
        rintro rfl
        cases hn
      exact (node?_put f hne _ _).trans (if_pos rfl)
  · rw [if_neg hq, withDirectory]
    split
    · rfl
    · next hp =>
      have hne : p ≠ [] := by
        rintro rfl
        exact hp rfl
      rw [node?_put f hne, if_neg hq]

/-- All directories on the way are made that are not there. -/
theorem node?_foldl_withDirectory (f : Files) (p : Place) (m : Nat) (q : Place) :
    ((List.range m).foldl (fun f i => f.withDirectory (p.take i)) f).node? q =
      if ∃ i < m, q = p.take i then some ((f.node? q).getD .directory) else f.node? q := by
  induction m with
  | zero => exact (if_neg (by rintro ⟨i, hi, -⟩; cases hi)).symm
  | succ m ih =>
    rw [List.range_succ, List.foldl_append, List.foldl_cons, List.foldl_nil, node?_withDirectory, ih]
    by_cases hlast : q = p.take m
    · have hmem : ∃ i < m + 1, q = p.take i := ⟨m, Nat.lt_succ_self m, hlast⟩
      rw [if_pos hlast]
      refine Eq.trans ?_ (if_pos hmem).symm
      split_ifs <;> rfl
    · have hiff : (∃ i < m + 1, q = p.take i) ↔ ∃ i < m, q = p.take i := by
        constructor
        · rintro ⟨i, hi, rfl⟩
          obtain hi | rfl := Nat.lt_succ_iff_lt_or_eq.mp hi
          · exact ⟨i, hi, rfl⟩
          · exact absurd rfl hlast
        · exact fun ⟨i, hi, hq⟩ => ⟨i, Nat.lt_succ_of_lt hi, hq⟩
      simp only [if_neg hlast, hiff]

/-- Whether a file can be put in a place once the directories above it have been made. -/
structure Room (f : Files) (p : Place) : Prop where
  file : f.node? p ≠ some .directory
  above : ∀ i < p.length, (f.node? (p.take i)).getD .directory = .directory
  parent : f.node? p.dropLast = some .directory → f.IsDirectory p.dropLast

theorem createDirectoryAt_of_room (h : f.Room p) : ∃ g, f.createDirectoryAt p.dropLast = .ok g ∧
    g.IsDirectory p.dropLast ∧ ∀ q, p.length ≤ q.length → g.node? q = f.node? q := by
  have hlength : p.dropLast.length = p.length - 1 := List.length_dropLast
  have hpos := List.length_pos_iff.mpr (ne_nil_of_node? h.file)
  have habove (i : Nat) (hi : i ≤ p.dropLast.length) :
      (f.node? (p.dropLast.take i)).getD .directory = .directory := by
    rw [List.dropLast_eq_take, List.take_take, Nat.min_eq_left (by omega)]
    exact h.above i (by omega)
  cases hnode : f.node? p.dropLast with
  | some n =>
    have hlast := habove p.dropLast.length (Nat.le_refl _)
    rw [List.take_length, hnode] at hlast
    obtain rfl : n = .directory := hlast
    exact ⟨f, by simp only [createDirectoryAt, hnode], h.parent hnode, fun _ _ => rfl⟩
  | none =>
    have hobstacle : f.obstacle? p.dropLast ≠ some .notDirectory := by
      intro hfault
      obtain ⟨i, hi, hfault⟩ := List.exists_of_findSome?_eq_some hfault
      have hdir := habove i (Nat.le_of_lt (List.mem_range.mp hi))
      cases hn : f.node? (p.dropLast.take i) with
      | none => rw [hn] at hfault; cases hfault
      | some n =>
        rw [hn] at hdir hfault
        obtain rfl : n = .directory := hdir
        cases hfault
    have hmade := node?_foldl_withDirectory f p.dropLast (p.dropLast.length + 1)
    refine ⟨_, ?_, fun i hi => (hmade _).trans ?_, fun q hq => (hmade q).trans (if_neg ?_)⟩
    · unfold createDirectoryAt
      split
      · next heq => exact absurd (hnode.symm.trans heq) nofun
      · next heq => exact absurd (hnode.symm.trans heq) nofun
      · next heq => exact absurd heq hobstacle
      · rfl
    · rw [if_pos ⟨i, Nat.lt_succ_of_le hi, rfl⟩, habove i hi]
    · rintro ⟨i, hi, rfl⟩
      rw [List.length_take] at hq
      omega

variable {path text : String} {content : Content} {g : Files}

/-- Where nothing is in the way to a file, the file can be written again. -/
theorem room_of_obstacle? (hobstacle : f.obstacle? p = none) (hfile : f.node? p ≠ some .directory) :
    f.Room p where
  file := hfile
  above := fun i hi => by rw [obstacle?_eq_none_iff.mp hobstacle i hi]; rfl
  parent := fun _ i hi => by
    have hpos := List.length_pos_iff.mpr (ne_nil_of_node? hfile)
    rw [List.length_dropLast] at hi
    rw [List.dropLast_eq_take, List.take_take, Nat.min_eq_left hi]
    exact obstacle?_eq_none_iff.mp hobstacle i (by omega)

/-- A file is in nobody's way that was not in the way before. -/
theorem obstacle?_put (hobstacle : f.obstacle? p = none) (hfile : f.node? q ≠ some .directory) :
    (f.put q n).obstacle? p = none := by
  rw [obstacle?_eq_none_iff] at hobstacle ⊢
  intro i hi
  have hdirectory := hobstacle i hi
  rw [node?_put f (ne_nil_of_node? hfile), if_neg, hdirectory]
  rintro rfl
  exact hfile hdirectory

theorem write_eq_ok_iff : f.write path content = .ok g ↔ path ≠ "" ∧
    f.obstacle? (Path.place path) = none ∧ f.node? (Path.place path) ≠ some .directory ∧
      g = f.put (Path.place path) (.file content) := by
  unfold write writeAt
  constructor
  · intro h
    split_ifs at h with hpath
    split at h
    · cases h
    · next hobstacle =>
      split at h
      · cases h
      · next hfile =>
        cases h
        exact ⟨fun hempty => hpath (hempty ▸ rfl), hobstacle, hfile, rfl⟩
  · rintro ⟨hpath, hobstacle, hfile, rfl⟩
    rw [if_neg (fun hempty => hpath (String.isEmpty_iff.mp hempty))]
    simp only [hobstacle]

theorem exists_file_of_readText (h : f.readText path = .ok text) :
    path ≠ "" ∧ f.obstacle? (Path.place path) = none ∧
      ∃ content, f.node? (Path.place path) = some (.file content) := by
  have hread : ∃ content, f.read path = .ok content := by
    unfold readText at h
    split at h
    · cases h
    · exact ⟨_, ‹_›⟩
    · exact ⟨_, ‹_›⟩
  obtain ⟨content, hread⟩ := hread
  unfold read readAt at hread
  split_ifs at hread with hpath
  split at hread
  · cases hread
  · next hobstacle =>
    split at hread
    · next hnode => exact ⟨fun hempty => hpath (hempty ▸ rfl), hobstacle, _, hnode⟩
    · cases hread
    · cases hread

theorem readText_write (h : f.write path (.text text) = .ok g) : g.readText path = .ok text := by
  obtain ⟨hpath, hobstacle, hfile, rfl⟩ := write_eq_ok_iff.mp h
  have hread : (f.put (Path.place path) (.file (.text text))).read path = .ok (.text text) := by
    rw [read, if_neg (fun hempty => hpath (String.isEmpty_iff.mp hempty)), readAt,
      obstacle?_put hobstacle hfile, node?_put f (ne_nil_of_node? hfile), if_pos rfl]
  rw [readText, hread]

/-- Making directories only makes directories, where there was nothing. -/
theorem node?_of_createDirectoryAt (h : f.createDirectoryAt p = .ok g) (q : Place) :
    g.node? q = f.node? q ∨ f.node? q = none ∧ g.node? q = some .directory ∧ q.length ≤ p.length := by
  unfold createDirectoryAt at h
  split at h
  · cases h
    exact .inl rfl
  · cases h
  · cases h
  · cases h
    have hmade := node?_foldl_withDirectory f p (p.length + 1) q
    split_ifs at hmade with hq
    · obtain ⟨i, -, rfl⟩ := hq
      cases hnode : f.node? (p.take i) with
      | none =>
        rw [hnode] at hmade
        exact .inr ⟨rfl, hmade, by rw [List.length_take]; exact Nat.min_le_right _ _⟩
      | some n =>
        rw [hnode] at hmade
        exact .inl hmade
    · exact .inl hmade

/-- There is room for a file exactly if the directories can be made and then the file. -/
theorem exists_write_iff_room (content : Content) :
    (∃ g g', f.createDirectoryAt (Path.place path).dropLast = .ok g ∧ g.write path content = .ok g') ↔
      path ≠ "" ∧ f.Room (Path.place path) := by
  constructor
  · rintro ⟨g, g', hg, hwrite⟩
    obtain ⟨hpath, hobstacle, hfile, -⟩ := write_eq_ok_iff.mp hwrite
    have hroom := room_of_obstacle? hobstacle hfile
    have hnode := node?_of_createDirectoryAt hg
    have hpos := List.length_pos_iff.mpr (ne_nil_of_node? hfile)
    refine ⟨hpath, ?_, fun i hi => ?_, fun hparent => ?_⟩
    · obtain hsame | ⟨-, -, hlength⟩ := hnode (Path.place path)
      · rwa [← hsame]
      · rw [List.length_dropLast] at hlength
        omega
    · obtain hsame | ⟨hnone, -, -⟩ := hnode ((Path.place path).take i)
      · rw [← hsame]
        exact hroom.above i hi
      · rw [hnone]
        rfl
    · simp only [createDirectoryAt, hparent] at hg
      cases hg
      exact hroom.parent hparent
  · rintro ⟨hpath, hroom⟩
    obtain ⟨g, hg, hdirectory, hnode⟩ := createDirectoryAt_of_room hroom
    refine ⟨g, _, hg, write_eq_ok_iff.mpr ⟨hpath, ?_, ?_, rfl⟩⟩
    · rw [← List.dropLast_concat_getLast (ne_nil_of_node? hroom.file)]
      exact hdirectory.obstacle? _
    · rw [hnode _ (Nat.le_refl _)]
      exact hroom.file

end Files

end TeachPendant
