import Mathlib.Data.List.InsertIdx
import Mathlib.Data.List.Nodup
import TeachPendant.Proofs.Linking.Resolution

namespace TeachPendant

namespace Library

def names (l : Library) : List String := l.programs.map (·.name)

variable {l : Library} {name : String} {i : Nat}

theorem find?_eq_none_iff : l.find? name = none ↔ name ∉ l.names := by
  simp only [find?, names, List.findIdx?_eq_none_iff, List.mem_map, not_exists, not_and,
    beq_eq_false_iff_ne]

theorem getElem?_of_find? (h : l.find? name = some i) : l.names[i]? = some name := by
  obtain ⟨hi, hn, -⟩ := List.findIdx?_eq_some_iff_getElem.mp h
  simpa [names, hi] using hn

/-- A name that no other program has is found where it stands. -/
theorem find?_of_getElem? (hl : l.names.Nodup) (h : l.names[i]? = some name) :
    l.find? name = some i := by
  cases hf : l.find? name with
  | none => exact absurd (List.mem_of_getElem? h) (find?_eq_none_iff.mp hf)
  | some j =>
    have hj := getElem?_of_find? hf
    obtain ⟨hlt, -⟩ := List.getElem?_eq_some_iff.mp hj
    rw [(List.getElem?_inj hlt hl).mp (hj.trans h.symm)]

end Library

/-- The operations of a library. -/
inductive LibraryOperation
  | create (name : String)
  | add (p : Program)
  | remove (i : Nat)
  | rename (i : Nat) (name : String)

namespace LibraryOperation

def apply (l : Library) : LibraryOperation → Except Error Library
  | .create name => (l.create name).map (·.1)
  | .add p => (l.add p).map (·.1)
  | .remove i => (l.remove i).map (·.1)
  | .rename i name => l.rename i name

/-- The name is taken, by another program if one is renamed, or there is no program at the place. -/
def Refused (l : Library) : LibraryOperation → Prop
  | .create name => name ∈ l.names
  | .add p => p.name ∈ l.names
  | .remove i => l.length ≤ i
  | .rename i name => l.length ≤ i ∨ ∃ j, j ≠ i ∧ l.names[j]? = some name

/-- The names after an operation that is not refused. -/
def renamed (names : List String) : LibraryOperation → List String
  | .create name => names ++ [name]
  | .add p => names ++ [p.name]
  | .remove i => names.eraseIdx i
  | .rename i name => names.set i name

variable {l : Library}

theorem apply_add (p : Program) :
    p.name ∈ l.names ∧ (∃ e, (l.add p).map (·.1) = .error e) ∨
      p.name ∉ l.names ∧ ∃ l', (l.add p).map (·.1) = .ok l' ∧ l'.names = l.names ++ [p.name] := by
  unfold Library.add
  cases hf : l.find? p.name with
  | none =>
    exact Or.inr ⟨Library.find?_eq_none_iff.mp hf, _, rfl, List.map_append⟩
  | some i =>
    exact Or.inl ⟨List.mem_of_getElem? (Library.getElem?_of_find? hf), _, rfl⟩

theorem apply_rename (hl : l.names.Nodup) (i : Nat) (name : String) :
    (rename i name).Refused l ∧ (∃ e, l.rename i name = .error e) ∨
      ¬ (rename i name).Refused l ∧
        ∃ l', l.rename i name = .ok l' ∧ l'.names = l.names.set i name := by
  have hplace : l.length ≤ i ↔ l.get? i = none := List.getElem?_eq_none_iff.symm
  have hother : (∃ j, j ≠ i ∧ l.names[j]? = some name) ↔ (l.find? name).filter (· != i) ≠ none := by
    constructor
    · rintro ⟨j, hj, hn⟩
      simp [Library.find?_of_getElem? hl hn, hj]
    · intro hn
      obtain ⟨j, hj⟩ := Option.ne_none_iff_exists'.mp hn
      obtain ⟨hf, hj⟩ := Option.filter_eq_some_iff.mp hj
      exact ⟨j, by simpa using hj, Library.getElem?_of_find? hf⟩
  rw [Refused, hplace, hother]
  unfold Library.rename
  cases hf : (l.find? name).filter (· != i) with
  | some j => exact Or.inl ⟨Or.inr nofun, _, rfl⟩
  | none =>
    cases hp : l.get? i with
    | none => exact Or.inl ⟨Or.inl rfl, _, rfl⟩
    | some p => exact Or.inr ⟨by simp, _, rfl, List.map_set⟩

/-- Everything that an operation can be. -/
theorem apply_cases (hl : l.names.Nodup) (o : LibraryOperation) :
    o.Refused l ∧ (∃ e, o.apply l = .error e) ∨
      ¬ o.Refused l ∧ ∃ l', o.apply l = .ok l' ∧ l'.names = o.renamed l.names := by
  cases o with
  | create name => exact apply_add (.named name)
  | add p => exact apply_add p
  | remove i =>
    have hplace : l.length ≤ i ↔ l.get? i = none := List.getElem?_eq_none_iff.symm
    simp only [Refused, hplace, apply, Library.remove]
    cases l.get? i with
    | none => exact Or.inl ⟨rfl, _, rfl⟩
    | some p => exact Or.inr ⟨nofun, _, rfl, (List.eraseIdx_map _ _ _).symm⟩
  | rename i name => exact apply_rename hl i name

theorem nodup_renamed (hl : l.names.Nodup) {o : LibraryOperation} (ho : ¬ o.Refused l) :
    (o.renamed l.names).Nodup := by
  cases o with
  | create name =>
    rw [renamed, ← List.concat_eq_append]
    exact hl.concat ho
  | add p =>
    rw [renamed, ← List.concat_eq_append]
    exact hl.concat ho
  | remove i => exact hl.eraseIdx i
  | rename i name =>
    rw [renamed]
    by_cases hm : name ∈ l.names
    · -- Only the program that is renamed may have the name already.
      obtain ⟨j, hlt, hj⟩ := List.getElem_of_mem hm
      obtain rfl : j = i := by
        by_contra hne
        exact ho (Or.inr ⟨j, hne, List.getElem?_eq_some_iff.mpr ⟨hlt, hj⟩⟩)
      rwa [← hj, List.set_getElem_self]
    · exact hl.set hm

end LibraryOperation

namespace Library

/-- The library after an operation. One that fails leaves it as it is. -/
def perform (l : Library) (o : LibraryOperation) : Library :=
  match o.apply l with
  | .ok l' => l'
  | .error _ => l

/-- What becomes of a new library by operations. -/
def grown (os : List LibraryOperation) : Library := os.foldl perform {}

theorem nodup_perform {l : Library} (hl : l.names.Nodup) (o : LibraryOperation) :
    (l.perform o).names.Nodup := by
  unfold perform
  rcases o.apply_cases hl with ⟨-, e, he⟩ | ⟨ho, l', hl', hnames⟩
  · rwa [he]
  · rw [hl']
    show l'.names.Nodup
    rw [hnames]
    exact LibraryOperation.nodup_renamed hl ho

theorem nodup_grown (os : List LibraryOperation) : (grown os).names.Nodup := by
  have hperformed (l : Library) (hl : l.names.Nodup) : (os.foldl perform l).names.Nodup := by
    induction os generalizing l with
    | nil => exact hl
    | cons o os ih => exact ih _ (nodup_perform hl o)
  exact hperformed {} List.nodup_nil

end Library

namespace Linking

theorem lastNamed_cons (name : String) (i : Nat) (p : Program) (ps : List Program) :
    lastNamed name i (p :: ps) =
      (lastNamed name (i + 1) ps).or (if p.name = name then some i else none) := by
  rw [lastNamed]
  cases lastNamed name (i + 1) ps <;> rfl

theorem lastNamed_eq_none_iff (name : String) (i : Nat) (ps : List Program) :
    lastNamed name i ps = none ↔ (ps.map (·.name)).count name = 0 := by
  induction ps generalizing i with
  | nil => simp [lastNamed]
  | cons p ps ih =>
    rw [lastNamed_cons, Option.or_eq_none_iff, ih, List.map_cons, List.count_cons]
    by_cases hn : p.name = name <;> simp [hn]

/-- The last program of a name is the first one if there is no other. -/
theorem lastNamed_eq_findIdx?_iff (name : String) (i : Nat) (ps : List Program) :
    lastNamed name i ps = (ps.findIdx? (·.name == name)).map (· + i) ↔
      (ps.map (·.name)).count name ≤ 1 := by
  induction ps generalizing i with
  | nil => simp [lastNamed]
  | cons p ps ih =>
    rw [lastNamed_cons, List.findIdx?_cons, List.map_cons, List.count_cons]
    by_cases hn : p.name = name
    · have hlast := lastNamed_eq_none_iff name (i + 1) ps
      cases hr : lastNamed name (i + 1) ps with
      | none => simp [hn, hlast.mp hr]
      | some j =>
        obtain ⟨-, -, -, hj⟩ := lastNamed_some hr
        have hcount := mt hlast.mpr (by simp [hr])
        have hne : j ≠ i := by omega
        simp [hn, hne, hcount]
    · have hshift : ((ps.findIdx? (·.name == name)).map (· + 1)).map (· + i) =
          (ps.findIdx? (·.name == name)).map (· + (i + 1)) := by
        rw [Option.map_map]
        exact congrArg (Option.map · _) (funext fun k => by simp; omega)
      simpa [hn, hshift] using ih (i + 1)

theorem lastNamed_eq_find?_iff (l : Library) (name : String) :
    lastNamed name 0 l.programs = l.find? name ↔ l.names.count name ≤ 1 := by
  have h := lastNamed_eq_findIdx?_iff name 0 l.programs
  simpa [Library.find?, Library.names] using h

/-- A call is linked to the last program of its name in the library of its device. -/
theorem linkOf_eq (first second : Library) (t : CallTarget) :
    linkOf [first, second] t = ([first, second][t.device.toNat]?).bind fun l =>
      (lastNamed t.program 0 l.programs).map fun i => ⟨t.device, i⟩ := by
  rw [linkOf, linkFrom, linkFrom, linkFrom]
  rcases hn : t.device.toNat with _ | _ | n
  · simp only [List.getElem?_cons_zero, Option.bind_some]
    rfl
  · simp only [List.getElem?_cons_succ, List.getElem?_cons_zero, Option.bind_some]
    cases lastNamed t.program 0 second.programs <;> rfl
  · simp

end Linking

end TeachPendant
