import Mathlib.Data.List.Nodup
import TeachPendant.Proofs.Sequence.Sites

namespace TeachPendant

namespace Location

/-- The same place seen from the level around it, on which its line is token `i`. -/
def within (i : Nat) (place : Location) : Location := ⟨i :: place.path, place.slot⟩

/-- The token of the outermost level to which the place belongs. -/
def root (place : Location) : Nat := place.path.headD place.slot.index

theorem within_injective (i : Nat) : Function.Injective (within i) := by
  rintro ⟨path, slot⟩ ⟨path', slot'⟩ h
  simp only [within, Location.mk.injEq, List.cons.injEq, true_and] at h
  rw [h.1, h.2]

end Location

mutual

/-- The slots of the token at index `i`. -/
def layoutIn (i : Nat) : Token → List Location
  | .operand (.nested (.sequence inner)) =>
    ⟨[], .opening i⟩ :: (layoutFrom 0 inner).map (Location.within i) ++ [⟨[], .closing i⟩]
  | _ => [⟨[], .element i⟩]

/-- The slots of the tokens of a level, which are counted from `i`. -/
def layoutFrom (i : Nat) : List Token → List Location
  | [] => []
  | t :: rest => layoutIn i t ++ layoutFrom (i + 1) rest

end

namespace Sequence

def layout (s : Sequence) : List Location := layoutFrom 0 s

/-- The level to which a path of indices of nested sequences leads. -/
def walk? (s : Sequence) (path : List Nat) : Option Sequence :=
  path.foldlM (fun level i => level[i]?.bind Token.sequence?) s

theorem layoutIn_plain (i : Nat) {t : Token} (h : t.sequence? = none) :
    layoutIn i t = [⟨[], .element i⟩] := by
  unfold layoutIn
  split
  · cases h
  · rfl

theorem locateIn_plain (i k : Nat) {t : Token} (h : t.sequence? = none) :
    locateIn i t k = some ⟨[], .element i⟩ := by
  unfold locateIn
  split
  · cases h
  · rfl

theorem layoutIn_group (i : Nat) (inner : Sequence) : layoutIn i (.group inner) =
    ⟨[], .opening i⟩ :: inner.layout.map (Location.within i) ++ [⟨[], .closing i⟩] := by
  rw [layoutIn, layout]

theorem length_layoutFrom (i : Nat) (s : Sequence) : (layoutFrom i s).length = tokensLength s := by
  induction s using Sequence.induction generalizing i with
  | nil => rfl
  | plain t rest ht ih =>
    rw [layoutFrom, layoutIn_plain i ht, tokensLength, Token.displayLength_plain ht,
      List.length_append, ih]
    rfl
  | group inner rest ihInner ih =>
    rw [layoutFrom, layoutIn_group, layout, tokensLength, Token.displayLength_group]
    simp only [List.cons_append, List.length_cons, List.length_append, List.length_map,
      List.length_nil, ihInner, ih]
    omega

theorem length_layoutIn (i : Nat) (t : Token) : (layoutIn i t).length = t.displayLength := by
  have h := length_layoutFrom i [t]
  simpa [layoutFrom, tokensLength] using h

/-- Locating a slot is looking it up in the layout. -/
theorem locateFrom_eq_getElem? (i k : Nat) (s : Sequence) :
    locateFrom i s k = (layoutFrom i s)[k]? := by
  induction s using Sequence.induction generalizing i k with
  | nil => rfl
  | plain t rest ht ih =>
    rw [locateFrom, layoutFrom, List.getElem?_append, length_layoutIn, ih,
      locateIn_plain i k ht, layoutIn_plain i ht, Token.displayLength_plain ht]
    split
    · next hk =>
      obtain rfl : k = 0 := by omega
      rfl
    · rfl
  | group inner rest ihInner ih =>
    rw [locateFrom, layoutFrom, List.getElem?_append, length_layoutIn, ih]
    split
    · next hk =>
      rw [Token.displayLength_group] at hk
      have hlength : (layoutFrom 0 inner).length = tokensLength inner := length_layoutFrom 0 inner
      rw [locateIn, layoutIn_group, layout]
      cases k with
      | zero => rfl
      | succ j =>
        rw [if_neg (Nat.succ_ne_zero j), Nat.add_sub_cancel, ihInner, List.cons_append,
          List.getElem?_cons_succ]
        by_cases hj : j < tokensLength inner
        · rw [if_pos (by omega), List.getElem?_append_left (by simpa [hlength] using hj),
            List.getElem?_map]
          rfl
        · obtain rfl : j = tokensLength inner := by omega
          rw [if_neg (by omega), List.getElem?_append_right (by simp [hlength])]
          simp [hlength]
    · rfl

theorem locate_eq_ok_iff (s : Sequence) (k : Nat) (place : Location) :
    s.locate k = .ok place ↔ s.layout[k]? = some place := by
  rw [locate, layout, ← locateFrom_eq_getElem?]
  cases locateFrom 0 s k <;> simp

theorem root_of_mem_layoutIn {i : Nat} {t : Token} {place : Location} (h : place ∈ layoutIn i t) :
    place.root = i := by
  cases ht : t.sequence? with
  | none =>
    rw [layoutIn_plain i ht, List.mem_singleton] at h
    rw [h]
    rfl
  | some inner =>
    obtain rfl := Token.eq_group_of_sequence? ht
    simp only [layoutIn_group, List.cons_append, List.mem_cons, List.mem_append, List.mem_map,
      List.not_mem_nil, or_false] at h
    obtain rfl | ⟨place, -, rfl⟩ | rfl := h <;> rfl

/-- The token that owns a slot is the first step of the way to it. -/
theorem ownerFrom_eq_root (i k : Nat) (s : Sequence) :
    ownerFrom i s k = ((layoutFrom i s)[k]?).map Location.root := by
  induction s generalizing i k with
  | nil => rfl
  | cons t rest ih =>
    rw [ownerFrom, layoutFrom, List.getElem?_append, length_layoutIn, ih]
    split
    · next hk =>
      rw [← length_layoutIn i t] at hk
      rw [List.getElem?_eq_getElem hk, Option.map_some, root_of_mem_layoutIn (List.getElem_mem hk)]
    · rfl

theorem le_root {i : Nat} {s : Sequence} {place : Location} (h : place ∈ layoutFrom i s) :
    i ≤ place.root := by
  induction s generalizing i with
  | nil => cases h
  | cons t rest ih =>
    rw [layoutFrom, List.mem_append] at h
    rcases h with h | h
    · exact Nat.le_of_eq (root_of_mem_layoutIn h).symm
    · have hle := ih h
      omega

/-- Places of different tokens differ in their roots, and those of one token in what they are. -/
theorem nodup_layoutFrom (i : Nat) (s : Sequence) : (layoutFrom i s).Nodup := by
  have happend {i : Nat} {t : Token} {rest : Sequence} (ht : (layoutIn i t).Nodup)
      (hrest : (layoutFrom (i + 1) rest).Nodup) : (layoutFrom i (t :: rest)).Nodup := by
    rw [layoutFrom]
    refine ht.append hrest ?_
    intro place hplace hplace'
    have hroot := root_of_mem_layoutIn hplace
    have hle := le_root hplace'
    omega
  induction s using Sequence.induction generalizing i with
  | nil => exact List.nodup_nil
  | plain t rest ht ih =>
    refine happend ?_ (ih (i + 1))
    rw [layoutIn_plain i ht]
    exact List.nodup_singleton _
  | group inner rest ihInner ih =>
    refine happend ?_ (ih (i + 1))
    have hinner : (inner.layout.map (Location.within i)).Nodup :=
      (ihInner 0).map (Location.within_injective i)
    rw [layoutIn_group, List.cons_append, List.nodup_cons]
    constructor
    · simp [Location.within]
    · refine hinner.append (List.nodup_singleton _) ?_
      simp [Location.within]

theorem level_eq_ok_iff (s : Sequence) (path : List Nat) (inner : Sequence) :
    s.level path = .ok inner ↔ s.walk? path = some inner := by
  induction path generalizing s with
  | nil => simp [level, walk?]
  | cons i path ih =>
    have hstep : s.walk? (i :: path) =
        (s[i]?.bind Token.sequence?).bind fun nested => nested.walk? path := rfl
    rw [level, hstep]
    split
    · next nested hi => simpa [hi, Token.sequence?, Operand.sequence?] using ih nested
    · next hi =>
      have hnone : s[i]?.bind Token.sequence? = none := by
        rw [Option.bind_eq_none_iff]
        intro t ht
        by_contra hsome
        obtain ⟨nested, hnested⟩ := Option.ne_none_iff_exists'.mp hsome
        rw [Token.eq_group_of_sequence? hnested] at ht
        exact hi nested ht
      simp [hnone]

theorem length_layout (s : Sequence) : s.layout.length = s.contentLength :=
  length_layoutFrom 0 s

theorem locate_of_le {s : Sequence} {k : Nat} (h : s.contentLength ≤ k) :
    s.locate k = .error (.outside "edit index" k s.contentLength) := by
  have hnone : s.layout[k]? = none := by
    rw [List.getElem?_eq_none_iff, length_layout]
    exact h
  rw [locate, locateFrom_eq_getElem?, ← layout, hnone]

theorem locate_of_lt {s : Sequence} {k : Nat} (h : k < s.contentLength) :
    ∃ place, s.locate k = .ok place := by
  rw [← length_layout] at h
  exact ⟨s.layout[k], (locate_eq_ok_iff s k _).mpr (List.getElem?_eq_getElem h)⟩

/-- The owners of all slots: every token, by its index, as often as it has slots. -/
def ownersFrom (i : Nat) (s : Sequence) : List Nat :=
  (s.zipIdx i).flatMap fun (t, j) => List.replicate t.displayLength j

theorem ownersFrom_cons (i : Nat) (t : Token) (rest : Sequence) :
    ownersFrom i (t :: rest) = List.replicate t.displayLength i ++ ownersFrom (i + 1) rest := by
  simp [ownersFrom, List.zipIdx_cons]

theorem map_root_layoutFrom (i : Nat) (s : Sequence) :
    (layoutFrom i s).map Location.root = ownersFrom i s := by
  induction s generalizing i with
  | nil => rfl
  | cons t rest ih =>
    have hroots : (layoutIn i t).map Location.root = List.replicate t.displayLength i := by
      rw [List.eq_replicate_iff, List.length_map, length_layoutIn]
      refine ⟨rfl, ?_⟩
      intro j hj
      obtain ⟨place, hplace, rfl⟩ := List.mem_map.mp hj
      exact root_of_mem_layoutIn hplace
    rw [layoutFrom, List.map_append, hroots, ih, ownersFrom_cons]

/-- A token is first found in the table behind the slots of the tokens in front of it. -/
theorem idxOf_ownersFrom (i : Nat) (before : Sequence) (t : Token) (after : Sequence) :
    (ownersFrom i (before ++ t :: after)).idxOf (i + before.length) = tokensLength before := by
  induction before generalizing i with
  | nil =>
    obtain ⟨n, hn⟩ := Nat.exists_eq_succ_of_ne_zero (Nat.ne_of_gt t.displayLength_pos)
    simp [ownersFrom_cons, hn, List.replicate_succ, tokensLength]
  | cons u before ih =>
    have hne : i + (before.length + 1) ∉ List.replicate u.displayLength i := by
      intro hmem
      have heq := List.eq_of_mem_replicate hmem
      omega
    rw [List.cons_append, ownersFrom_cons, List.length_cons, List.idxOf_append_of_notMem hne,
      List.length_replicate, tokensLength,
      show i + (before.length + 1) = i + 1 + before.length by omega, ih]

/-- One step of locating by the table of owners: the slots of a token begin where the table first
names it. -/
theorem locate_eq_of_owner {s : Sequence} {k i : Nat} (h : (ownersFrom 0 s)[k]? = some i) :
    s.locate k = match s[i]?.bind Token.sequence? with
      | none => .ok ⟨[], .element i⟩
      | some inner =>
        if k = (ownersFrom 0 s).idxOf i then .ok ⟨[], .opening i⟩
        else if k = (ownersFrom 0 s).idxOf i + inner.totalLength - 1 then .ok ⟨[], .closing i⟩
        else (inner.locate (k - (ownersFrom 0 s).idxOf i - 1)).map (Location.within i) := by
  rw [← map_root_layoutFrom, List.getElem?_map] at h
  obtain ⟨place, hplace, hroot⟩ := Option.map_eq_some_iff.mp h
  have hlocate : s.locate k = .ok place := (locate_eq_ok_iff s k place).mpr hplace
  rw [← locateFrom_eq_getElem?] at hplace
  obtain ⟨before, t, after, j, rfl, rfl, hslot⟩ := locateFrom_eq_some hplace
  rw [Nat.zero_add] at hslot
  rw [hlocate]
  have hstart := idxOf_ownersFrom 0 before t after
  rw [Nat.zero_add] at hstart
  cases hslot with
  | @own _ slot fits index =>
    obtain rfl : before.length = i := index.symm.trans hroot
    rw [hstart, List.getElem?_append_right (Nat.le_refl _), Nat.sub_self, List.getElem?_cons_zero,
      Option.bind_some]
    cases slot with
    | element n =>
      obtain rfl : n = before.length := index
      rw [show t.sequence? = none from fits]
    | opening n =>
      obtain rfl : n = before.length := index
      obtain ⟨inner, hinner⟩ := Option.isSome_iff_exists.mp fits
      rw [hinner]
      simp [Slot.offset]
    | closing n =>
      obtain rfl : n = before.length := index
      obtain ⟨inner, hinner⟩ := Option.isSome_iff_exists.mp fits
      obtain rfl := Token.eq_group_of_sequence? hinner
      rw [hinner, Slot.offset, Token.displayLength_group]
      dsimp only
      rw [if_neg (by omega), if_pos (by simp only [totalLength, contentLength]; omega)]
  | @inside inner k place located =>
    obtain rfl : before.length = i := hroot
    have hk : k < tokensLength inner := by
      rw [locateFrom_eq_getElem?] at located
      have hlt := (List.getElem?_eq_some_iff.mp located).1
      rwa [length_layoutFrom] at hlt
    have hinner : inner.locate k = .ok place := by rw [locate, located]
    rw [hstart, List.getElem?_append_right (Nat.le_refl _), Nat.sub_self, List.getElem?_cons_zero,
      Option.bind_some]
    simp only [Token.sequence?, Operand.sequence?]
    rw [if_neg (by omega), if_neg (by simp only [totalLength, contentLength]; omega),
      show tokensLength before + (k + 1) - tokensLength before - 1 = k by omega, hinner]
    rfl

/-- The slots of a line are exactly those of its layout. -/
theorem locate_layout (s : Sequence) :
    s.layout.length + 2 = s.totalLength ∧ s.layout.Nodup ∧
      (∀ k place, s.layout[k]? = some place →
        s.locate k = .ok place ∧
        s.owner? k = some (place.path.headD place.slot.index) ∧
        ∃ t, (s.walk? place.path).bind (·[place.slot.index]?) = some t ∧ s.elementAt k = .ok t) ∧
      ∀ k, s.layout.length ≤ k →
        s.locate k = .error (.outside "edit index" k s.layout.length) ∧
        s.owner? k = none ∧
        s.elementAt k = .error (.outside "edit index" k s.layout.length) := by
  refine ⟨?_, nodup_layoutFrom 0 s, ?_, ?_⟩
  · rw [length_layout, totalLength]
    omega
  · intro k place hk
    have hlocate : s.locate k = .ok place := (locate_eq_ok_iff s k place).mpr hk
    obtain ⟨x, hx⟩ := exists_owner hlocate
    have hwalk : s.walk? place.path = some x.level := (level_eq_ok_iff s _ _).mp hx.level
    refine ⟨hlocate, ?_, x.token, ?_, hx.elementAt hlocate⟩
    · rw [owner?, ownerFrom_eq_root, ← layout, hk]
      rfl
    · rw [hwalk, Option.bind_some, hx.index, x.getElem?_level]
  · intro k hk
    have hlocate := locate_of_le (length_layout s ▸ hk)
    have hnone : s.layout[k]? = none := List.getElem?_eq_none_iff.mpr hk
    rw [length_layout]
    refine ⟨hlocate, ?_, ?_⟩
    · rw [owner?, ownerFrom_eq_root, ← layout, hnone]
      rfl
    · simp only [elementAt, hlocate, bind, Except.bind]

end Sequence

end TeachPendant
