import TeachPendant.Sequence.Slots

namespace TeachPendant

/-- A nested sequence as a token. -/
@[match_pattern] abbrev Token.group (inner : Sequence) : Token :=
  .operand (.nested (.sequence inner))

theorem Token.eq_group_of_sequence? {t : Token} {inner : Sequence}
    (h : t.sequence? = some inner) : t = .group inner := by
  unfold Token.sequence? Operand.sequence? at h
  split at h
  · split at h <;> cases h
    rfl
  · cases h

@[simp] theorem Token.displayLength_group (inner : Sequence) :
    (Token.group inner).displayLength = 2 + tokensLength inner := by
  simp [Token.displayLength, Operand.displayLength]

theorem Token.displayLength_plain {t : Token} (h : t.sequence? = none) : t.displayLength = 1 := by
  unfold Token.displayLength
  split
  · unfold Operand.displayLength
    split
    · cases h
    · rfl
  · rfl

theorem Token.displayLength_pos (t : Token) : 0 < t.displayLength := by
  cases h : t.sequence? with
  | none => simp [displayLength_plain h]
  | some inner =>
    rw [eq_group_of_sequence? h, displayLength_group]
    omega

/-- Induction over a level and all the levels nested in it. -/
theorem Sequence.induction {P : Sequence → Prop} (nil : P [])
    (plain : ∀ t rest, t.sequence? = none → P rest → P (t :: rest))
    (group : ∀ inner rest, P inner → P rest → P (.group inner :: rest)) (s : Sequence) : P s := by
  induction hn : sizeOf s using Nat.strongRecOn generalizing s with
  | ind n ih =>
    subst hn
    cases s with
    | nil => exact nil
    | cons t rest =>
      have hsize : sizeOf rest < sizeOf (t :: rest) := by
        rw [List.cons.sizeOf_spec]
        omega
      have hrest : P rest := ih (sizeOf rest) hsize rest rfl
      cases ht : t.sequence? with
      | none => exact plain t rest ht hrest
      | some inner =>
        obtain rfl := Token.eq_group_of_sequence? ht
        have hinner : sizeOf inner < sizeOf (Token.group inner :: rest) := by
          rw [List.cons.sizeOf_spec, Token.operand.sizeOf_spec, Operand.nested.sizeOf_spec,
            Expression.sequence.sizeOf_spec]
          omega
        exact group inner rest (ih (sizeOf inner) hinner inner rfl) hrest

namespace Sequence

/-- What is left and right of each nested sequence on the way to a level, the outermost first. -/
abbrev Surroundings := List (Sequence × Sequence)

namespace Surroundings

/-- The line in which a level stands. -/
def line : Surroundings → Sequence → Sequence
  | [], level => level
  | (left, right) :: around, level => left ++ .group (line around level) :: right

def path (around : Surroundings) : List Nat := around.map fun a => a.1.length

/-- The slots in front of the level. -/
def start : Surroundings → Nat
  | [] => 0
  | (left, _) :: around => tokensLength left + 1 + start around

theorem level_line (around : Surroundings) (level : Sequence) :
    (around.line level).level around.path = .ok level := by
  induction around with
  | nil => rfl
  | cons a around ih => simpa [line, path, Sequence.level] using ih

end Surroundings

/-- A token of a line or of a sequence nested in it, with everything around it. -/
structure Site where
  around : Surroundings
  before : Sequence
  token : Token
  after : Sequence

namespace Site

/-- The line with other tokens in place of this one. -/
def put (x : Site) (tokens : Sequence) : Sequence := x.around.line (x.before ++ tokens ++ x.after)

def line (x : Site) : Sequence := x.put [x.token]

/-- The level on which the token stands. -/
def level (x : Site) : Sequence := x.before ++ [x.token] ++ x.after

def path (x : Site) : List Nat := x.around.path

/-- The first slot of the token. -/
def start (x : Site) : Nat := x.around.start + tokensLength x.before

theorem level_line (x : Site) : x.line.level x.path = .ok x.level :=
  x.around.level_line _

/-- The same token seen from the line around its line. -/
def within (x : Site) (left right : Sequence) : Site :=
  { x with around := (left, right) :: x.around }

@[simp] theorem line_within (x : Site) (left right : Sequence) :
    (x.within left right).line = left ++ .group x.line :: right := rfl

@[simp] theorem path_within (x : Site) (left right : Sequence) :
    (x.within left right).path = left.length :: x.path := rfl

theorem start_within (x : Site) (left right : Sequence) :
    (x.within left right).start = tokensLength left + 1 + x.start := by
  simp only [start, within, Surroundings.start]
  omega

end Site

end Sequence

namespace Slot

/-- How far the slot is from the first slot of its token. -/
def offset : Slot → Token → Nat
  | .closing _, t => t.displayLength - 1
  | .element _, _ | .opening _, _ => 0

/-- Plain tokens have no brackets, and nested sequences have nothing else of their own. -/
def Fits : Slot → Token → Prop
  | .element _, t => t.sequence? = none
  | .opening _, t | .closing _, t => t.sequence?.isSome

theorem offset_lt (slot : Slot) (t : Token) : slot.offset t < t.displayLength := by
  have hpos := t.displayLength_pos
  cases slot <;> simp only [offset] <;> omega

end Slot

namespace Sequence

/-- What a slot of the token at index `i` is. -/
inductive SlotOf (i : Nat) : Token → Nat → Location → Prop
  | own {t : Token} {slot : Slot} (fits : slot.Fits t) (index : slot.index = i) :
      SlotOf i t (slot.offset t) ⟨[], slot⟩
  | inside {inner : Sequence} {k : Nat} {place : Location}
      (located : locateFrom 0 inner k = some place) :
      SlotOf i (.group inner) (k + 1) ⟨i :: place.path, place.slot⟩

theorem slotOf_locateIn {i k : Nat} {t : Token} {place : Location} (hk : k < t.displayLength)
    (h : locateIn i t k = some place) : SlotOf i t k place := by
  cases ht : t.sequence? with
  | none =>
    rw [Token.displayLength_plain ht] at hk
    obtain rfl : k = 0 := by omega
    have hplace : locateIn i t 0 = some ⟨[], .element i⟩ := by
      unfold locateIn
      split
      · cases ht
      · rfl
    rw [hplace] at h
    cases h
    have hfits : (Slot.element i).Fits t := ht
    exact .own hfits rfl
  | some inner =>
    obtain rfl := Token.eq_group_of_sequence? ht
    rw [Token.displayLength_group] at hk
    rw [locateIn] at h
    split at h
    · next h0 =>
      cases h
      subst h0
      have hfits : (Slot.opening i).Fits (.group inner) := rfl
      exact .own hfits rfl
    · split at h
      · next h0 _ =>
        obtain ⟨inside, hinside, rfl⟩ := Option.map_eq_some_iff.mp h
        obtain ⟨j, rfl⟩ := Nat.exists_eq_succ_of_ne_zero h0
        exact .inside hinside
      · cases h
        have hoffset : k = (Slot.closing i).offset (.group inner) := by
          simp only [Slot.offset, Token.displayLength_group]
          omega
        have hfits : (Slot.closing i).Fits (.group inner) := rfl
        rw [hoffset]
        exact .own hfits rfl

theorem locateFrom_eq_some {i k : Nat} {s : Sequence} {place : Location}
    (h : locateFrom i s k = some place) :
    ∃ before t after j, s = before ++ t :: after ∧ k = tokensLength before + j ∧
      SlotOf (i + before.length) t j place := by
  induction s generalizing i k with
  | nil => cases h
  | cons u rest ih =>
    rw [locateFrom] at h
    split at h
    · next hk => exact ⟨[], u, rest, k, rfl, by simp [tokensLength], slotOf_locateIn hk h⟩
    · next hk =>
      obtain ⟨before, t, after, j, rfl, hj, hslot⟩ := ih h
      refine ⟨u :: before, t, after, j, rfl, ?_, ?_⟩
      · rw [tokensLength]
        omega
      · rw [List.length_cons, show i + (before.length + 1) = i + 1 + before.length by omega]
        exact hslot

/-- Slot `k` of the line is a slot of the token picked out, and `place` says where that is. -/
structure Site.Owns (x : Site) (s : Sequence) (k : Nat) (place : Location) : Prop where
  line : x.line = s
  path : place.path = x.path
  index : place.slot.index = x.before.length
  fits : place.slot.Fits x.token
  slot : k = x.start + place.slot.offset x.token

theorem exists_owner {s : Sequence} {k : Nat} {place : Location} (h : s.locate k = .ok place) :
    ∃ x : Site, x.Owns s k place := by
  have hfrom : locateFrom 0 s k = some place := by
    unfold locate at h
    split at h <;> cases h
    assumption
  clear h
  obtain ⟨path, slot⟩ := place
  induction path generalizing s k with
  | nil =>
    obtain ⟨before, t, after, j, rfl, rfl, hslot⟩ := locateFrom_eq_some hfrom
    cases hslot with
    | own fits index =>
      refine ⟨⟨[], before, t, after⟩, ?_, rfl, ?_, fits, ?_⟩
      · simp [Site.line, Site.put, Surroundings.line]
      · simpa using index
      · simp [Site.start, Surroundings.start]
  | cons i path ih =>
    obtain ⟨before, t, after, j, rfl, rfl, hslot⟩ := locateFrom_eq_some hfrom
    cases hslot with
    | inside located =>
      obtain ⟨x, hx⟩ := ih located
      refine ⟨x.within before after, ?_, ?_, hx.index, hx.fits, ?_⟩
      · rw [Site.line_within, hx.line]
      · rw [Site.path_within, ← hx.path]
        simp
      · rw [Site.start_within, hx.slot]
        simp only [Site.within]
        omega

theorem Site.Owns.level {x : Site} {s : Sequence} {k : Nat} {place : Location}
    (h : x.Owns s k place) : s.level place.path = .ok x.level := by
  rw [← h.line, h.path]
  exact x.level_line

theorem Site.getElem?_level (x : Site) : x.level[x.before.length]? = some x.token := by
  simp [Site.level]

theorem Site.Owns.elementAt {x : Site} {s : Sequence} {k : Nat} {place : Location}
    (h : x.Owns s k place) (hk : s.locate k = .ok place) : s.elementAt k = .ok x.token := by
  simp only [Sequence.elementAt, hk, h.level, h.index, x.getElem?_level, bind, Except.bind]

end Sequence

end TeachPendant
