import TeachPendant.Proofs.Sequence.Sites

namespace TeachPendant

inductive Symbol
  | token (t : Token)
  | opening
  | closing

mutual

def Token.symbols : Token → List Symbol
  | .operand (.nested (.sequence inner)) => .opening :: tokenSymbols inner ++ [.closing]
  | t => [.token t]

def tokenSymbols : List Token → List Symbol
  | [] => []
  | t :: rest => t.symbols ++ tokenSymbols rest

end

/-- The line as it is displayed, without its own brackets. -/
def Sequence.flat (s : Sequence) : List Symbol := tokenSymbols s

namespace Symbol

/-- What the symbol is when a line is read from its end. -/
def mirror : Symbol → Symbol
  | .opening => .closing
  | .closing => .opening
  | .token t => .token t

/-- The blank that goes beside a symbol, or into a line without any. Brackets belong to an
operand. -/
def blankBeside : Option Symbol → Token
  | none | some (.token (.operator _)) => .operand .blank
  | some (.token (.operand _)) | some .opening | some .closing => .operator .blank

/-- How many symbols go by until `depth` open brackets are closed. -/
def untilClosed : Nat → List Symbol → Nat
  | 0, _ | _ + 1, [] => 0
  | depth + 1, .token _ :: rest => untilClosed (depth + 1) rest + 1
  | depth + 1, .opening :: rest => untilClosed (depth + 2) rest + 1
  | depth + 1, .closing :: rest => untilClosed depth rest + 1

/-- The first symbol of what belongs to symbol `k`: the matching bracket if that is a closing one. -/
def groupStart (flat : List Symbol) (k : Nat) : Nat :=
  match flat[k]? with
  | some .closing => k - untilClosed 1 ((flat.take k).reverse.map mirror)
  | _ => k

/-- The end of what belongs to symbol `k`: behind the matching bracket if that is an opening one. -/
def groupEnd (flat : List Symbol) (k : Nat) : Nat :=
  match flat[k]? with
  | some .opening => k + 1 + untilClosed 1 (flat.drop (k + 1))
  | _ => k + 1

/-- Other symbols in place of those from `i` up to `j`. -/
def splice (flat : List Symbol) (i j : Nat) (symbols : List Symbol) : List Symbol :=
  flat.take i ++ symbols ++ flat.drop j

/-- Symbols that close as many brackets as they open, and none that was open before. -/
def Balanced (flat : List Symbol) : Prop :=
  ∀ depth rest, untilClosed (depth + 1) (flat ++ rest) = flat.length + untilClosed (depth + 1) rest

namespace Balanced

theorem nil : Balanced [] := by
  intro depth rest
  simp

theorem token (t : Token) : Balanced [.token t] := by
  intro depth rest
  rw [List.singleton_append, untilClosed, List.length_singleton]
  omega

theorem append {a b : List Symbol} (ha : Balanced a) (hb : Balanced b) : Balanced (a ++ b) := by
  intro depth rest
  rw [List.append_assoc, ha, hb, List.length_append]
  omega

theorem enclosed {a : List Symbol} (ha : Balanced a) :
    Balanced (.opening :: a ++ [.closing]) := by
  intro depth rest
  simp only [List.cons_append, List.append_assoc, List.nil_append, untilClosed, ha depth.succ,
    List.length_cons, List.length_append, List.length_nil]
  omega

end Balanced

end Symbol

namespace Sequence

open TeachPendant.Symbol

theorem symbols_plain {t : Token} (h : t.sequence? = none) : t.symbols = [.token t] := by
  unfold Token.symbols
  split
  · cases h
  · rfl

theorem symbols_group (inner : Sequence) :
    (Token.group inner).symbols = .opening :: inner.flat ++ [.closing] := by
  rw [Token.symbols, flat]

@[simp] theorem flat_nil : flat [] = [] := rfl

theorem flat_cons (t : Token) (rest : Sequence) : flat (t :: rest) = t.symbols ++ rest.flat := by
  rw [flat, tokenSymbols, flat]

@[simp] theorem flat_append (a b : Sequence) : flat (a ++ b) = a.flat ++ b.flat := by
  induction a with
  | nil => rfl
  | cons t a ih => rw [List.cons_append, flat_cons, flat_cons, ih, List.append_assoc]

theorem flat_singleton (t : Token) : flat [t] = t.symbols := by simp [flat_cons]

theorem length_flat (s : Sequence) : s.flat.length = s.contentLength := by
  induction s using Sequence.induction with
  | nil => rfl
  | plain t rest ht ih =>
    rw [flat_cons, symbols_plain ht, List.length_append, ih, contentLength, contentLength,
      tokensLength, Token.displayLength_plain ht, List.length_singleton]
  | group inner rest ihInner ih =>
    rw [flat_cons, symbols_group, contentLength, tokensLength, Token.displayLength_group]
    simp only [List.cons_append, List.length_cons, List.length_append, List.length_nil, ihInner, ih,
      contentLength]
    omega

theorem length_symbols (t : Token) : t.symbols.length = t.displayLength := by
  have h := length_flat [t]
  simpa [flat_singleton, contentLength, tokensLength] using h

theorem balanced_flat (s : Sequence) : Balanced s.flat := by
  induction s using Sequence.induction with
  | nil => exact .nil
  | plain t rest ht ih =>
    rw [flat_cons, symbols_plain ht]
    exact (Balanced.token t).append ih
  | group inner rest ihInner ih =>
    rw [flat_cons, symbols_group]
    exact ihInner.enclosed.append ih

/-- Read from its end, a line is balanced too. -/
theorem balanced_mirror_flat (s : Sequence) : Balanced (s.flat.reverse.map mirror) := by
  induction s using Sequence.induction with
  | nil => exact .nil
  | plain t rest ht ih =>
    rw [flat_cons, symbols_plain ht, List.reverse_append, List.map_append]
    exact ih.append (Balanced.token t)
  | group inner rest ihInner ih =>
    rw [flat_cons, symbols_group, List.reverse_append, List.map_append]
    refine ih.append ?_
    simpa [mirror] using ihInner.enclosed

namespace Surroundings

/-- The symbols in front of the level. -/
def left : Surroundings → List Symbol
  | [] => []
  | (before, _) :: around => before.flat ++ .opening :: left around

/-- The symbols behind the level. -/
def right : Surroundings → List Symbol
  | [] => []
  | (_, after) :: around => right around ++ .closing :: after.flat

theorem flat_line (around : Surroundings) (level : Sequence) :
    (around.line level).flat = around.left ++ level.flat ++ around.right := by
  induction around with
  | nil => simp [line, left, right]
  | cons a around ih =>
    obtain ⟨before, after⟩ := a
    simp [line, left, right, flat_cons, symbols_group, ih]

theorem length_left (around : Surroundings) : around.left.length = around.start := by
  induction around with
  | nil => rfl
  | cons a around ih =>
    obtain ⟨before, after⟩ := a
    simp only [left, start, List.length_append, List.length_cons, length_flat, contentLength, ih]
    omega

end Surroundings

namespace Site

/-- The symbols in front of the token. -/
def left (x : Site) : List Symbol := x.around.left ++ x.before.flat

/-- The symbols behind the token. -/
def right (x : Site) : List Symbol := x.after.flat ++ x.around.right

theorem flat_put (x : Site) (tokens : Sequence) :
    (x.put tokens).flat = x.left ++ tokens.flat ++ x.right := by
  simp [put, left, right, Surroundings.flat_line]

theorem flat_line (x : Site) : x.line.flat = x.left ++ x.token.symbols ++ x.right := by
  rw [line, flat_put, flat_singleton]

theorem length_left (x : Site) : x.left.length = x.start := by
  simp [left, start, Surroundings.length_left, length_flat, contentLength]

/-- Other symbols in place of those of the token. -/
theorem splice_flat (x : Site) (symbols : List Symbol) :
    splice x.line.flat x.start (x.start + x.token.displayLength) symbols =
      x.left ++ symbols ++ x.right := by
  rw [flat_line, ← length_left, ← length_symbols, splice, ← List.length_append,
    List.drop_left, List.append_assoc x.left, List.take_left]

namespace Owns

variable {x : Site} {s : Sequence} {k : Nat} {place : Location}

theorem flat_eq (h : x.Owns s k place) : s.flat = x.left ++ x.token.symbols ++ x.right := by
  rw [← h.line, flat_line]

/-- The symbol under the slot. -/
theorem symbol (h : x.Owns s k place) : s.flat[k]? = match place.slot with
    | .element _ => some (.token x.token)
    | .opening _ => some .opening
    | .closing _ => some .closing := by
  have hoffset : s.flat[k]? = x.token.symbols[place.slot.offset x.token]? := by
    have hlt := place.slot.offset_lt x.token
    rw [h.flat_eq, h.slot, List.append_assoc, List.getElem?_append_right (by simp [length_left]),
      List.getElem?_append_left (by rw [length_symbols, length_left]; omega), length_left]
    congr 1
    omega
  rw [hoffset]
  have hfits := h.fits
  cases hslot : place.slot with
  | element i =>
    rw [hslot] at hfits
    simp [symbols_plain hfits, Slot.offset]
  | opening i =>
    rw [hslot] at hfits
    obtain ⟨inner, hinner⟩ := Option.isSome_iff_exists.mp hfits
    simp [Token.eq_group_of_sequence? hinner, symbols_group, Slot.offset]
  | closing i =>
    rw [hslot] at hfits
    obtain ⟨inner, hinner⟩ := Option.isSome_iff_exists.mp hfits
    have hlength : (Symbol.opening :: inner.flat).length = tokensLength inner + 1 := by
      rw [List.length_cons, length_flat, contentLength]
    have hlast : 2 + tokensLength inner - 1 - (tokensLength inner + 1) = 0 := by omega
    rw [Token.eq_group_of_sequence? hinner, symbols_group, Slot.offset, Token.displayLength_group,
      List.getElem?_append_right (by omega), hlength, hlast]
    rfl

/-- What belongs to the symbol under the slot are the symbols of the token. -/
theorem group (h : x.Owns s k place) : groupStart s.flat k = x.start ∧
    groupEnd s.flat k = x.start + x.token.displayLength := by
  have hfits := h.fits
  have hk := h.slot
  rw [groupStart, groupEnd, h.symbol]
  cases hslot : place.slot with
  | element i =>
    rw [hslot] at hfits hk
    rw [Slot.offset] at hk
    rw [Token.displayLength_plain hfits]
    exact ⟨hk, by rw [hk]⟩
  | opening i =>
    rw [hslot] at hfits hk
    obtain ⟨inner, hinner⟩ := Option.isSome_iff_exists.mp hfits
    have htoken := Token.eq_group_of_sequence? hinner
    have hdrop : s.flat.drop (k + 1) = inner.flat ++ .closing :: x.right := by
      have hsplit : s.flat = (x.left ++ [.opening]) ++ (inner.flat ++ .closing :: x.right) := by
        rw [h.flat_eq, htoken, symbols_group]
        simp
      rw [hsplit, List.drop_left']
      simp [length_left, hk, Slot.offset]
    refine ⟨hk, ?_⟩
    dsimp only
    rw [hdrop, inner.balanced_flat, untilClosed, untilClosed, htoken, Token.displayLength_group, hk,
      length_flat, contentLength, Slot.offset]
    omega
  | closing i =>
    rw [hslot] at hfits hk
    obtain ⟨inner, hinner⟩ := Option.isSome_iff_exists.mp hfits
    have htoken := Token.eq_group_of_sequence? hinner
    rw [Slot.offset, htoken, Token.displayLength_group] at hk
    have htake : s.flat.take k = x.left ++ .opening :: inner.flat := by
      have hsplit : s.flat = (x.left ++ .opening :: inner.flat) ++ (.closing :: x.right) := by
        rw [h.flat_eq, htoken, symbols_group]
        simp
      rw [hsplit, List.take_left']
      simp [length_left, length_flat, contentLength, hk]
      omega
    have hclosed : untilClosed 1 ((s.flat.take k).reverse.map mirror) = tokensLength inner + 1 := by
      rw [htake, List.reverse_append, List.reverse_cons, List.append_assoc, List.map_append,
        inner.balanced_mirror_flat]
      simp [mirror, untilClosed, length_flat, contentLength]
    dsimp only
    rw [hclosed, htoken, Token.displayLength_group]
    omega

/-- The blank beside the symbol under the slot is the one that follows the token. -/
theorem blankBeside (h : x.Owns s k place) : blankBeside s.flat[k]? = x.token.blankAfter := by
  have hfits := h.fits
  rw [h.symbol]
  cases hslot : place.slot with
  | element i => cases x.token <;> rfl
  | opening i | closing i =>
    rw [hslot] at hfits
    obtain ⟨inner, hinner⟩ := Option.isSome_iff_exists.mp hfits
    rw [Token.eq_group_of_sequence? hinner]
    rfl

end Owns

end Site

end Sequence

end TeachPendant
