import TeachPendant.Error
import TeachPendant.Expression.Basic

namespace TeachPendant

mutual

/-- Slots that an operand takes. -/
def Operand.displayLength : Operand → Nat
  | .nested (.sequence tokens) => 2 + tokensLength tokens
  | _ => 1

def Token.displayLength : Token → Nat
  | .operand o => o.displayLength
  | .operator _ => 1

def tokensLength : List Token → Nat
  | [] => 0
  | t :: rest => t.displayLength + tokensLength rest

end

/-- Where a slot lands in a sequence: on a plain token, or on a bracket of a nested sequence. -/
inductive Slot
  | element (i : Nat)
  | opening (i : Nat)
  | closing (i : Nat)
  deriving DecidableEq, Inhabited

/-- The index of the token that owns the slot. -/
def Slot.index : Slot → Nat
  | .element i => i
  | .opening i => i
  | .closing i => i

/-- Indices of the nested sequences to walk through from the line, then the slot in the last one. -/
structure Location where
  path : List Nat
  slot : Slot
  deriving DecidableEq, Inhabited

namespace Sequence

/-- Slots between the brackets of the line. -/
def contentLength (s : Sequence) : Nat := tokensLength s

/-- Slots of the line, its own brackets included. -/
def totalLength (s : Sequence) : Nat := 2 + s.contentLength

/-- The token of this level that owns slot `k`, counting tokens from `i`. -/
def ownerFrom (i : Nat) : List Token → Nat → Option Nat
  | [], _ => none
  | t :: rest, k =>
    if k < t.displayLength then some i else ownerFrom (i + 1) rest (k - t.displayLength)

def owner? (s : Sequence) (k : Nat) : Option Nat := ownerFrom 0 s k

mutual

/-- Slot `k` of the token at index `i`: it descends where the slot lies strictly between the
brackets of a nested sequence. -/
def locateIn (i : Nat) : Token → Nat → Option Location
  | .operand (.nested (.sequence inner)), k =>
    if k = 0 then some ⟨[], .opening i⟩
    else if k ≤ tokensLength inner then
      (locateFrom 0 inner (k - 1)).map fun place => ⟨i :: place.path, place.slot⟩
    else some ⟨[], .closing i⟩
  | _, _ => some ⟨[], .element i⟩

/-- Walks the tokens of a level, counting them from `i`, to the owner of slot `k`. -/
def locateFrom (i : Nat) : List Token → Nat → Option Location
  | [], _ => none
  | t :: rest, k =>
    if k < t.displayLength then locateIn i t k else locateFrom (i + 1) rest (k - t.displayLength)

end

/-- Turns a slot into a path of nested sequences and a place in the last of them. -/
def locate (s : Sequence) (k : Nat) : Except Error Location :=
  match locateFrom 0 s k with
  | some place => .ok place
  | none => .error (.outside "edit index" k s.contentLength)

/-- The level that a path leads to. -/
def level (s : Sequence) : List Nat → Except Error Sequence
  | [] => .ok s
  | i :: path =>
    match s[i]? with
    | some (.operand (.nested (.sequence inner))) => level inner path
    | _ => .error (.malformed s!"no nested sequence at {i}")

/-- The token under a slot; a bracket gives the nested sequence. -/
def elementAt (s : Sequence) (k : Nat) : Except Error Token := do
  let place ← s.locate k
  let inner ← s.level place.path
  match inner[place.slot.index]? with
  | some t => .ok t
  | none => .error (.outside "edit index" k s.contentLength)

end Sequence

end TeachPendant
