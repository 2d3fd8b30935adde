import TeachPendant.Expression.Text
import TeachPendant.Sequence.Slots

namespace TeachPendant.Sequence

/-- The longest line the pendant can show, brackets included. -/
def maxDisplayLength : Nat := 21

/-- A freshly created line holds one blank operand. -/
def fresh : Sequence := [.operand .blank]

/-- Applies an edit to the level that a path leads to. -/
def modifyAt (edit : Sequence → Except Error Sequence) : List Nat → Sequence → Except Error Sequence
  | [], s => edit s
  | i :: path, s =>
    match s[i]? with
    | some (.operand (.nested (.sequence inner))) =>
      match modifyAt edit path inner with
      | .ok inner => .ok (s.set i (.operand (.nested (.sequence inner))))
      | .error e => .error e
    | _ => .error (.malformed s!"no nested sequence at {i}")

/-- The blank that goes in front of a line. -/
def blankBefore : Sequence → Token
  | .operand _ :: _ => .operator .blank
  | _ => .operand .blank

/-- The blank that goes to the end of a line. -/
def blankAtEnd (s : Sequence) : Token :=
  match s.getLast? with
  | some t => t.blankAfter
  | none => .operand .blank

/-- Puts the blank of the other kind after token `i` of a level. -/
def insertAfter (i : Nat) (s : Sequence) : Except Error Sequence :=
  match s[i]? with
  | some t => .ok (s.insertIdx (i + 1) t.blankAfter)
  | none => .error (.outside "edit index" i s.length)

/-- Inserts a blank: in front for slot -1, at the end for the slot of the closing bracket, and right
after the owner of the slot otherwise. -/
def insertAt (s : Sequence) (k : Int) : Except Error Sequence :=
  let total := s.totalLength
  if k < -1 ∨ (total : Int) - 2 < k then .error (.outOfRange "edit index" k (total - 1))
  else if maxDisplayLength < total + 1 then .error (.full "token sequence")
  else if k = -1 then .ok (s.blankBefore :: s)
  else if k = (total : Int) - 2 then .ok (s ++ [s.blankAtEnd])
  else
    match s.locate k.toNat with
    | .error e => .error e
    | .ok place => modifyAt (insertAfter place.slot.index) place.path s

/-- Drops token `i` of a level of at least two. -/
def dropToken (i : Nat) (s : Sequence) : Except Error Sequence :=
  if s.length ≤ 1 then .error .sequenceTooShort else .ok (s.eraseIdx i)

/-- Removes the token under a slot; on a bracket the whole nested sequence goes. -/
def removeAt (s : Sequence) (k : Nat) : Except Error Sequence :=
  match s.locate k with
  | .error e => .error e
  | .ok place => modifyAt (dropToken place.slot.index) place.path s

/-- Replaces the token under a slot by one of the same kind. -/
def replaceAt (s : Sequence) (k : Nat) (t : Token) : Except Error Sequence :=
  match s.locate k, s.elementAt k with
  | .error e, _ => .error e
  | _, .error e => .error e
  | .ok place, .ok current =>
    if current.isOperand != t.isOperand then
      .error (.mismatch ("cannot put " ++ t.text ++ " in place of " ++ current.text))
    else if maxDisplayLength < s.totalLength + (t.displayLength - current.displayLength) then
      .error (.full "token sequence")
    else modifyAt (fun level => .ok (level.set place.slot.index t)) place.path s

end TeachPendant.Sequence
