import TeachPendant.Operator
import TeachPendant.Point

namespace TeachPendant

open Number

mutual

/-- Register operands hold an index, so a copy of an operand refers to the same register. -/
inductive Operand
  | blank
  | number (x : Single)
  | flag (b : Bool)
  | data (index : UInt64)
  | io (index : UInt64)
  | position (index : UInt64)
  | component (index axis : UInt64)
  | point (p : Point)
  | pose (cartesian : Bool)
  | nested (e : Expression)

/-- A binary node, or a sequence of tokens as edited on a line. -/
inductive Expression
  | tree (left : Operand) (op : Operator) (right : Operand)
  | sequence (tokens : List Token)

inductive Token
  | operand (o : Operand)
  | operator (op : Operator)

end

instance : Inhabited Operand := ⟨.blank⟩

instance : Inhabited Token := ⟨.operand .blank⟩

/-- Alternating operands and operators when well formed. -/
abbrev Sequence := List Token

/-- The three ways in which an operand can be read. -/
inductive Kind
  | arithmetic
  | point
  | boolean
  deriving DecidableEq, Inhabited

def Kind.name : Kind → String
  | .arithmetic => "arithmetic"
  | .point => "point"
  | .boolean => "boolean"

/-- What an operand comes to. -/
inductive Value
  | number (x : Single)
  | flag (b : Bool)
  | point (p : Point)
  deriving DecidableEq, Inhabited

namespace Value

def kind : Value → Kind
  | .number _ => .arithmetic
  | .flag _ => .boolean
  | .point _ => .point

/-- Equality of values of one kind; numbers compare numerically. -/
def equal : Value → Value → Bool
  | .number x, .number y => x.equal y
  | .flag x, .flag y => x == y
  | .point x, .point y => x.equal y
  | _, _ => false

def toOperand : Value → Operand
  | .number x => .number x
  | .flag b => .flag b
  | .point p => .point p

end Value

namespace Operand

/-- The number under which an operand is saved. -/
def tag : Operand → Nat
  | .blank => 0
  | .number _ => 1
  | .flag _ => 2
  | .data _ => 3
  | .io _ => 4
  | .position _ => 5
  | .component _ _ => 6
  | .point _ => 7
  | .pose _ => 8
  | .nested (.tree _ _ _) => 9
  | .nested (.sequence _) => 10

/-- The way of reading that the operand itself implies; nested expressions imply none. -/
def kind? : Operand → Option Kind
  | .number _ | .data _ | .component _ _ => some .arithmetic
  | .flag _ | .io _ => some .boolean
  | .point _ | .position _ | .pose _ => some .point
  | .blank | .nested _ => none

def isBlank : Operand → Bool
  | .blank => true
  | _ => false

def sequence? : Operand → Option Sequence
  | .nested (.sequence tokens) => some tokens
  | _ => none

end Operand

namespace Token

def isOperand : Token → Bool
  | .operand _ => true
  | .operator _ => false

def sequence? : Token → Option Sequence
  | .operand o => o.sequence?
  | .operator _ => none

/-- The blank of the other kind, which may follow this token. -/
def blankAfter : Token → Token
  | .operand _ => .operator .blank
  | .operator _ => .operand .blank

end Token

mutual

/-- Structural equality in which numbers compare numerically. -/
def Operand.equal : Operand → Operand → Bool
  | .blank, .blank => true
  | .number x, .number y => x.equal y
  | .flag x, .flag y => x == y
  | .data i, .data j => i == j
  | .io i, .io j => i == j
  | .position i, .position j => i == j
  | .component i a, .component j b => i == j && a == b
  | .point p, .point q => p.equal q
  | .pose x, .pose y => x == y
  | .nested e, .nested g => e.equal g
  | _, _ => false

def Expression.equal : Expression → Expression → Bool
  | .tree l op r, .tree l' op' r' => l.equal l' && op == op' && r.equal r'
  | .sequence ts, .sequence us => equalTokens ts us
  | _, _ => false

def Token.equal : Token → Token → Bool
  | .operand o, .operand p => o.equal p
  | .operator op, .operator op' => op == op'
  | _, _ => false

def equalTokens : List Token → List Token → Bool
  | [], [] => true
  | t :: ts, u :: us => t.equal u && equalTokens ts us
  | _, _ => false

end

end TeachPendant
