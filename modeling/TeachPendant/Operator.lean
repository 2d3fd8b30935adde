namespace TeachPendant

inductive Operator
  | add
  | sub
  | mul
  | div
  | mod
  | intDiv
  | eq
  | ne
  | gt
  | lt
  | ge
  | le
  | and
  | or
  | not
  | blank
  deriving DecidableEq, Inhabited

namespace Operator

def all : List Operator :=
  [.add, .sub, .mul, .div, .mod, .intDiv, .eq, .ne, .gt, .lt, .ge, .le, .and, .or, .not, .blank]

def id : Operator → UInt8
  | .add => 0
  | .sub => 1
  | .mul => 2
  | .div => 3
  | .mod => 4
  | .intDiv => 5
  | .eq => 6
  | .ne => 7
  | .gt => 8
  | .lt => 9
  | .ge => 10
  | .le => 11
  | .and => 12
  | .or => 13
  | .not => 14
  | .blank => 255

def ofId? (n : UInt8) : Option Operator := all.find? (·.id == n)

@[simp] theorem ofId?_id (op : Operator) : ofId? op.id = some op := by cases op <;> rfl

def symbol : Operator → String
  | .add => "+"
  | .sub => "-"
  | .mul => "*"
  | .div => "/"
  | .mod => "MOD"
  | .intDiv => "DIV"
  | .eq => "="
  | .ne => "<>"
  | .gt => ">"
  | .lt => "<"
  | .ge => ">="
  | .le => "<="
  | .and => "AND"
  | .or => "OR"
  | .not => "NOT"
  | .blank => "..."

/-- A line starts out with a blank operator. -/
def initial : Operator := .blank

/-- What is said of a number that names no operator. -/
def unknownId (n : UInt8) : String := s!"unknown operator id {n}"

end Operator

end TeachPendant
