import TeachPendant.Context
import TeachPendant.Expression.Text

namespace TeachPendant

open Number

namespace Operator

def unsupported (op : Operator) (kind : Kind) : Error := .unsupportedOperator op.symbol kind.name

/-- Whole quotients are taken toward zero in 32 bits; the one quotient that does not fit counts as a
division by zero. -/
def applyIntDiv (x y : Single) : Except Error Value :=
  let a := x.toInt32
  let b := y.toInt32
  if b = 0 ∨ (a = -2 ^ 31 ∧ b = -1) then .error .divisionByZero
  else .ok (.number (.ofInt (a.tdiv b)))

def applyNumbers (op : Operator) (x y : Single) : Except Error Value :=
  match op with
  | .add => .ok (.number (x.add y))
  | .sub => .ok (.number (x.sub y))
  | .mul => .ok (.number (x.mul y))
  | .div => .ok (.number (x.div y))
  | .mod => .ok (.number (x.rem y))
  | .intDiv => applyIntDiv x y
  | .eq => .ok (.flag (x.equal y))
  | .ne => .ok (.flag (!x.equal y))
  | .gt => .ok (.flag (y.less x))
  | .lt => .ok (.flag (x.less y))
  | .ge => .ok (.flag (y.atMost x))
  | .le => .ok (.flag (x.atMost y))
  | .and | .or | .not | .blank => .error (op.unsupported .arithmetic)

def applyPoints (op : Operator) (x y : Point) : Except Error Value :=
  match op with
  | .add => .ok (.point (x.offsetBy y))
  | .sub => .ok (.point (x.minus y))
  | _ => .error (op.unsupported .point)

/-- Negation looks at its left side only. -/
def applyFlags (op : Operator) (x y : Bool) : Except Error Value :=
  match op with
  | .and => .ok (.flag (x && y))
  | .or => .ok (.flag (x || y))
  | .not => .ok (.flag !x)
  | _ => .error (op.unsupported .boolean)

def apply (op : Operator) : Value → Value → Except Error Value
  | .number x, .number y => op.applyNumbers x y
  | .point x, .point y => op.applyPoints x y
  | .flag x, .flag y => op.applyFlags x y
  | x, y => .error (.incompatible (x.text ++ " " ++ op.symbol ++ " " ++ y.text))

end Operator

namespace Sequence

/-- The first token that is of the wrong kind for its place, counting from `i`. -/
def misplaced (i : Nat) : List Token → Option Nat
  | [] => none
  | t :: rest => if t.isOperand != (i % 2 == 0) then some i else misplaced (i + 1) rest

/-- Odd length, operands at even places and operators at odd ones. -/
def checkWellFormed (s : Sequence) : Except Error Unit :=
  if s.length % 2 = 0 then
    .error (.malformed s!"{s.length} elements, expected an odd count")
  else
    match misplaced 0 s with
    | some i => .error (.malformed s!"element {i} breaks the operand/operator alternation")
    | none => .ok ()

end Sequence

mutual

/-- The value of an operand: registers are read and nested expressions evaluated. -/
def Operand.resolve (c : Context) : Operand → Except Error Value
  | .blank => .error (.incompatible "uninitialized operand")
  | .number x => .ok (.number x)
  | .flag b => .ok (.flag b)
  | .point p => .ok (.point p)
  | .data i => (c.registers.getData i).map .number
  | .io i => (c.registers.getIo i).map .flag
  | .position i => (c.registers.getPosition i).map .point
  | .component i axis => (c.registers.getComponent i axis).map .number
  | .pose cartesian => .ok (.point (c.pose.asPoint cartesian))
  | .nested e => e.evaluate c

/-- Both sides are evaluated, the left one first, before the operator is looked at. -/
def Expression.evaluate (c : Context) : Expression → Except Error Value
  | .tree left op right => do
    let x ← left.resolve c
    let y ← right.resolve c
    op.apply x y
  | .sequence tokens =>
    match Sequence.checkWellFormed tokens with
    | .error e => .error e
    | .ok () => evaluateTokens c tokens

/-- The strict left fold of the operators, without precedence. -/
def evaluateTokens (c : Context) : List Token → Except Error Value
  | .operand first :: rest => do
    let x ← first.resolve c
    foldTokens c x rest
  | _ => .error (.malformed "missing leading operand")

def foldTokens (c : Context) (x : Value) : List Token → Except Error Value
  | [] => .ok x
  | .operator op :: .operand o :: rest => do
    let y ← o.resolve c
    let z ← op.apply x y
    foldTokens c z rest
  | _ => .error (.malformed "dangling operator")

end

def Sequence.evaluate (c : Context) (s : Sequence) : Except Error Value :=
  (Expression.sequence s).evaluate c

namespace Operand

/-- Equality of what two operands come to; an operand that fails to resolve equals nothing. -/
def sameValue (c : Context) (a b : Operand) : Bool :=
  match a.resolve c, b.resolve c with
  | .ok x, .ok y => x.equal y
  | _, _ => false

def asNumber? (c : Context) : Operand → Option Single
  | .number x => some x
  | .data i => (c.registers.getData i).toOption
  | .component i axis => (c.registers.getComponent i axis).toOption
  | _ => none

def asFlag? (c : Context) : Operand → Option Bool
  | .flag b => some b
  | .io i => (c.registers.getIo i).toOption
  | _ => none

def asPoint? (c : Context) : Operand → Option Point
  | .point p => some p
  | .position i => (c.registers.getPosition i).toOption
  | .pose cartesian => some (c.pose.asPoint cartesian)
  | _ => none

end Operand

end TeachPendant
