import TeachPendant.Expression.Basic
import TeachPendant.Saved.Basic

namespace TeachPendant

def Operator.toDocument (op : Operator) : Document := .integer op.id.toNat

def Operator.ofDocument? (d : Document) : Option Operator := do
  let n ← d.byte?
  Operator.ofId? n

mutual

def Operand.toDocument : Operand → Document
  | .blank => .text "0"
  | .number x => .tagged "1" (.single x)
  | .flag b => .tagged "2" (.bool b)
  | .data i => .tagged "3" (.word i)
  | .io i => .tagged "4" (.word i)
  | .position i => .tagged "5" (.word i)
  | .component i c => .tagged "6" (.list [.word i, .word c])
  | .point p => .tagged "7" p.toDocument
  | .pose cartesian => .tagged "8" (.object [("cartesian", .bool cartesian)])
  | .nested e => e.toDocument

def Expression.toDocument : Expression → Document
  | .tree left op right =>
    .tagged "9"
      (.object [("left", left.toDocument), ("op", op.toDocument), ("right", right.toDocument)])
  | .sequence tokens => .tagged "10" (.object [("tokens", .list (tokenDocuments tokens))])

def Token.toDocument : Token → Document
  | .operand o => .tagged "0" o.toDocument
  | .operator op => .tagged "1" op.toDocument

def tokenDocuments : List Token → List Document
  | [] => []
  | t :: rest => t.toDocument :: tokenDocuments rest

end

def Sequence.toDocument (s : Sequence) : Document :=
  .object [("tokens", .list (tokenDocuments s))]

/-- A tree by itself, without its tag. -/
def treeDocument (left : Operand) (op : Operator) (right : Operand) : Document :=
  .object [("left", left.toDocument), ("op", op.toDocument), ("right", right.toDocument)]

namespace Saved

/-- The alternatives of operands, nested expressions last. -/
def operandTags : List String := ["0", "1", "2", "3", "4", "5", "6", "7", "8", "9", "10"]

def expressionTags : List String := ["9", "10"]

def tokenTags : List String := ["0", "1"]

def pair? : Document → Option (UInt64 × UInt64)
  | .list [a, b] => do
    let a ← a.word?
    let b ← b.word?
    some (a, b)
  | _ => none

def cartesian? (d : Document) : Option Bool :=
  match d.fields? ["cartesian"] 1 with
  | some [some b] => b.bool?
  | _ => none

mutual

/-- An operand. Operands are held as a whole before they are read, so everything in them counts. -/
def operand? : Nat → Document → Option Operand
  | 0, d =>
    match d.choice? .json operandTags with
    | some (0, none) => some .blank
    | _ => none
  | depth + 1, d =>
    if d.holds (depth + 1) then
      match d.choice? .json operandTags with
      | some (0, content) => if Document.noContent content then some .blank else none
      | some (1, some x) => x.number?.map .number
      | some (2, some x) => x.bool?.map .flag
      | some (3, some x) => x.word?.map .data
      | some (4, some x) => x.word?.map .io
      | some (5, some x) => x.word?.map .position
      | some (6, some x) => (pair? x).map fun (i, c) => .component i c
      | some (7, some x) => (Point.ofDocument? depth x).map .point
      | some (8, some x) => (cartesian? x).map .pose
      | some (9, some x) => (tree? depth x).map fun (l, op, r) => .nested (.tree l op r)
      | some (10, some x) => (sequence? .json depth x).map fun tokens => .nested (.sequence tokens)
      | _ => none
    else none

def tree? : Nat → Document → Option (Operand × Operator × Operand)
  | 0, _ => none
  | depth + 1, d =>
    match d.fields? ["left", "op", "right"] 3 with
    | some [some left, some op, some right] => do
      let left ← operand? depth left
      let op ← Operator.ofDocument? op
      let right ← operand? depth right
      some (left, op, right)
    | _ => none

def sequence? (form : Form) : Nat → Document → Option Sequence
  | 0, _ => none
  | 1, _ => none
  | depth + 2, d =>
    match d.fields? ["tokens"] 1 with
    | some [some (.list tokens)] => tokens.mapM (token? form depth)
    | _ => none

def token? (form : Form) : Nat → Document → Option Token
  | 0, _ => none
  | depth + 1, d =>
    match d.choice? form tokenTags with
    | some (0, some x) => (operand? depth x).map .operand
    | some (1, some x) => (Operator.ofDocument? x).map .operator
    | _ => none

end

/-- A nested expression by itself. -/
def expression? (form : Form) : Nat → Document → Option Expression
  | 0, _ => none
  | depth + 1, d =>
    match d.choice? form expressionTags with
    | some (0, some x) => (tree? depth x).map fun (l, op, r) => .tree l op r
    | some (1, some x) => (sequence? form depth x).map .sequence
    | _ => none

end Saved

end TeachPendant
