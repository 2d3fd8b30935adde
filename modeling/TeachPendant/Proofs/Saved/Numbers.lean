import TeachPendant.Snapshot

namespace TeachPendant

open Number

mutual

def Operand.numbers : Operand → List Single
  | .number x => [x]
  | .point p => p.components
  | .nested e => e.numbers
  | _ => []

def Expression.numbers : Expression → List Single
  | .tree left _ right => left.numbers ++ right.numbers
  | .sequence tokens => tokenNumbers tokens

def Token.numbers : Token → List Single
  | .operand o => o.numbers
  | .operator _ => []

def tokenNumbers : List Token → List Single
  | [] => []
  | t :: rest => t.numbers ++ tokenNumbers rest

end

theorem tokenNumbers_eq (ts : List Token) : tokenNumbers ts = ts.flatMap Token.numbers := by
  induction ts with
  | nil => rfl
  | cons t ts ih => rw [tokenNumbers, ih, List.flatMap_cons]

mutual

def Instruction.numbers : Instruction → List Single
  | .mk action _ => action.numbers

def Action.numbers : Action → List Single
  | .motion m => [m.speed]
  | .assign _ expression => tokenNumbers expression
  | .ifThen condition body => condition.numbers ++ body.numbers
  | .select argument cases => argument.numbers ++ caseNumbers cases
  | _ => []

def caseNumbers : List SelectCase → List Single
  | [] => []
  | .mk value body :: rest => value.numbers ++ body.numbers ++ caseNumbers rest

end

def SelectCase.numbers : SelectCase → List Single
  | .mk value body => value.numbers ++ body.numbers

theorem caseNumbers_eq (cases : List SelectCase) :
    caseNumbers cases = cases.flatMap SelectCase.numbers := by
  induction cases with
  | nil => rfl
  | cons c cases ih =>
    obtain ⟨value, body⟩ := c
    rw [caseNumbers, ih, List.flatMap_cons, SelectCase.numbers]

def PositionTable.numbers (t : PositionTable) : List Single :=
  t.points.flatMap fun e => e.2.components

def Program.numbers (p : Program) : List Single :=
  p.lines.flatMap (fun l => l.instruction.numbers) ++ p.positions.numbers

def Library.numbers (l : Library) : List Single := l.programs.flatMap Program.numbers

def RegisterBank.numbers (bank : RegisterBank) : List Single :=
  bank.data.map (·.value) ++ bank.positions.flatMap fun r => r.value.components

def Snapshot.numbers (s : Snapshot) : List Single :=
  s.registers.numbers ++ s.libraries.flatMap Library.numbers

end TeachPendant
