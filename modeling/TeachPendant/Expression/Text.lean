import TeachPendant.Expression.Basic

namespace TeachPendant

/-- The number shown for an index. -/
def shownNumber (index : UInt64) : String := toString (index + 1)

def onOff (b : Bool) : String := if b then "ON" else "OFF"

mutual

def Operand.text : Operand → String
  | .blank => "..."
  | .number x => x.display
  | .flag b => onOff b
  | .data i => "R[" ++ shownNumber i ++ "]"
  | .io i => "IO[" ++ shownNumber i ++ "]"
  | .position i => "PR[" ++ shownNumber i ++ "]"
  | .component i c => "PR[" ++ shownNumber i ++ "," ++ Point.componentName c ++ "]"
  | .point p => "P" ++ p.text
  | .pose cartesian => if cartesian then "LPOS" else "JPOS"
  | .nested e => e.text

def Expression.text : Expression → String
  | .tree left op right => "(" ++ left.text ++ " " ++ op.symbol ++ " " ++ right.text ++ ")"
  | .sequence tokens => "(" ++ String.intercalate " " (tokenTexts tokens) ++ ")"

def Token.text : Token → String
  | .operand o => o.text
  | .operator op => op.symbol

def tokenTexts : List Token → List String
  | [] => []
  | t :: rest => t.text :: tokenTexts rest

end

/-- A line is shown without brackets of its own. -/
def Sequence.text (s : Sequence) : String := String.intercalate " " (tokenTexts s)

def Value.text (v : Value) : String := v.toOperand.text

end TeachPendant
