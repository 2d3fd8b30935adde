import TeachPendant.Instruction.Basic

namespace TeachPendant

def RegisterTarget.text : RegisterTarget → String
  | .data i => (Operand.data i).text
  | .io i => (Operand.io i).text
  | .position i => (Operand.position i).text
  | .component i c => (Operand.component i c).text

mutual

def Instruction.text : Instruction → String
  | .mk action commented => (if commented then "//" else "") ++ action.text

def Action.text : Action → String
  | .blank => ""
  | .motion m => m.text
  | .selectFrame .tool index => "UTOOL_NUM=" ++ toString index
  | .selectFrame .user index => "UFRAME_NUM=" ++ toString index
  | .setIo register state => "IO[" ++ shownNumber register ++ "]=" ++ onOff state
  | .label n => "LBL[" ++ toString n ++ "]"
  | .jump n => "JMP LBL[" ++ toString n ++ "]"
  | .call target => "CALL " ++ target.program ++ " (R" ++ toString target.device ++ ")"
  | .assign target expression => target.text ++ "=" ++ Sequence.text expression
  | .ifThen condition body => "IF " ++ condition.text ++ "," ++ body.text
  | .select argument cases => "SELECT " ++ argument.text ++ casesText cases

def casesText : List SelectCase → String
  | [] => ""
  | .mk value body :: rest => " =" ++ value.text ++ "," ++ body.text ++ casesText rest

end

end TeachPendant
