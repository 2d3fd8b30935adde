import TeachPendant.Instruction.Basic
import TeachPendant.Saved.Expression

namespace TeachPendant

def MoveKind.toDocument : MoveKind → Document
  | .joint => .text "0"
  | .linear => .text "1"
  | .circular => .text "2"

def PositionRef.toDocument : PositionRef → Document
  | .taught slot => .tagged "0" (.word slot)
  | .register index => .tagged "1" (.word index)

def FrameKind.toDocument : FrameKind → Document
  | .tool => .text "0"
  | .user => .text "1"

def RegisterTarget.toDocument : RegisterTarget → Document
  | .data i => .tagged "0" (.word i)
  | .io i => .tagged "1" (.word i)
  | .position i => .tagged "2" (.word i)
  | .component i c => .tagged "3" (.list [.word i, .word c])

def Motion.toDocument (m : Motion) : Document :=
  .object [
    ("motion_type", m.kind.toDocument), ("position", m.target.toDocument),
    ("speed", .single m.speed), ("termination", .natural m.termination.toNat),
    ("tool_frame", .word m.toolFrame), ("user_frame", .word m.userFrame),
    ("offset", .ofOption PositionRef.toDocument m.offset),
    ("via", .ofOption PositionRef.toDocument m.via)]

def Move.toDocument (m : Move) : Document :=
  .object [
    ("device", .natural m.device.toNat), ("motion_type", m.kind.toDocument),
    ("target", m.target.toDocument), ("via", .ofOption Point.toDocument m.via),
    ("speed", .single m.speed), ("termination", .natural m.termination.toNat),
    ("tool_frame", .word m.toolFrame), ("user_frame", .word m.userFrame)]

def CallTarget.toDocument (t : CallTarget) : Document :=
  .object [("program", .text t.program), ("device", .natural t.device.toNat)]

mutual

def Instruction.toDocument : Instruction → Document
  | .mk action commented =>
    .object [("kind", action.toDocument), ("commented", .bool commented)]

def Action.toDocument : Action → Document
  | .blank => .text "0"
  | .motion m => .tagged "1" m.toDocument
  | .selectFrame kind index =>
    .tagged "2" (.object [("kind", kind.toDocument), ("index", .word index)])
  | .setIo register state =>
    .tagged "3" (.object [("register", .word register), ("state", .bool state)])
  | .label n => .tagged "4" (.natural n.toNat)
  | .jump n => .tagged "5" (.natural n.toNat)
  | .call target => .tagged "6" target.toDocument
  | .assign target expression =>
    .tagged "7"
      (.object [("target", target.toDocument), ("expression", Sequence.toDocument expression)])
  | .ifThen condition body =>
    .tagged "8" (.object [("condition", condition.toDocument), ("body", body.toDocument)])
  | .select argument cases =>
    .tagged "9"
      (.object [("argument", argument.toDocument), ("cases", .list (caseDocuments cases))])

def caseDocuments : List SelectCase → List Document
  | [] => []
  | .mk value body :: rest =>
    .object [("value", value.toDocument), ("body", body.toDocument)] :: caseDocuments rest

end

namespace Saved

def moveKind? (form : Form) : Nat → Document → Option MoveKind :=
  Document.oneOf? form [("0", .joint), ("1", .linear), ("2", .circular)]

def frameKind? (form : Form) : Nat → Document → Option FrameKind :=
  Document.oneOf? form [("0", .tool), ("1", .user)]

def positionRef? (form : Form) : Nat → Document → Option PositionRef
  | 0, _ => none
  | _ + 1, d =>
    match d.choice? form ["0", "1"] with
    | some (0, some x) => x.word?.map .taught
    | some (1, some x) => x.word?.map .register
    | _ => none

def registerTarget? (form : Form) : Nat → Document → Option RegisterTarget
  | 0, _ => none
  | depth + 1, d =>
    match d.choice? form ["0", "1", "2", "3"] with
    | some (0, some x) => x.word?.map .data
    | some (1, some x) => x.word?.map .io
    | some (2, some x) => x.word?.map .position
    | some (3, some x) =>
      if depth = 0 then none else (pair? x).map fun (i, c) => .component i c
    | _ => none

def motion? (form : Form) : Nat → Document → Option Motion
  | 0, _ => none
  | depth + 1, d =>
    match d.fields? ["motion_type", "position", "speed", "termination", "tool_frame", "user_frame",
      "offset", "via"] 8 with
    | some [some kind, some target, some speed, some termination, some tool, some user, offset,
        via] => do
      let kind ← moveKind? form depth kind
      let target ← positionRef? form depth target
      let speed ← speed.number?
      let termination ← termination.byte?
      let toolFrame ← tool.word?
      let userFrame ← user.word?
      let offset ← Document.optionalField? (positionRef? form depth) offset
      let via ← Document.optionalField? (positionRef? form depth) via
      some { kind, target, speed, termination, toolFrame, userFrame, offset, via }
    | _ => none

def move? (form : Form) : Nat → Document → Option Move
  | 0, _ => none
  | depth + 1, d =>
    match d.fields? ["device", "motion_type", "target", "via", "speed", "termination", "tool_frame",
      "user_frame"] 8 with
    | some [some device, some kind, some target, via, some speed, some termination, some tool,
        some user] => do
      let device ← device.byte?
      let kind ← moveKind? form depth kind
      let target ← Point.ofDocument? depth target
      let via ← Document.optionalField? (Point.ofDocument? depth) via
      let speed ← speed.number?
      let termination ← termination.byte?
      let toolFrame ← tool.word?
      let userFrame ← user.word?
      some { device, kind, target, via, speed, termination, toolFrame, userFrame }
    | _ => none

def callTarget? : Nat → Document → Option CallTarget
  | 0, _ => none
  | _ + 1, d =>
    match d.fields? ["program", "device"] 2 with
    | some [some program, some device] => do
      let program ← program.text?
      let device ← device.byte?
      some { program, device }
    | _ => none

def selectFrame? (form : Form) : Nat → Document → Option Action
  | 0, _ => none
  | depth + 1, d =>
    match d.fields? ["kind", "index"] 2 with
    | some [some kind, some index] => do
      let kind ← frameKind? form depth kind
      let index ← index.word?
      some (.selectFrame kind index)
    | _ => none

def setIo? : Nat → Document → Option Action
  | 0, _ => none
  | _ + 1, d =>
    match d.fields? ["register", "state"] 2 with
    | some [some register, some state] => do
      let register ← register.word?
      let state ← state.bool?
      some (.setIo register state)
    | _ => none

def assign? (form : Form) : Nat → Document → Option Action
  | 0, _ => none
  | depth + 1, d =>
    match d.fields? ["target", "expression"] 2 with
    | some [some target, some expression] => do
      let target ← registerTarget? form depth target
      let expression ← sequence? form depth expression
      some (.assign target expression)
    | _ => none

def actionTags : List String := ["0", "1", "2", "3", "4", "5", "6", "7", "8", "9"]

mutual

def instruction? (form : Form) : Nat → Document → Option Instruction
  | 0, _ => none
  | depth + 1, d =>
    match d.fields? ["kind", "commented"] 2 with
    | some [some action, some commented] => do
      let action ← action? form depth action
      let commented ← commented.bool?
      some (.mk action commented)
    | _ => none

def action? (form : Form) : Nat → Document → Option Action
  | 0, d =>
    match d.choice? form actionTags with
    | some (0, none) => some .blank
    | _ => none
  | depth + 1, d =>
    match d.choice? form actionTags with
    | some (0, content) => if Document.noContent content then some .blank else none
    | some (1, some x) => (motion? form depth x).map .motion
    | some (2, some x) => selectFrame? form depth x
    | some (3, some x) => setIo? depth x
    | some (4, some x) => x.halfWord?.map .label
    | some (5, some x) => x.halfWord?.map .jump
    | some (6, some x) => (callTarget? depth x).map .call
    | some (7, some x) => assign? form depth x
    | some (8, some x) => ifThen? form depth x
    | some (9, some x) => select? form depth x
    | _ => none

def ifThen? (form : Form) : Nat → Document → Option Action
  | 0, _ => none
  | depth + 1, d =>
    match d.fields? ["condition", "body"] 2 with
    | some [some condition, some body] => do
      let condition ← expression? form depth condition
      let body ← instruction? form depth body
      some (.ifThen condition body)
    | _ => none

def select? (form : Form) : Nat → Document → Option Action
  | 0, _ => none
  | 1, _ => none
  | depth + 2, d =>
    match d.fields? ["argument", "cases"] 2 with
    | some [some argument, some (.list cases)] => do
      let argument ← operand? (depth + 1) argument
      let cases ← cases.mapM (selectCase? form depth)
      some (.select argument cases)
    | _ => none

def selectCase? (form : Form) : Nat → Document → Option SelectCase
  | 0, _ => none
  | depth + 1, d =>
    match d.fields? ["value", "body"] 2 with
    | some [some value, some body] => do
      let value ← operand? depth value
      let body ← instruction? form depth body
      some (.mk value body)
    | _ => none

end

end Saved

end TeachPendant
