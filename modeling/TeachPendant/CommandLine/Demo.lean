import TeachPendant.Settings.Basic
import TeachPendant.Snapshot

namespace TeachPendant.CommandLine

open Number

/-- A point of whole millimetres and degrees. -/
def wholePoint (x y z w p r : Nat) : Point :=
  ⟨.ofNat x, .ofNat y, .ofNat z, .ofNat w, .ofNat p, .ofNat r⟩

/-- A joint move to a taught point. -/
def jointMove (slot : UInt64) (speed : Nat) : Instruction :=
  .ofAction (.motion { kind := .joint, target := .taught slot, speed := .ofNat speed })

def demoMain : Program :=
  let count : Token := .operand (.data 0)
  let number (n : Nat) : Token := .operand (.number (.ofNat n))
  let lines : List Instruction := [
    jointMove 0 100,
    .ofAction (.label 1),
    .ofAction (.motion
      { kind := .linear, target := .taught 1, speed := .ofNat 500, termination := 50 }),
    .ofAction (.assign (.data 0) [count, .operator .add, number 1]),
    .ofAction (.call { program := "GRIP", device := 1 }),
    .ofAction (.ifThen (.sequence [count, .operator .lt, number 3]) (.ofAction (.jump 1))),
    jointMove 0 50]
  lines.foldl Program.push
    { name := "MAIN"
      positions := .ofPoints
        [(0, wholePoint 400 0 300 180 0 0), (1, wholePoint 400 0 120 180 0 0)] 2 }

def demoGrip : Program :=
  let lines : List Instruction :=
    [.ofAction (.setIo 0 true), jointMove 0 100, .ofAction (.setIo 0 false)]
  lines.foldl Program.push
    { name := "GRIP", positions := .ofPoints [(0, wholePoint 0 400 200 180 0 90)] 1 }

def demoCell (s : Settings) : Snapshot where
  registers := s.registerBank
  libraries := [⟨[demoMain]⟩, ⟨[demoGrip]⟩]

end TeachPendant.CommandLine
