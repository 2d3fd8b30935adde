import TeachPendant.Library

namespace TeachPendant

namespace Linking

/-- The last place at which a program of this name stands, counting from `i`. -/
def lastNamed (name : String) (i : Nat) : List Program → Option Nat
  | [] => none
  | p :: rest =>
    match lastNamed name (i + 1) rest with
    | some j => some j
    | none => if p.name = name then some i else none

/-- Asks the libraries, numbered from `d` on, for the program a call names. Devices are numbered in
eight bits, and the last answer counts. -/
def linkFrom (target : CallTarget) (d : Nat) : List Library → Option ProgramRef
  | [] => none
  | l :: rest =>
    match linkFrom target (d + 1) rest with
    | some ref => some ref
    | none =>
      if d % 256 = target.device.toNat then
        (lastNamed target.program 0 l.programs).map fun i => ⟨target.device, i⟩
      else none

/-- Where a call goes. -/
def linkOf (libraries : List Library) (target : CallTarget) : Option ProgramRef :=
  linkFrom target 0 libraries

def linkTarget (libraries : List Library) (target : CallTarget) : CallTarget :=
  { target with link := linkOf libraries target }

end Linking

def Library.calls (l : Library) : List CallTarget := l.programs.flatMap (·.calls)

def Library.mapCalls (l : Library) (f : CallTarget → CallTarget) : Library :=
  ⟨l.programs.map (·.mapCalls f)⟩

/-- Links all libraries, library `d` being that of device `d`. Gives them back with the calls that
stay without a link, in the order of the text. -/
def linkCalls (libraries : List Library) : List Library × List Error :=
  (libraries.map (·.mapCalls (Linking.linkTarget libraries)),
    ((libraries.flatMap (·.calls)).filter (fun t => (Linking.linkOf libraries t).isNone)).map
      fun t => .unresolvedCall t.program t.device)

end TeachPendant
