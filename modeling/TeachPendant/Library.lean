import TeachPendant.Program

namespace TeachPendant

structure Library where
  programs : List Program := []

instance : Inhabited Library := ⟨{}⟩

namespace Library

def length (l : Library) : Nat := l.programs.length

def get? (l : Library) (i : Nat) : Option Program := l.programs[i]?

/-- Editing keeps names apart, but a library read from a file may hold one twice. -/
def find? (l : Library) (name : String) : Option Nat := l.programs.findIdx? (·.name == name)

def named? (l : Library) (name : String) : Option Program :=
  match l.find? name with
  | some i => l.get? i
  | none => none

def noProgram (l : Library) (i : Nat) : Error := .outside "program" i l.length

/-- Appends a program and gives its place. -/
def add (l : Library) (p : Program) : Except Error (Library × Nat) :=
  match l.find? p.name with
  | some _ => .error (.duplicateName p.name)
  | none => .ok (⟨l.programs ++ [p]⟩, l.length)

def create (l : Library) (name : String) : Except Error (Library × Nat) := l.add (.named name)

/-- Takes a program out; the places of later ones move down. -/
def remove (l : Library) (i : Nat) : Except Error (Library × Program) :=
  match l.get? i with
  | some p => .ok (⟨l.programs.eraseIdx i⟩, p)
  | none => .error (l.noProgram i)

def replace (l : Library) (i : Nat) (p : Program) : Library := ⟨l.programs.set i p⟩

/-- A name taken by another program is reported before a bad place. -/
def rename (l : Library) (i : Nat) (name : String) : Except Error Library :=
  match (l.find? name).filter (· != i) with
  | some _ => .error (.duplicateName name)
  | none =>
    match l.get? i with
    | some p => .ok (l.replace i { p with name := name })
    | none => .error (l.noProgram i)

/-- Checks a link against this library. A link left over from before an edit counts only if a
program of the right name is found at its place. -/
def resolve (l : Library) (target : CallTarget) : Except Error ProgramRef :=
  match target.link with
  | none => .error (.unresolvedCall target.program target.device)
  | some ref =>
    match l.get? ref.index with
    | some p =>
      if p.name = target.program then .ok ref
      else .error (.unresolvedCall target.program target.device)
    | none => .error (.unresolvedCall target.program target.device)

end Library

end TeachPendant
