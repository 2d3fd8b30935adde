import TeachPendant.Instruction.Text
import TeachPendant.Positions

namespace TeachPendant

/-- Identity 0 means that none has been given yet. -/
structure Line where
  id : Nat := 0
  instruction : Instruction

instance : Inhabited Line := ⟨⟨0, default⟩⟩

/-- A line keeps its identity wherever edits move it; identities are given from one up. -/
structure Program where
  name : String
  lines : List Line := []
  positions : PositionTable := {}
  nextId : Nat := 1

namespace Program

def named (name : String) : Program := { name := name }

def length (p : Program) : Nat := p.lines.length

def isEmpty (p : Program) : Bool := p.lines.isEmpty

def instruction? (p : Program) (i : Nat) : Option Instruction := (p.lines[i]?).map (·.instruction)

def noLine (p : Program) (i : Nat) : Error := .outside "instruction" i p.length

/-- The identity that the next line gets; a loaded program counts from one too. -/
def freshId (p : Program) : Nat := max p.nextId 1

/-- Inserts before line `i`, or at the end; gives the identity of the new line. -/
def insert (p : Program) (i : Nat) (instruction : Instruction) : Except Error (Program × Nat) :=
  if p.length < i then .error (p.noLine i)
  else
    .ok ({ p with
      lines := p.lines.insertIdx i ⟨p.freshId, instruction⟩
      nextId := p.freshId + 1 }, p.freshId)

/-- Appends a line. -/
def push (p : Program) (instruction : Instruction) : Program :=
  { p with lines := p.lines ++ [⟨p.freshId, instruction⟩], nextId := p.freshId + 1 }

def remove (p : Program) (i : Nat) : Except Error (Program × Line) :=
  match p.lines[i]? with
  | some line => .ok ({ p with lines := p.lines.eraseIdx i }, line)
  | none => .error (p.noLine i)

/-- Replaces an instruction; the line keeps its identity. -/
def set (p : Program) (i : Nat) (instruction : Instruction) : Except Error (Program × Line) :=
  match p.lines[i]? with
  | some line => .ok ({ p with lines := p.lines.set i { line with instruction } }, line)
  | none => .error (p.noLine i)

/-- Where the line with this identity is now. -/
def positionOf (p : Program) (id : Nat) : Option Nat := p.lines.findIdx? (·.id == id)

def renumberFrom (id : Nat) : List Line → List Line
  | [] => []
  | line :: rest => { line with id := id } :: renumberFrom (id + 1) rest

/-- Gives the lines the identities 1, 2, ... in order. -/
def renumber (p : Program) : Program :=
  { p with lines := renumberFrom 1 p.lines, nextId := p.length + 1 }

/-- The first line that a jump to this label may land on. -/
def findLabel (p : Program) (number : UInt32) : Option Nat :=
  p.lines.findIdx? (·.instruction.isLabel number)

def calls (p : Program) : List CallTarget := p.lines.flatMap (·.instruction.calls)

def mapCalls (p : Program) (f : CallTarget → CallTarget) : Program :=
  { p with lines := p.lines.map fun l => { l with instruction := l.instruction.mapCalls f } }

end Program

end TeachPendant
