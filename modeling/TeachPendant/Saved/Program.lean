import TeachPendant.Library
import TeachPendant.Saved.Instruction

namespace TeachPendant

def PositionTable.pointsDocument (t : PositionTable) : Document :=
  .record (t.points.map fun (slot, point) => (.index slot.toNat, point.toDocument))

def Program.toDocument (p : Program) : Document :=
  .object [
    ("name", .text p.name),
    ("instructions", .list (p.lines.map fun l => l.instruction.toDocument)),
    ("positions", p.positions.pointsDocument),
    ("next_free_slot", .word p.positions.nextFree)]

def Library.toDocument (l : Library) : Document :=
  .object [("programs", .list (l.programs.map Program.toDocument))]

namespace Saved

/-- A slot number as the name of a field: digits without a sign or a leading zero. -/
def slotOf : Key → Option UInt64
  | .index n => if n < 2 ^ 64 then some (UInt64.ofNat n) else none
  | .text s =>
    let cs := s.toList
    if cs.isEmpty || !cs.all Char.isDigit || (cs.head? == some '0' && 1 < cs.length) then none
    else
      let n := cs.foldl (fun v c => v * 10 + (c.toNat - 48)) 0
      if n < 2 ^ 64 then some (UInt64.ofNat n) else none
  | _ => none

def points? : Nat → Document → Option (List (UInt64 × Point))
  | depth + 1, .record fields =>
    fields.mapM fun (k, d) => do
      let slot ← slotOf k
      let point ← Point.ofDocument? depth d
      some (slot, point)
  | _, _ => none

/-- A program whose lines have no identity yet. -/
def program? (form : Form) : Nat → Document → Option Program
  | 0, _ => none
  | depth + 1, d =>
    match d.fields? ["name", "instructions", "positions", "next_free_slot"] 4 with
    | some [some name, some instructions, some positions, some nextFree] => do
      let name ← name.text?
      let instructions ← Document.listOf? (instruction? form) depth instructions
      let points ← points? depth positions
      let nextFree ← nextFree.word?
      some {
        name, lines := instructions.map fun i => { instruction := i }
        positions := .ofPoints points nextFree, nextId := 0 }
    | _ => none

def library? (form : Form) : Nat → Document → Option Library
  | 0, _ => none
  | depth + 1, d =>
    match d.fields? ["programs"] 1 with
    | some [some programs] => (Document.listOf? (program? form) depth programs).map fun ps => ⟨ps⟩
    | _ => none

end Saved

end TeachPendant
