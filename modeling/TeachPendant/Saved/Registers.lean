import TeachPendant.Registers
import TeachPendant.Saved.Basic

namespace TeachPendant

def Register.toDocument {α : Type} (f : α → Document) (r : Register α) : Document :=
  .object (("value", f r.value) :: if r.comment.isEmpty then [] else [("comment", .text r.comment)])

def RegisterBank.toDocument (bank : RegisterBank) : Document :=
  .object [
    ("data", .list (bank.data.map (Register.toDocument .single))),
    ("io", .list (bank.io.map (Register.toDocument .bool))),
    ("positions", .list (bank.positions.map (Register.toDocument Point.toDocument)))]

namespace Saved

def register? {α : Type} (read : Nat → Document → Option α) : Nat → Document → Option (Register α)
  | 0, _ => none
  | depth + 1, d =>
    match d.fields? ["value", "comment"] 1 with
    | some [some value, comment] => do
      let value ← read depth value
      let comment ← Document.fieldOr? Document.text? "" comment
      some { value, comment }
    | _ => none

def registerBank? : Nat → Document → Option RegisterBank
  | 0, _ => none
  | depth + 1, d =>
    match d.fields? ["data", "io", "positions"] 3 with
    | some [some data, some io, some positions] => do
      let data ← Document.listOf? (register? fun _ => Document.number?) depth data
      let io ← Document.listOf? (register? fun _ => Document.bool?) depth io
      let positions ← Document.listOf? (register? Point.ofDocument?) depth positions
      some { data, io, positions }
    | _ => none

end Saved

end TeachPendant
