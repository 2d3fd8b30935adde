import TeachPendant.Number.Arithmetic

namespace TeachPendant

open Number

/-- The name of a field, or its number where fields are numbered. `escaped` is a name that was
written with escapes; a number cannot be written so. -/
inductive Key
  | text (s : String)
  | escaped (s : String)
  | index (n : Nat)
  | unreadable
  deriving DecidableEq, Inhabited

/-- `unreadable` stands for a leaf that is well formed and has no value, such as a number past the
largest one. It can only be skipped over. -/
inductive Document
  | null
  | bool (b : Bool)
  | integer (z : Int)
  | single (x : Single)
  | double (x : Double)
  | text (s : String)
  | bytes (bs : List UInt8)
  | unreadable
  | list (items : List Document)
  | record (fields : List (Key × Document))

instance : Inhabited Document := ⟨.null⟩

namespace Document

def natural (n : Nat) : Document := .integer n

def word (n : UInt64) : Document := .integer n.toNat

/-- A record with the given field names. -/
def object (fields : List (String × Document)) : Document :=
  .record (fields.map fun f => (.text f.1, f.2))

/-- One alternative of several, under its tag. -/
def tagged (tag : String) (value : Document) : Document := object [(tag, value)]

def ofOption {α : Type} (f : α → Document) : Option α → Document
  | some x => f x
  | none => .null

/-- Whether everything in a document can be held, within `depth` levels of lists and records. -/
def holds : Nat → Document → Bool
  | _, .unreadable => false
  | 0, .list _ => false
  | 0, .record _ => false
  | depth + 1, .list items => items.all (holds depth)
  | depth + 1, .record fields => fields.all fun f => f.1 != .unreadable && holds depth f.2
  | _, _ => true

end Document

end TeachPendant
