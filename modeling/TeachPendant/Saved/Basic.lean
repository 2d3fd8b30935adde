import TeachPendant.Document.Basic
import TeachPendant.Point

namespace TeachPendant

open Number

/-- What a notation allows: how deep documents may nest, and whether alternatives may be given by
their position in place of their tag. A notation of tables has no `null`, so an empty table or list
stands for no content, and lists given for structures may run on. -/
structure Form where
  depth : Nat
  positions : Bool := false
  tables : Bool := false
  deriving DecidableEq

namespace Form

def json : Form := { depth := 127 }

def messagePack : Form := { depth := 1023, positions := true }

def toml : Form := { depth := 127, tables := true }

end Form

namespace Document

def natural? (bound : Nat) : Document → Option Nat
  | .integer z => if 0 ≤ z ∧ z.toNat < bound then some z.toNat else none
  | _ => none

def word? (d : Document) : Option UInt64 := (d.natural? (2 ^ 64)).map UInt64.ofNat

def halfWord? (d : Document) : Option UInt32 := (d.natural? (2 ^ 32)).map UInt32.ofNat

def byte? (d : Document) : Option UInt8 := (d.natural? (2 ^ 8)).map UInt8.ofNat

def bool? : Document → Option Bool
  | .bool b => some b
  | _ => none

/-- Integers are rounded once; 64-bit numbers are rounded again. -/
def number? : Document → Option Single
  | .integer z => some (.ofInt z)
  | .single x => some x
  | .double x => some x.convert
  | _ => none

def text? : Document → Option String
  | .text s => some s
  | .bytes bs => String.fromUTF8? (ByteArray.mk bs.toArray)
  | _ => none

def listOf? {α : Type} (read : Nat → Document → Option α) : Nat → Document → Option (List α)
  | depth + 1, .list items => items.mapM (read depth)
  | _, _ => none

/-- Nothing for `null`. -/
def optional? {α : Type} (read : Document → Option α) : Document → Option (Option α)
  | .null => some none
  | d => (read d).map some

/-- A field that may be left out. -/
def optionalField? {α : Type} (read : Document → Option α) : Option Document → Option (Option α)
  | none => some none
  | some d => d.optional? read

/-- A field with a default. -/
def fieldOr? {α : Type} (read : Document → Option α) (value : α) : Option Document → Option α
  | none => some value
  | some d => read d

def named (name : String) (i : Nat) : Key → Bool
  | .text s => s == name
  | .escaped s => s == name
  | .index n => n == i
  | .unreadable => false

/-- The field of a name, at most one. -/
def field? (fields : List (Key × Document)) (name : String) (i : Nat) : Option (Option Document) :=
  match fields.filter fun f => named name i f.1 with
  | [] => some none
  | [f] => some (some f.2)
  | _ => none

/-- The fields of a structure in the order of their names. As a list, at least the first `least` of
them must be there. -/
def fields? (names : List String) (least : Nat) : Document → Option (List (Option Document))
  | .record fields =>
    if fields.any fun f => f.1 == .unreadable then none
    else (names.zipIdx).mapM fun (name, i) => field? fields name i
  | .list items =>
    if items.length < least || names.length < items.length then none
    else some (items.map some ++ List.replicate (names.length - items.length) none)
  | _ => none

/-- The fields of a structure in which every field has a default. -/
def looseFields? (form : Form) (names : List String) (d : Document) :
    Option (List (Option Document)) :=
  match d with
  | .list items =>
    (Document.list (if form.tables then items.take names.length else items)).fields? names 0
  | _ => d.fields? names 0

def tagOf (tags : List String) : Key → Option Nat
  | .text s => tags.idxOf? s
  | .escaped s => tags.idxOf? s
  | .index n => if n < tags.length then some n else none
  | .unreadable => none

/-- One of several alternatives: its number, and its content unless only its tag is given. -/
def choice? (form : Form) (tags : List String) : Document → Option (Nat × Option Document)
  | .text s => (tags.idxOf? s).map fun i => (i, none)
  | .integer z =>
    if form.positions && 0 ≤ z && z < tags.length then some (z.toNat, none) else none
  | .record [(k, d)] => (tagOf tags k).map fun i => (i, some d)
  | _ => none

/-- An alternative without content may be given `null` for it. -/
def noContent : Option Document → Bool
  | none => true
  | some .null => true
  | _ => false

/-- No content as a notation writes it. -/
def noContentIn (form : Form) : Option Document → Bool
  | some (.list []) | some (.record []) => form.tables
  | content => noContent content && !(form.tables && content.isSome)

/-- One of several alternatives that have no content. -/
def oneOf? {α : Type} (form : Form) (words : List (String × α)) (depth : Nat) (d : Document) :
    Option α :=
  match d with
  | .record _ => if depth = 0 then none else pick
  | _ => pick
where
  pick : Option α :=
    match d.choice? form (words.map (·.1)) with
    | some (i, content) => if noContentIn form content then (words[i]?).map (·.2) else none
    | none => none

end Document

namespace Point

def toDocument (p : Point) : Document :=
  .object [
    ("position", .list [.single p.x, .single p.y, .single p.z]),
    ("orientation", .list [.single p.w, .single p.p, .single p.r])]

def triple? (depth : Nat) (d : Document) : Option (Single × Single × Single) :=
  match Document.listOf? (fun _ => Document.number?) depth d with
  | some [x, y, z] => some (x, y, z)
  | _ => none

def ofDocument? : Nat → Document → Option Point
  | 0, _ => none
  | depth + 1, d =>
    match d.fields? ["position", "orientation"] 2 with
    | some [some position, some orientation] => do
      let (x, y, z) ← triple? depth position
      let (w, p, r) ← triple? depth orientation
      some ⟨x, y, z, w, p, r⟩
    | _ => none

end Point

end TeachPendant
