import TeachPendant.Document.Basic

namespace TeachPendant

/-- How a table came about: by a header or by braces, on the way to the table of a header, or by a
dotted key. -/
inductive TableOrigin
  | declared
  | implied
  | dotted
  deriving DecidableEq, Inhabited

inductive TomlEntry
  | value (d : Document)
  | table (origin : TableOrigin) (fields : List (String × TomlEntry))
  /-- Tables with one name in double brackets, the latest last. -/
  | tables (items : List (List (String × TomlEntry)))

abbrev TomlFields := List (String × TomlEntry)

namespace TomlFields

def put (fields : TomlFields) (key : String) (entry : TomlEntry) : TomlFields :=
  match fields with
  | [] => [(key, entry)]
  | (k, e) :: rest => if k = key then (k, entry) :: rest else (k, e) :: put rest key entry

/-- Walks along a path and edits the fields it leads to. Tables that are not there yet are made.
Only a walk along a dotted key stops at declared tables. -/
def walk (dotted : Bool) (edit : TableOrigin → TomlFields → Option TomlFields) :
    List String → TableOrigin → TomlFields → Option TomlFields
  | [], origin, fields => edit origin fields
  | key :: path, _, fields =>
    match fields.lookup key with
    | none =>
      let origin := if dotted then .dotted else .implied
      (walk dotted edit path origin []).map fun inner => fields.put key (.table origin inner)
    | some (.value _) => none
    | some (.table origin inner) =>
      if dotted && origin == .declared then none
      else
        (walk dotted edit path origin inner).map fun inner => fields.put key (.table origin inner)
    | some (.tables items) =>
      match items.getLast? with
      | none => none
      | some last =>
        (walk dotted edit path .declared last).map fun inner =>
          fields.put key (.tables (items.dropLast ++ [inner]))

/-- Sets a new key, which may be dotted. -/
def assign (fields : TomlFields) (path : List String) (value : TomlEntry) : Option TomlFields :=
  match path.getLast? with
  | none => none
  | some key =>
    walk true (fun origin inner =>
      if (1 < path.length && origin != .dotted) || (inner.lookup key).isSome then none
      else some (inner.put key value)) path.dropLast .declared fields

/-- Sets a key in the table that a header has opened. -/
def assignIn (fields : TomlFields) (header path : List String) (value : TomlEntry) :
    Option TomlFields :=
  walk false (fun _ inner => inner.assign path value) header .declared fields

/-- Opens the table of a header. -/
def declare (fields : TomlFields) (path : List String) : Option TomlFields :=
  match path.getLast? with
  | none => none
  | some key =>
    walk false (fun _ inner =>
      match inner.lookup key with
      | none => some (inner.put key (.table .declared []))
      | some (.table .implied content) => some (inner.put key (.table .declared content))
      | some _ => none) path.dropLast .declared fields

/-- Opens the next table of a header in double brackets. -/
def declareNext (fields : TomlFields) (path : List String) : Option TomlFields :=
  match path.getLast? with
  | none => none
  | some key =>
    walk false (fun _ inner =>
      match inner.lookup key with
      | none => some (inner.put key (.tables [[]]))
      | some (.tables items) => some (inner.put key (.tables (items ++ [[]])))
      | some _ => none) path.dropLast .declared fields

end TomlFields

mutual

def TomlEntry.toDocument : TomlEntry → Document
  | .value d => d
  | .table _ fields => .record (tomlFieldDocuments fields)
  | .tables items => .list (tomlItemDocuments items)

def tomlFieldDocuments : List (String × TomlEntry) → List (Key × Document)
  | [] => []
  | (k, e) :: rest => (.text k, e.toDocument) :: tomlFieldDocuments rest

def tomlItemDocuments : List (List (String × TomlEntry)) → List Document
  | [] => []
  | fields :: rest => .record (tomlFieldDocuments fields) :: tomlItemDocuments rest

end

def TomlFields.toDocument (fields : TomlFields) : Document := .record (tomlFieldDocuments fields)

end TeachPendant
