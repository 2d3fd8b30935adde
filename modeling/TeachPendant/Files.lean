namespace TeachPendant

/-- What a file holds. -/
inductive Content
  | text (s : String)
  | bytes (bs : List UInt8)
  deriving DecidableEq

namespace Content

def toBytes : Content → List UInt8
  | .text s => s.toUTF8.toList
  | .bytes bs => bs

/-- The number of bytes. -/
def size : Content → Nat
  | .text s => s.utf8ByteSize
  | .bytes bs => bs.length

def append (c : Content) (s : String) : Content :=
  match c with
  | .text t => .text (t ++ s)
  | .bytes bs => .bytes (bs ++ s.toUTF8.toList)

end Content

inductive FileFault
  | missing
  | occupied
  | notDirectory
  | isDirectory
  | notText
  deriving DecidableEq

def FileFault.message : FileFault → String
  | .missing => "No such file or directory (os error 2)"
  | .occupied => "File exists (os error 17)"
  | .notDirectory => "Not a directory (os error 20)"
  | .isDirectory => "Is a directory (os error 21)"
  | .notText => "stream did not contain valid UTF-8"

/-- The names to walk through from the top of the tree. -/
abbrev Place := List String

namespace Path

def split : List Char → List (List Char)
  | [] => [[]]
  | c :: rest =>
    if c = '/' then [] :: split rest
    else
      match split rest with
      | [] => [[c]]
      | part :: parts => (c :: part) :: parts

/-- Takes one part of a path into account; the place is kept with its last name first. -/
def enter (place : Place) (part : String) : Place :=
  if part = "" ∨ part = "." then place
  else if part = ".." then
    match place with
    | [] => [".."]
    | name :: rest =>
      if name = "/" then place else if name = ".." then ".." :: place else rest
  else part :: place

/-- A path that begins with a slash begins at the root. -/
def place (path : String) : Place :=
  let start := if path.startsWith "/" then ["/"] else []
  (((split path.toList).map String.ofList).foldl enter start).reverse

/-- A path to a place. -/
def ofPlace : Place → String
  | [] => "."
  | "/" :: rest => "/" ++ String.intercalate "/" rest
  | names => String.intercalate "/" names

/-- A path below a directory. -/
def join (directory name : String) : String :=
  if directory = "" ∨ directory.endsWith "/" then directory ++ name else directory ++ "/" ++ name

/-- The path up to its last slash, and the name after it. -/
def splitName (path : String) : String × String :=
  let name := (path.toList.reverse.takeWhile (· != '/')).reverse
  (String.ofList (path.toList.take (path.length - name.length)), String.ofList name)

/-- A name without what follows its last dot; a dot in front does not count. -/
def stem (name : String) : String :=
  let behind := name.toList.reverse.dropWhile (· != '.')
  if behind.length ≤ 1 then name else String.ofList (behind.drop 1).reverse

/-- Puts another extension in place of that of a path. -/
def withExtension (path extension : String) : String :=
  let (directory, name) := splitName path
  directory ++ stem name ++ "." ++ extension

end Path

inductive Node
  | file (content : Content)
  | directory
  deriving DecidableEq

/-- The nodes below the top, no place twice. -/
structure Files where
  nodes : List (Place × Node) := []
  deriving DecidableEq, Inhabited

namespace Files

/-- The top of the tree is a directory. -/
def node? (f : Files) (p : Place) : Option Node :=
  if p.isEmpty then some .directory else f.nodes.lookup p

def contains (f : Files) (p : Place) : Bool := (f.node? p).isSome

/-- Puts a node in the place of an earlier one, or after all others. -/
def putNode (p : Place) (n : Node) : List (Place × Node) → List (Place × Node)
  | [] => [(p, n)]
  | (q, m) :: rest => if p = q then (p, n) :: rest else (q, m) :: putNode p n rest

def put (f : Files) (p : Place) (n : Node) : Files := ⟨putNode p n f.nodes⟩

def remove (f : Files) (p : Place) : Files := ⟨f.nodes.filter (·.1 != p)⟩

/-- Moves a node, if there is one, in place of whatever is at the target. -/
def move (f : Files) (source target : Place) : Files :=
  match f.node? source with
  | some n => (f.remove source).put target n
  | none => f

/-- What stands in the way to a place: something missing, or a file where a directory should be. -/
def obstacle? (f : Files) (p : Place) : Option FileFault :=
  (List.range p.length).findSome? fun i =>
    match f.node? (p.take i) with
    | some .directory => none
    | some (.file _) => some .notDirectory
    | none => some .missing

def readAt (f : Files) (p : Place) : Except FileFault Content :=
  match f.obstacle? p with
  | some fault => .error fault
  | none =>
    match f.node? p with
    | some (.file content) => .ok content
    | some .directory => .error .isDirectory
    | none => .error .missing

def writeAt (f : Files) (p : Place) (content : Content) : Except FileFault Files :=
  match f.obstacle? p with
  | some fault => .error fault
  | none =>
    match f.node? p with
    | some .directory => .error .isDirectory
    | _ => .ok (f.put p (.file content))

/-- Creates a directory with all directories above it. -/
def createDirectoryAt (f : Files) (p : Place) : Except FileFault Files :=
  match f.node? p, f.obstacle? p with
  | some .directory, _ => .ok f
  | some (.file _), _ => .error .occupied
  | none, some .notDirectory => .error .notDirectory
  | none, _ =>
    .ok ((List.range (p.length + 1)).foldl
      (fun f i => if f.contains (p.take i) then f else f.put (p.take i) .directory) f)

/-- An empty path leads nowhere. -/
def read (f : Files) (path : String) : Except FileFault Content :=
  if path.isEmpty then .error .missing else f.readAt (Path.place path)

def readText (f : Files) (path : String) : Except FileFault String :=
  match f.read path with
  | .error fault => .error fault
  | .ok (.text s) => .ok s
  | .ok (.bytes bs) =>
    match String.fromUTF8? (ByteArray.mk bs.toArray) with
    | some s => .ok s
    | none => .error .notText

def write (f : Files) (path : String) (content : Content) : Except FileFault Files :=
  if path.isEmpty then .error .missing else f.writeAt (Path.place path) content

def createDirectory (f : Files) (path : String) : Except FileFault Files :=
  f.createDirectoryAt (Path.place path)

/-- The tree of some files, with the directories they need. -/
def ofList (files : List (String × Content)) : Files :=
  files.foldl (fun f (path, content) =>
    let p := Path.place path
    match f.createDirectoryAt p.dropLast with
    | .ok f => f.put p (.file content)
    | .error _ => f) {}

/-- All files that hold text, by path. -/
def texts (f : Files) : List (String × String) :=
  f.nodes.filterMap fun (p, n) =>
    match n with
    | .file (.text s) => some (Path.ofPlace p, s)
    | _ => none

end Files

end TeachPendant
