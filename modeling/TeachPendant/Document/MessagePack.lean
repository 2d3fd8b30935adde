import TeachPendant.Document.Basic

namespace TeachPendant.MessagePack

open Number

/-- The `n` low bytes of a number, the highest first. -/
def bigEndian : Nat → Nat → List UInt8
  | 0, _ => []
  | n + 1, v => UInt8.ofNat (v / 256 ^ n) :: bigEndian n v

/-- The number that bytes spell. -/
def ofBigEndian (bs : List UInt8) : Nat := bs.foldl (fun v b => v * 256 + b.toNat) 0

def natural (n : Nat) : List UInt8 :=
  if n < 0x80 then bigEndian 1 n
  else if n < 2 ^ 8 then 0xcc :: bigEndian 1 n
  else if n < 2 ^ 16 then 0xcd :: bigEndian 2 n
  else if n < 2 ^ 32 then 0xce :: bigEndian 4 n
  else 0xcf :: bigEndian 8 n

/-- A negative number in two's complement. -/
def negative (n : Nat) : List UInt8 :=
  if n ≤ 0x20 then bigEndian 1 (2 ^ 8 - n)
  else if n ≤ 2 ^ 7 then 0xd0 :: bigEndian 1 (2 ^ 8 - n)
  else if n ≤ 2 ^ 15 then 0xd1 :: bigEndian 2 (2 ^ 16 - n)
  else if n ≤ 2 ^ 31 then 0xd2 :: bigEndian 4 (2 ^ 32 - n)
  else 0xd3 :: bigEndian 8 (2 ^ 64 - n)

def integer (z : Int) : List UInt8 := if z < 0 then negative z.natAbs else natural z.natAbs

def textHeader (n : Nat) : List UInt8 :=
  if n < 0x20 then bigEndian 1 (0xa0 + n)
  else if n < 2 ^ 8 then 0xd9 :: bigEndian 1 n
  else if n < 2 ^ 16 then 0xda :: bigEndian 2 n
  else 0xdb :: bigEndian 4 n

def bytesHeader (n : Nat) : List UInt8 :=
  if n < 2 ^ 8 then 0xc4 :: bigEndian 1 n
  else if n < 2 ^ 16 then 0xc5 :: bigEndian 2 n
  else 0xc6 :: bigEndian 4 n

def listHeader (n : Nat) : List UInt8 :=
  if n < 0x10 then bigEndian 1 (0x90 + n)
  else if n < 2 ^ 16 then 0xdc :: bigEndian 2 n
  else 0xdd :: bigEndian 4 n

def recordHeader (n : Nat) : List UInt8 :=
  if n < 0x10 then bigEndian 1 (0x80 + n)
  else if n < 2 ^ 16 then 0xde :: bigEndian 2 n
  else 0xdf :: bigEndian 4 n

def textBytes (s : String) : List UInt8 := s.toUTF8.toList

def text (s : String) : List UInt8 := textHeader (textBytes s).length ++ textBytes s

def key : Key → List UInt8
  | .text s => text s
  | .escaped s => text s
  | .index n => natural n
  | .unreadable => [0xc0]

mutual

def write : Document → List UInt8
  | .null => [0xc0]
  | .bool false => [0xc2]
  | .bool true => [0xc3]
  | .integer z => integer z
  | .single x => 0xca :: bigEndian 4 x.toBits
  | .double x => 0xcb :: bigEndian 8 x.toBits
  | .text s => text s
  | .bytes bs => bytesHeader bs.length ++ bs
  | .unreadable => [0xc0]
  | .list items => listHeader items.length ++ writeItems items
  | .record fields => recordHeader fields.length ++ writeFields fields

def writeItems : List Document → List UInt8
  | [] => []
  | d :: rest => write d ++ writeItems rest

def writeFields : List (Key × Document) → List UInt8
  | [] => []
  | (k, d) :: rest => key k ++ write d ++ writeFields rest

end

/-- Exactly `n` bytes and the rest. -/
def take? (n : Nat) (bs : List UInt8) : Option (List UInt8 × List UInt8) :=
  if n ≤ bs.length then some (bs.take n, bs.drop n) else none

def number? (width : Nat) (bs : List UInt8) : Option (Nat × List UInt8) :=
  (take? width bs).map fun (v, rest) => (ofBigEndian v, rest)

/-- A signed number of `width` bytes. -/
def signed? (width : Nat) (bs : List UInt8) : Option (Int × List UInt8) :=
  (number? width bs).map fun (v, rest) =>
    (if 2 * v < 256 ^ width then (v : Int) else v - 256 ^ width, rest)

/-- Bytes that are no text stand for no value. -/
def textOf (bs : List UInt8) : Document :=
  match String.fromUTF8? (ByteArray.mk bs.toArray) with
  | some s => .text s
  | none => .unreadable

/-- What follows a header byte. -/
inductive Head
  | leaf (d : Document)
  | text (length : Nat)
  | bytes (length : Nat)
  | list (length : Nat)
  | record (length : Nat)

def sized (make : Nat → Head) (width : Nat) (bs : List UInt8) : Option (Head × List UInt8) :=
  (number? width bs).map fun (n, rest) => (make n, rest)

def unsignedLeaf (width : Nat) (bs : List UInt8) : Option (Head × List UInt8) :=
  (number? width bs).map fun (n, rest) => (.leaf (.integer n), rest)

def signedLeaf (width : Nat) (bs : List UInt8) : Option (Head × List UInt8) :=
  (signed? width bs).map fun (z, rest) => (.leaf (.integer z), rest)

/-- Extensions carry a type byte besides their content. -/
def extension (n : Nat) : Head := .bytes (n + 1)

/-- Reads a header and, for numbers, their value. One byte value is never used. -/
def head : List UInt8 → Option (Head × List UInt8)
  | [] => none
  | b :: rest =>
    let n := b.toNat
    if n < 0x80 then some (.leaf (.integer n), rest)
    else if n < 0x90 then some (.record (n - 0x80), rest)
    else if n < 0xa0 then some (.list (n - 0x90), rest)
    else if n < 0xc0 then some (.text (n - 0xa0), rest)
    else if 0xe0 ≤ n then some (.leaf (.integer ((n : Int) - 256)), rest)
    else match n with
      | 0xc0 => some (.leaf .null, rest)
      | 0xc2 => some (.leaf (.bool false), rest)
      | 0xc3 => some (.leaf (.bool true), rest)
      | 0xc4 => sized .bytes 1 rest
      | 0xc5 => sized .bytes 2 rest
      | 0xc6 => sized .bytes 4 rest
      | 0xc7 => sized extension 1 rest
      | 0xc8 => sized extension 2 rest
      | 0xc9 => sized extension 4 rest
      | 0xca => (number? 4 rest).map fun (v, rest) => (.leaf (.single (.ofBits v)), rest)
      | 0xcb => (number? 8 rest).map fun (v, rest) => (.leaf (.double (.ofBits v)), rest)
      | 0xcc => unsignedLeaf 1 rest
      | 0xcd => unsignedLeaf 2 rest
      | 0xce => unsignedLeaf 4 rest
      | 0xcf => unsignedLeaf 8 rest
      | 0xd0 => signedLeaf 1 rest
      | 0xd1 => signedLeaf 2 rest
      | 0xd2 => signedLeaf 4 rest
      | 0xd3 => signedLeaf 8 rest
      | 0xd4 => some (extension 1, rest)
      | 0xd5 => some (extension 2, rest)
      | 0xd6 => some (extension 4, rest)
      | 0xd7 => some (extension 8, rest)
      | 0xd8 => some (extension 16, rest)
      | 0xd9 => sized .text 1 rest
      | 0xda => sized .text 2 rest
      | 0xdb => sized .text 4 rest
      | 0xdc => sized .list 2 rest
      | 0xdd => sized .list 4 rest
      | 0xde => sized .record 2 rest
      | 0xdf => sized .record 4 rest
      | _ => none

def keyOf : Document → Key
  | .text s => .text s
  | .integer z => if z < 0 then .unreadable else .index z.toNat
  | .bytes bs =>
    match String.fromUTF8? (ByteArray.mk bs.toArray) with
    | some s => .text s
    | none => .unreadable
  | _ => .unreadable

mutual

/-- One value. The fuel bounds nesting and lengths. -/
def value : Nat → List UInt8 → Option (Document × List UInt8)
  | 0, _ => none
  | fuel + 1, bs =>
    match head bs with
    | none => none
    | some (.leaf d, rest) => some (d, rest)
    | some (.text n, rest) => (take? n rest).map fun (v, rest) => (textOf v, rest)
    | some (.bytes n, rest) => (take? n rest).map fun (v, rest) => (.bytes v, rest)
    | some (.list n, rest) => (items fuel n rest).map fun (ds, rest) => (.list ds, rest)
    | some (.record n, rest) => (fields fuel n rest).map fun (fs, rest) => (.record fs, rest)

def items : Nat → Nat → List UInt8 → Option (List Document × List UInt8)
  | _, 0, bs => some ([], bs)
  | 0, _ + 1, _ => none
  | fuel + 1, n + 1, bs =>
    match value fuel bs with
    | none => none
    | some (d, bs) => (items fuel n bs).map fun (ds, rest) => (d :: ds, rest)

def fields : Nat → Nat → List UInt8 → Option (List (Key × Document) × List UInt8)
  | _, 0, bs => some ([], bs)
  | 0, _ + 1, _ => none
  | fuel + 1, n + 1, bs =>
    match value fuel bs with
    | none => none
    | some (k, bs) =>
      match value fuel bs with
      | none => none
      | some (d, bs) => (fields fuel n bs).map fun (fs, rest) => ((keyOf k, d) :: fs, rest)

end

/-- The first value of some bytes; bytes after it are ignored. -/
def read? (bs : List UInt8) : Option Document :=
  (value (2 * bs.length + 1) bs).map (·.1)

end TeachPendant.MessagePack
