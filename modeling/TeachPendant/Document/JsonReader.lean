import TeachPendant.Document.Basic
import TeachPendant.Number.Reading

namespace TeachPendant.JsonReader

open Number

/-- A character of a text, or half of one written as a code unit. -/
inductive Piece
  | char (c : Char)
  | unit (n : Nat)
  deriving DecidableEq

def isBlank (c : Char) : Bool := c == ' ' || c == '\n' || c == '\t' || c == '\r'

def skipBlanks (cs : List Char) : List Char := cs.dropWhile isBlank

def hexValue? (c : Char) : Option Nat :=
  if '0' ≤ c ∧ c ≤ '9' then some (c.toNat - 48)
  else if 'a' ≤ c ∧ c ≤ 'f' then some (c.toNat - 87)
  else if 'A' ≤ c ∧ c ≤ 'F' then some (c.toNat - 55)
  else none

def codeUnit? (a b c d : Char) : Option Nat := do
  let a ← hexValue? a
  let b ← hexValue? b
  let c ← hexValue? c
  let d ← hexValue? d
  some (((a * 16 + b) * 16 + c) * 16 + d)

def shortEscape? (c : Char) : Option Char :=
  if c = '"' then some '"'
  else if c = '\\' then some '\\'
  else if c = '/' then some '/'
  else if c = 'b' then some '\x08'
  else if c = 'f' then some '\x0c'
  else if c = 'n' then some '\n'
  else if c = 'r' then some '\r'
  else if c = 't' then some '\t'
  else none

/-- The pieces of a text up to its closing quote. Control characters must be escaped. -/
def pieces : List Char → Option (List Piece × List Char)
  | [] => none
  | '"' :: rest => some ([], rest)
  | '\\' :: 'u' :: a :: b :: c :: d :: rest => do
    let n ← codeUnit? a b c d
    let (ps, rest) ← pieces rest
    some (.unit n :: ps, rest)
  | '\\' :: e :: rest => do
    let c ← shortEscape? e
    let (ps, rest) ← pieces rest
    some (.char c :: ps, rest)
  | c :: rest =>
    if c.toNat < 32 || c = '\\' then none
    else do
      let (ps, rest) ← pieces rest
      some (.char c :: ps, rest)

def isHighHalf (n : Nat) : Bool := 0xD800 ≤ n && n < 0xDC00

def isLowHalf (n : Nat) : Bool := 0xDC00 ≤ n && n < 0xE000

/-- Joins the halves of characters; a half that stands alone makes no text. -/
def join : List Piece → Option (List Char)
  | [] => some []
  | .char c :: rest => (join rest).map (c :: ·)
  | .unit n :: .unit m :: rest =>
    if isHighHalf n then
      if isLowHalf m then
        (join rest).map (Char.ofNat ((n - 0xD800) * 1024 + (m - 0xDC00) + 0x10000) :: ·)
      else none
    else if isLowHalf n then none
    else (join (.unit m :: rest)).map (Char.ofNat n :: ·)
  | .unit n :: rest =>
    if isHighHalf n || isLowHalf n then none else (join rest).map (Char.ofNat n :: ·)

def textOf (ps : List Piece) : Document :=
  match join ps with
  | some cs => .text (String.ofList cs)
  | none => .unreadable

/-- Whether a name was written with an escape: its written form is longer than itself. -/
def keyOf (ps : List Piece) (written : Nat) : Key :=
  match join ps with
  | some cs => if written = cs.length then .text (String.ofList cs) else .escaped (String.ofList cs)
  | none => .unreadable

def isDigit (c : Char) : Bool := '0' ≤ c && c ≤ '9'

def digitValue (c : Char) : Nat := c.toNat - 48

def digitRun (cs : List Char) : List Nat × List Char :=
  ((cs.takeWhile isDigit).map digitValue, cs.dropWhile isDigit)

/-- Digits without a leading zero, unless zero is all there is. -/
def wholePart (cs : List Char) : Option (List Nat × List Char) :=
  match digitRun cs with
  | ([], _) => none
  | (0 :: _ :: _, _) => none
  | run => some run

def fractionPart : List Char → Option (Option (List Nat) × List Char)
  | '.' :: cs =>
    match digitRun cs with
    | ([], _) => none
    | (ds, rest) => some (some ds, rest)
  | cs => some (none, cs)

def signPart : List Char → Bool × List Char
  | '+' :: cs => (false, cs)
  | '-' :: cs => (true, cs)
  | cs => (false, cs)

def exponentPart : List Char → Option (Option Int × List Char)
  | c :: cs =>
    if c = 'e' ∨ c = 'E' then
      let (negative, cs) := signPart cs
      match digitRun cs with
      | ([], _) => none
      | (ds, rest) =>
        let n : Int := (ds.foldl (fun s d => s * 10 + d) 0 : Nat)
        some (some (if negative then -n else n), rest)
    else some (none, c :: cs)
  | [] => some (none, [])

def numeral (negative : Bool) (cs : List Char) : Option (Numeral × List Char) := do
  let (whole, cs) ← wholePart cs
  let (fraction, cs) ← fractionPart cs
  let (exponent, cs) ← exponentPart cs
  some (⟨negative, whole, fraction, exponent⟩, cs)

/-- Whole numerals are integers while they fit 64 bits; the negative zero is not one of them. -/
def numberOf (n : Numeral) : Document :=
  let fits := n.isWhole &&
    if n.negative then 0 < n.natural && n.natural ≤ 2 ^ 63 else n.natural < 2 ^ 64
  if fits then .integer (if n.negative then -(n.natural : Int) else n.natural)
  else
    match n.toDouble? with
    | some x => .double x
    | none => .unreadable

mutual

/-- One value. The fuel bounds the nesting. -/
def value : Nat → List Char → Option (Document × List Char)
  | 0, _ => none
  | fuel + 1, cs =>
    match skipBlanks cs with
    | 'n' :: 'u' :: 'l' :: 'l' :: rest => some (.null, rest)
    | 't' :: 'r' :: 'u' :: 'e' :: rest => some (.bool true, rest)
    | 'f' :: 'a' :: 'l' :: 's' :: 'e' :: rest => some (.bool false, rest)
    | '"' :: rest => do
      let (ps, rest) ← pieces rest
      some (textOf ps, rest)
    | '[' :: rest =>
      match skipBlanks rest with
      | ']' :: rest => some (.list [], rest)
      | rest => do
        let (items, rest) ← items fuel rest
        some (.list items, rest)
    | '{' :: rest =>
      match skipBlanks rest with
      | '}' :: rest => some (.record [], rest)
      | rest => do
        let (fields, rest) ← fields fuel rest
        some (.record fields, rest)
    | '-' :: rest => do
      let (n, rest) ← numeral true rest
      some (numberOf n, rest)
    | rest => do
      let (n, rest) ← numeral false rest
      some (numberOf n, rest)

/-- Items up to the closing bracket, at least one. -/
def items : Nat → List Char → Option (List Document × List Char)
  | 0, _ => none
  | fuel + 1, cs => do
    let (d, cs) ← value fuel cs
    match skipBlanks cs with
    | ']' :: rest => some ([d], rest)
    | ',' :: rest => do
      let (ds, rest) ← items fuel rest
      some (d :: ds, rest)
    | _ => none

/-- Fields up to the closing brace, at least one. -/
def fields : Nat → List Char → Option (List (Key × Document) × List Char)
  | 0, _ => none
  | fuel + 1, cs =>
    match skipBlanks cs with
    | '"' :: cs => do
      let (ps, rest) ← pieces cs
      match skipBlanks rest with
      | ':' :: after => do
        let (d, after) ← value fuel after
        let k := keyOf ps (cs.length - rest.length - 1)
        match skipBlanks after with
        | '}' :: after => some ([(k, d)], after)
        | ',' :: after => do
          let (fs, after) ← fields fuel after
          some ((k, d) :: fs, after)
        | _ => none
      | _ => none
    | _ => none

end

/-- A whole text: one value and nothing after it but blanks. -/
def read? (text : String) : Option Document :=
  let cs := text.toList
  match value (cs.length + 1) cs with
  | some (d, rest) => if (skipBlanks rest).isEmpty then some d else none
  | none => none

end TeachPendant.JsonReader
