import TeachPendant.Document.JsonReader
import TeachPendant.Document.TomlTree

namespace TeachPendant.TomlReader

open Number
open JsonReader (hexValue? isDigit digitValue)

def isBlank (c : Char) : Bool := c == ' ' || c == '\t'

def skipBlanks (cs : List Char) : List Char := cs.dropWhile isBlank

/-- Whether a character may stand in comments and literal texts. -/
def isPlain (c : Char) : Bool := c == '\t' || (32 ≤ c.toNat && c.toNat != 127)

/-- What follows a line break, if there is one. -/
def lineBreak? : List Char → Option (List Char)
  | '\n' :: rest => some rest
  | '\r' :: '\n' :: rest => some rest
  | _ => none

/-- Leaves out a comment up to the end of its line. -/
def skipComment : List Char → List Char
  | '#' :: rest => rest.dropWhile isPlain
  | cs => cs

/-- The end of a line: blanks, a comment, and a line break or the end of the text. -/
def endOfLine (cs : List Char) : Option (List Char) :=
  match skipComment (skipBlanks cs) with
  | [] => some []
  | rest => lineBreak? rest

/-- Leaves out blanks, comments and line breaks. -/
def skipLines : Nat → List Char → List Char
  | 0, cs => cs
  | fuel + 1, cs =>
    let rest := skipComment (skipBlanks cs)
    match lineBreak? rest with
    | some rest => skipLines fuel rest
    | none => rest

/-- A character given by the digits of its number. -/
def scalar? (digits : List Char) : Option Char := do
  let ds ← digits.mapM hexValue?
  let n := ds.foldl (fun v d => v * 16 + d) 0
  if n < 0xD800 ∨ (0xDFFF < n ∧ n < 0x110000) then some (Char.ofNat n) else none

/-- The character that an escape stands for, and what follows it. -/
def escape? : List Char → Option (Char × List Char)
  | 'u' :: rest =>
    if rest.length < 4 then none else (scalar? (rest.take 4)).map fun c => (c, rest.drop 4)
  | 'U' :: rest =>
    if rest.length < 8 then none else (scalar? (rest.take 8)).map fun c => (c, rest.drop 8)
  | '/' :: _ => none
  | c :: rest => (JsonReader.shortEscape? c).map fun c => (c, rest)
  | [] => none

/-- A basic text on one line, up to its closing quote. -/
def basic : Nat → List Char → Option (List Char × List Char)
  | 0, _ => none
  | _, [] => none
  | _, '"' :: rest => some ([], rest)
  | fuel + 1, '\\' :: rest => do
    let (c, rest) ← escape? rest
    let (cs, rest) ← basic fuel rest
    some (c :: cs, rest)
  | fuel + 1, c :: rest =>
    if isPlain c then (basic fuel rest).map fun (cs, rest) => (c :: cs, rest) else none

/-- A literal text on one line. -/
def literal : List Char → Option (List Char × List Char)
  | [] => none
  | c :: rest =>
    if c = '\'' then some ([], rest)
    else if isPlain c then (literal rest).map fun (cs, rest) => (c :: cs, rest)
    else none

/-- Leaves out the line break after the opening quotes of a text of several lines. -/
def afterOpening (cs : List Char) : List Char := (lineBreak? cs).getD cs

/-- What a run of quotes means in a text of several lines: three close it, and up to two more before
them belong to it. -/
def quoteRun (quote : Char) (cs : List Char) : Nat × List Char :=
  ((cs.takeWhile (· == quote)).length, cs.dropWhile (· == quote))

def isSpace (c : Char) : Bool := c == ' ' || c == '\t' || c == '\n' || c == '\r'

/-- A text of several lines up to its closing quotes. With `escapes`, a backslash at the end of a
line takes out all space up to the next character. -/
def longText (quote : Char) (escapes : Bool) : Nat → List Char → Option (List Char × List Char)
  | 0, _ => none
  | _, [] => none
  | fuel + 1, c :: rest =>
    if c = quote then
      let (n, rest) := quoteRun quote (c :: rest)
      if 6 ≤ n then none
      else if 3 ≤ n then some (List.replicate (n - 3) quote, rest)
      else (longText quote escapes fuel rest).map fun (cs, rest) =>
        (List.replicate n quote ++ cs, rest)
    else if escapes && c == '\\' then
      match lineBreak? (skipBlanks rest) with
      | some after => longText quote escapes fuel (after.dropWhile isSpace)
      | none => do
        let (c, rest) ← escape? rest
        let (cs, rest) ← longText quote escapes fuel rest
        some (c :: cs, rest)
    else
      match lineBreak? (c :: rest) with
      | some rest => (longText quote escapes fuel rest).map fun (cs, rest) => ('\n' :: cs, rest)
      | none =>
        if isPlain c then
          (longText quote escapes fuel rest).map fun (cs, rest) => (c :: cs, rest)
        else none

/-- A text of any of the four sorts. -/
def text? (cs : List Char) : Option (String × List Char) :=
  let fuel := cs.length + 1
  let found := match cs with
    | '"' :: '"' :: '"' :: rest => longText '"' true fuel (afterOpening rest)
    | '\'' :: '\'' :: '\'' :: rest => longText '\'' false fuel (afterOpening rest)
    | '"' :: rest => basic fuel rest
    | '\'' :: rest => literal rest
    | _ => none
  found.map fun (cs, rest) => (String.ofList cs, rest)

def isBareKey (c : Char) : Bool :=
  isDigit c || ('a' ≤ c && c ≤ 'z') || ('A' ≤ c && c ≤ 'Z') || c == '_' || c == '-'

/-- One part of a key. -/
def keyPart (cs : List Char) : Option (String × List Char) :=
  match cs with
  | '"' :: rest => (basic (cs.length + 1) rest).map fun (k, rest) => (String.ofList k, rest)
  | '\'' :: rest => (literal rest).map fun (k, rest) => (String.ofList k, rest)
  | _ =>
    match cs.takeWhile isBareKey with
    | [] => none
    | k => some (String.ofList k, cs.dropWhile isBareKey)

/-- A key of parts set apart by dots. -/
def key : Nat → List Char → Option (List String × List Char)
  | 0, _ => none
  | fuel + 1, cs => do
    let (part, rest) ← keyPart (skipBlanks cs)
    match skipBlanks rest with
    | '.' :: rest => do
      let (parts, rest) ← key fuel rest
      some (part :: parts, rest)
    | rest => some ([part], rest)

/-- Whether every underscore stands alone between two digits; `after` tells whether a digit is in
front. -/
def separated (after : Bool) : List Char → Bool
  | [] => after
  | c :: rest => if c = '_' then after && separated false rest else separated true rest

/-- Digits of a base, at least one; single underscores may stand between them. -/
def digits (isDigit : Char → Bool) (cs : List Char) : Option (List Char × List Char) :=
  let run := cs.takeWhile fun c => isDigit c || c == '_'
  if separated false run then
    some (run.filter (· != '_'), cs.dropWhile fun c => isDigit c || c == '_')
  else none

def signPart : List Char → Bool × List Char
  | '-' :: rest => (true, rest)
  | '+' :: rest => (false, rest)
  | cs => (false, cs)

/-- Integers have 64 bits and a sign. -/
def integerOf (negative : Bool) (n : Nat) : Option Document :=
  if negative then if n ≤ 2 ^ 63 then some (.integer (-(n : Int))) else none
  else if n < 2 ^ 63 then some (.integer n) else none

def natural (base : Nat) (ds : List Nat) : Nat := ds.foldl (fun v d => v * base + d) 0

def isBaseDigit (base : Nat) (c : Char) : Bool :=
  match hexValue? c with
  | some v => v < base
  | none => false

/-- An integer in another base, after its opening letters. -/
def based (base : Nat) (rest : List Char) : Option (Document × List Char) := do
  let (ds, rest) ← digits (isBaseDigit base) rest
  let d ← integerOf false (natural base (ds.filterMap hexValue?))
  some (d, rest)

/-- The digits after a point, if there is one. -/
def fractionPart : List Char → Option (Option (List Nat) × List Char)
  | '.' :: cs => (digits isDigit cs).map fun (ds, rest) => (some (ds.map digitValue), rest)
  | cs => some (none, cs)

def exponentPart : List Char → Option (Option Int × List Char)
  | [] => some (none, [])
  | c :: cs =>
    if c = 'e' ∨ c = 'E' then
      let (negative, cs) := signPart cs
      (digits isDigit cs).map fun (ds, rest) =>
        let n : Int := natural 10 (ds.map digitValue)
        (some (if negative then -n else n), rest)
    else some (none, c :: cs)

/-- Numbers past the largest one are refused, past the smallest one they are infinite. -/
def numberOf (n : Numeral) : Option Document :=
  if n.isWhole then integerOf n.negative n.natural
  else
    match n.toDouble? with
    | some x => some (.double x)
    | none => if n.negative then some (.double (.infinite true)) else none

/-- A number in base ten. No zero stands in front of other digits. -/
def decimal (cs : List Char) : Option (Document × List Char) :=
  let (negative, cs) := signPart cs
  match cs with
  | 'i' :: 'n' :: 'f' :: rest => some (.double (.infinite negative), rest)
  | 'n' :: 'a' :: 'n' :: rest => some (.double .nan, rest)
  | _ => do
    let (whole, rest) ← match cs with
      | '0' :: rest => some (['0'], rest)
      | _ => digits isDigit cs
    let (fraction, rest) ← fractionPart rest
    let (exponent, rest) ← exponentPart rest
    let d ← numberOf ⟨negative, whole.map digitValue, fraction, exponent⟩
    some (d, rest)

/-- The number of exactly `n` digits. -/
def fixed (n : Nat) (cs : List Char) : Option (Nat × List Char) :=
  let ds := cs.take n
  if ds.length = n ∧ ds.all isDigit then
    some (ds.foldl (fun v c => v * 10 + digitValue c) 0, cs.drop n)
  else none

def expect (c : Char) : List Char → Option (List Char)
  | d :: rest => if d = c then some rest else none
  | [] => none

def monthDays (year month : Nat) : Nat :=
  if month = 2 then if year % 4 = 0 ∧ (year % 100 ≠ 0 ∨ year % 400 = 0) then 29 else 28
  else if month = 4 ∨ month = 6 ∨ month = 9 ∨ month = 11 then 30
  else 31

def date (cs : List Char) : Option (List Char) := do
  let (year, cs) ← fixed 4 cs
  let cs ← expect '-' cs
  let (month, cs) ← fixed 2 cs
  let cs ← expect '-' cs
  let (day, cs) ← fixed 2 cs
  if 1 ≤ month ∧ month ≤ 12 ∧ 1 ≤ day ∧ day ≤ monthDays year month then some cs else none

/-- A time of the day; a leap second is allowed. -/
def time (cs : List Char) : Option (List Char) := do
  let (hour, cs) ← fixed 2 cs
  let cs ← expect ':' cs
  let (minute, cs) ← fixed 2 cs
  let cs ← expect ':' cs
  let (second, cs) ← fixed 2 cs
  if hour ≤ 23 ∧ minute ≤ 59 ∧ second ≤ 60 then
    match cs with
    | '.' :: rest =>
      match rest.takeWhile isDigit with
      | [] => none
      | _ => some (rest.dropWhile isDigit)
    | _ => some cs
  else none

def offset (cs : List Char) : Option (List Char) :=
  match cs with
  | [] => none
  | c :: rest =>
    if c = 'Z' ∨ c = 'z' then some rest
    else if c = '+' ∨ c = '-' then do
      let (hour, rest) ← fixed 2 rest
      let rest ← expect ':' rest
      let (minute, rest) ← fixed 2 rest
      if hour ≤ 23 ∧ minute ≤ 59 then some rest else none
    else none

/-- The rest of a date and time after the date. -/
def timeAfterDate (cs : List Char) : List Char :=
  match cs with
  | [] => []
  | c :: rest =>
    if c = 'T' ∨ c = 't' ∨ c = ' ' then
      match time rest with
      | some rest => (offset rest).getD rest
      | none => cs
    else cs

/-- Whether digits begin a date or a time rather than a number. -/
def beginsDate (cs : List Char) : Bool := (cs.take 4).all isDigit && cs[4]? == some '-'

def beginsTime (cs : List Char) : Bool := (cs.take 2).all isDigit && cs[2]? == some ':'

def number (cs : List Char) : Option (Document × List Char) :=
  if beginsDate cs then (date cs).map fun rest => (.unreadable, timeAfterDate rest)
  else if beginsTime cs then (time cs).map fun rest => (.unreadable, rest)
  else
    match cs with
    | '0' :: 'x' :: rest => based 16 rest
    | '0' :: 'o' :: rest => based 8 rest
    | '0' :: 'b' :: rest => based 2 rest
    | _ => decimal cs

/-- How deep lists and tables in braces may nest. -/
def nestingLimit : Nat := 80

mutual

/-- One value. The fuel bounds the length, `depth` the nesting. -/
def value : Nat → Nat → List Char → Option (TomlEntry × List Char)
  | 0, _, _ => none
  | fuel + 1, depth, cs =>
    match cs with
    | [] => none
    | 't' :: 'r' :: 'u' :: 'e' :: rest => some (.value (.bool true), rest)
    | 'f' :: 'a' :: 'l' :: 's' :: 'e' :: rest => some (.value (.bool false), rest)
    | '[' :: rest =>
      match depth with
      | 0 => none
      | depth + 1 =>
        (items fuel depth (skipLines rest.length rest)).map fun (ds, rest) =>
          (.value (.list ds), rest)
    | '{' :: rest =>
      match depth with
      | 0 => none
      | depth + 1 =>
        match skipBlanks rest with
        | '}' :: rest => some (.value (.record []), rest)
        | rest =>
          (fields fuel depth [] rest).map fun (fs, rest) => (.value fs.toDocument, rest)
    | c :: _ =>
      if c = '"' ∨ c = '\'' then (text? cs).map fun (s, rest) => (.value (.text s), rest)
      else (number cs).map fun (d, rest) => (.value d, rest)

/-- Items up to the closing bracket; a comma may follow the last one. -/
def items : Nat → Nat → List Char → Option (List Document × List Char)
  | 0, _, _ => none
  | fuel + 1, depth, cs =>
    match cs with
    | ']' :: rest => some ([], rest)
    | _ => do
      let (entry, rest) ← value fuel depth cs
      match skipLines rest.length rest with
      | ']' :: rest => some ([entry.toDocument], rest)
      | ',' :: rest => do
        let (ds, rest) ← items fuel depth (skipLines rest.length rest)
        some (entry.toDocument :: ds, rest)
      | _ => none

/-- Fields up to the closing brace, at least one. -/
def fields : Nat → Nat → TomlFields → List Char → Option (TomlFields × List Char)
  | 0, _, _, _ => none
  | fuel + 1, depth, done, cs => do
    let (path, rest) ← key (cs.length + 1) cs
    let rest ← expect '=' rest
    let (entry, rest) ← value fuel depth (skipBlanks rest)
    let done ← done.assign path entry
    match skipBlanks rest with
    | '}' :: rest => some (done, rest)
    | ',' :: rest => fields fuel depth done rest
    | _ => none

end

/-- The rest of a document, below the header that was opened last. -/
def lines : Nat → List String → TomlFields → List Char → Option TomlFields
  | 0, _, _, _ => none
  | fuel + 1, header, done, cs =>
    match skipLines cs.length cs with
    | [] => some done
    | '[' :: '[' :: rest => do
      let (path, rest) ← key (rest.length + 1) rest
      let rest ← expect ']' rest
      let rest ← expect ']' rest
      let rest ← endOfLine rest
      let done ← done.declareNext path
      lines fuel path done rest
    | '[' :: rest => do
      let (path, rest) ← key (rest.length + 1) rest
      let rest ← expect ']' rest
      let rest ← endOfLine rest
      let done ← done.declare path
      lines fuel path done rest
    | rest => do
      let (path, rest) ← key (rest.length + 1) rest
      let rest ← expect '=' rest
      let (entry, rest) ← value (rest.length + 1) nestingLimit (skipBlanks rest)
      let rest ← endOfLine rest
      let done ← done.assignIn header path entry
      lines fuel header done rest

/-- A whole document. A mark of the byte order may stand in front. -/
def read? (text : String) : Option Document :=
  let cs := match text.toList with
    | '\uFEFF' :: rest => rest
    | cs => cs
  (lines (cs.length + 1) [] [] cs).map TomlFields.toDocument

end TeachPendant.TomlReader
