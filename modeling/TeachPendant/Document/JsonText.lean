import TeachPendant.Document.Basic
import TeachPendant.Number.Text

namespace TeachPendant.JsonText

open Number

def hexDigit (n : Nat) : Char := if n < 10 then Char.ofNat (48 + n) else Char.ofNat (87 + n)

/-- Quotes, backslashes and control characters are escaped, all else stands for itself. -/
def escapeChar (c : Char) : List Char :=
  if c = '"' then ['\\', '"']
  else if c = '\\' then ['\\', '\\']
  else if c = '\n' then ['\\', 'n']
  else if c = '\r' then ['\\', 'r']
  else if c = '\t' then ['\\', 't']
  else if c = '\x08' then ['\\', 'b']
  else if c = '\x0c' then ['\\', 'f']
  else if c.toNat < 32 then ['\\', 'u', '0', '0', hexDigit (c.toNat / 16), hexDigit (c.toNat % 16)]
  else [c]

def quoted (s : String) : List Char := '"' :: (s.toList.flatMap escapeChar ++ ['"'])

def integer (z : Int) : List Char :=
  if z < 0 then '-' :: digitChars z.natAbs else digitChars z.natAbs

def key : Key → List Char
  | .text s => quoted s
  | .escaped s => quoted s
  | .index n => '"' :: (digitChars n ++ ['"'])
  | .unreadable => quoted ""

/-- How items are set apart: nothing, or a line break and an indentation. -/
inductive Layout
  | compact
  | indented (level : Nat)

namespace Layout

def deeper : Layout → Layout
  | .compact => .compact
  | .indented level => .indented (level + 1)

def lineBreak : Layout → List Char
  | .compact => []
  | .indented level => '\n' :: List.replicate (2 * level) ' '

def colon : Layout → List Char
  | .compact => [':']
  | .indented _ => [':', ' ']

end Layout

mutual

def write (l : Layout) : Document → List Char
  | .null => ['n', 'u', 'l', 'l']
  | .bool true => ['t', 'r', 'u', 'e']
  | .bool false => ['f', 'a', 'l', 's', 'e']
  | .integer z => integer z
  | .single x => x.inJson
  | .double x => x.inJson
  | .text s => quoted s
  | .bytes bs => '[' :: (List.intercalate [','] (bs.map fun b => digitChars b.toNat) ++ [']'])
  | .unreadable => ['n', 'u', 'l', 'l']
  | .list [] => ['[', ']']
  | .list (d :: rest) =>
    '[' :: (l.deeper.lineBreak ++ write l.deeper d ++ writeItems l rest ++ l.lineBreak ++ [']'])
  | .record [] => ['{', '}']
  | .record ((k, d) :: rest) =>
    '{' :: (l.deeper.lineBreak ++ key k ++ l.colon ++ write l.deeper d ++ writeFields l rest ++
      l.lineBreak ++ ['}'])

/-- The items after the first. -/
def writeItems (l : Layout) : List Document → List Char
  | [] => []
  | d :: rest => ',' :: (l.deeper.lineBreak ++ write l.deeper d ++ writeItems l rest)

/-- The fields after the first. -/
def writeFields (l : Layout) : List (Key × Document) → List Char
  | [] => []
  | (k, d) :: rest =>
    ',' :: (l.deeper.lineBreak ++ key k ++ l.colon ++ write l.deeper d ++ writeFields l rest)

end

def compact (d : Document) : String := String.ofList (write .compact d)

def pretty (d : Document) : String := String.ofList (write (.indented 0) d)

end TeachPendant.JsonText
