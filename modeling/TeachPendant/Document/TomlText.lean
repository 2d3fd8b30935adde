import TeachPendant.Document.JsonText

namespace TeachPendant.TomlText

open Number

/-- The most of a character that stands in a row. -/
def longestRun (c : Char) : List Char → Nat → Nat
  | [], n => n
  | d :: rest, n => if d = c then longestRun c rest (n + 1) else max n (longestRun c rest 0)

def isControl (c : Char) : Bool := c != '\t' && c != '\n' && (c.toNat < 32 || c.toNat == 127)

def hexDigit (n : Nat) : Char := if n < 10 then Char.ofNat (48 + n) else Char.ofNat (55 + n)

/-- An escaped character; in a text of several lines, line breaks and up to two quotes in a row
stand for themselves. -/
def escapeChar (long : Bool) (c : Char) : List Char :=
  if c = '\x08' then ['\\', 'b']
  else if c = '\t' then ['\\', 't']
  else if c = '\n' then if long then ['\n'] else ['\\', 'n']
  else if c = '\x0c' then ['\\', 'f']
  else if c = '\r' then ['\\', 'r']
  else if c = '\\' then ['\\', '\\']
  else if c.toNat < 32 || c.toNat == 127 then
    ['\\', 'u', '0', '0', hexDigit (c.toNat / 16), hexDigit (c.toNat % 16)]
  else [c]

/-- Escapes the characters of a text; `quotes` counts the quotes in a row so far. -/
def escaped (long : Bool) (quotes : Nat) : List Char → List Char
  | [] => []
  | c :: rest =>
    if c = '"' then
      if quotes < (if long then 2 else 0) then '"' :: escaped long (quotes + 1) rest
      else '\\' :: '"' :: escaped long 0 rest
    else escapeChar long c ++ escaped long 0 rest

/-- The plainest of the four sorts of texts that holds the characters, escapes being the last
resort. -/
def text (cs : List Char) : List Char :=
  let control := cs.any isControl
  let backslash := cs.contains '\\'
  let line := cs.contains '\n'
  let double := longestRun '"' cs 0
  let single := longestRun '\'' cs 0
  let opening := if line then ['\n'] else []
  if !control && !backslash && double == 0 && !line then
    ['"'] ++ escaped false 0 cs ++ ['"']
  else if !control && single == 0 && !line then ['\''] ++ cs ++ ['\'']
  else if !control && !backslash && double ≤ 2 then
    ['"', '"', '"'] ++ opening ++ escaped true 0 cs ++ ['"', '"', '"']
  else if !control && single ≤ 2 then
    ['\'', '\'', '\''] ++ opening ++ cs ++ ['\'', '\'', '\'']
  else if line then ['"', '"', '"'] ++ opening ++ escaped true 0 cs ++ ['"', '"', '"']
  else ['"'] ++ escaped false 0 cs ++ ['"']

/-- A value without parts. -/
def leaf : Document → List Char
  | .bool b => if b then ['t', 'r', 'u', 'e'] else ['f', 'a', 'l', 's', 'e']
  | .integer z => JsonText.integer z
  | .text s => text s.toList
  | _ => ['"', '"']

def field (f : String × Document) : List Char := f.1.toList ++ [' ', '=', ' '] ++ leaf f.2 ++ ['\n']

def table (t : String × List (String × Document)) : List Char :=
  ['['] ++ t.1.toList ++ [']', '\n'] ++ t.2.flatMap field

def write (tables : List (String × List (String × Document))) : String :=
  String.ofList (List.intercalate ['\n'] (tables.map table))

end TeachPendant.TomlText
