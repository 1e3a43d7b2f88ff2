import EntityDiagram.Toml.Document
import EntityDiagram.Toml.Format

/-!
# `EntityDiagram.Toml.Printer`: the text of a document

A document is written with its plain entries first, then a section for each entry that is a table,
with an empty line before its header. An array of more than one item is written with an item on
each line. A string is written in the plainest form that holds it: on one line with escapes for
nothing but a tab, then literally, then over many lines, and with escapes only where none of these
will do.
-/

set_option autoImplicit false

namespace EntityDiagram.Toml

/-! ### Strings -/

/-- The greatest number of neighbouring occurrences of `quote`; `run` of them precede. -/
def longestRun (quote : Char) : (run : Nat) → List Char → Nat
  | run, [] => run
  | run, c :: s =>
    if c == quote then longestRun quote (run + 1) s else max run (longestRun quote 0 s)

/-- A control character that no string may hold as such: neither a tab nor a line feed. -/
def isControl (c : Char) : Bool := c != '\t' && c != '\n' && (c < ' ' || c.toNat == 0x7F)

/-- The way a string is written. -/
inductive Quoting where
  | basic
  | literal
  /-- With escapes, between three quotes each. -/
  | longBasic
  | longLiteral
deriving DecidableEq, Repr

/-- The plainest way that holds the string. -/
def Quoting.of (s : List Char) : Quoting :=
  let singles := longestRun '\'' 0 s
  let doubles := longestRun '"' 0 s
  let hasControl := s.any isControl
  let hasNewline := s.contains '\n'
  let hasBackslash := s.contains '\\'
  if !hasControl && !hasBackslash && doubles == 0 && !hasNewline then .basic
  else if !hasControl && singles == 0 && !hasNewline then .literal
  else if !hasControl && !hasBackslash && doubles ≤ 2 then .longBasic
  else if !hasControl && singles ≤ 2 then .longLiteral
  else if hasNewline then .longBasic
  else .basic

/-- The upper-case hexadecimal digit of `n < 16`. -/
def hexDigit (n : Nat) : Char := if n < 10 then Char.ofNat (48 + n) else Char.ofNat (55 + n)

/-- A character between double quotes. -/
def escaped (c : Char) : List Char :=
  match c with
  | '\x08' => ['\\', 'b']
  | '\t' => ['\\', 't']
  | '\n' => ['\\', 'n']
  | '\x0c' => ['\\', 'f']
  | '\x0d' => ['\\', 'r']
  | '"' => ['\\', '"']
  | '\\' => ['\\', '\\']
  | _ =>
    if isControl c then ['\\', 'u', '0', '0', hexDigit (c.toNat / 16), hexDigit (c.toNat % 16)]
    else [c]

/-- A string between three double quotes: line feeds stand for themselves, and so do quotes, but
every third one in a row is escaped. `run` quotes precede. -/
def escapedLong : (run : Nat) → List Char → List Char
  | _, [] => []
  | run, '"' :: s =>
    if run == 2 then '\\' :: '"' :: escapedLong 0 s else '"' :: escapedLong (run + 1) s
  | _, '\n' :: s => '\n' :: escapedLong 0 s
  | _, c :: s => escaped c ++ escapedLong 0 s

/-- A string in quotes. -/
def quoted (s : String) : String :=
  let chars := s.toList
  let start := if chars.contains '\n' then "\n" else ""
  match Quoting.of chars with
  | .basic => "\"" ++ String.ofList (chars.flatMap escaped) ++ "\""
  | .literal => "'" ++ s ++ "'"
  | .longBasic => "\"\"\"" ++ start ++ String.ofList (escapedLong 0 chars) ++ "\"\"\""
  | .longLiteral => "'''" ++ start ++ s ++ "'''"

/-! ### Values and documents -/

/-- A key, in quotes if it has to be. -/
def keyText (key : String) : String :=
  let isBare (c : Char) := Text.isAsciiLetter c || Text.isAsciiDigit c || c == '-' || c == '_'
  if !key.isEmpty && key.toList.all isBare then key
  else "\"" ++ String.ofList (key.toList.flatMap escaped) ++ "\""

mutual

/-- The text of a value. -/
def valueText : Toml → String
  | .text s => quoted s
  | .integer n => toString n
  | .float source | .date source => source
  | .bool b => if b then "true" else "false"
  | .array [] => "[]"
  | .array [item] => "[" ++ valueText item ++ "]"
  | .array items => "[\n" ++ itemLines items ++ "]"
  | .table [] => "\x7b\x7d"
  | .table ((key, v) :: entries) =>
    "\x7b " ++ keyText key ++ " = " ++ valueText v ++ moreEntries entries ++ " \x7d"

/-- The items of an array, each on its line. -/
def itemLines : List Toml → String
  | [] => ""
  | item :: items => "    " ++ valueText item ++ ",\n" ++ itemLines items

/-- The entries of a table in braces that follow another one. -/
def moreEntries : List (String × Toml) → String
  | [] => ""
  | (key, v) :: entries => ", " ++ keyText key ++ " = " ++ valueText v ++ moreEntries entries

end

/-- Whether an entry is written as a section. -/
def isSection : String × Toml → Bool
  | (_, .table _) => true
  | _ => false

/-- The line of an entry. -/
def entryLine (entry : String × Toml) : String :=
  keyText entry.1 ++ " = " ++ valueText entry.2 ++ "\n"

/-- The lines of an entry that is a table. -/
def section? : String × Toml → Option String
  | (key, .table entries) =>
    some ("[" ++ keyText key ++ "]\n" ++ String.join (entries.map entryLine))
  | _ => none

/-- The text of a document. -/
def document (entries : List (String × Toml)) : String :=
  let plain := (entries.filter (!isSection ·)).map entryLine
  let sections := entries.filterMap section?
  "\n".intercalate ((if plain.isEmpty then [] else [String.join plain]) ++ sections)

/-- The format in which the program reads and writes files. -/
def format : Format where
  read := read
  write := document

end EntityDiagram.Toml
