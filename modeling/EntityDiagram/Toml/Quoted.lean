import EntityDiagram.Toml.Scan

/-!
# `EntityDiagram.Toml.Quoted`: strings in a document

There are four kinds of strings: basic ones between double quotes, with escapes, and literal ones
between single quotes, without; either kind on one line, or over many between three quotes. In a
string over many lines a line end at the very start does not count, every other one is a line
feed, and one or two quotes stand for themselves, also right before the three that close.
-/

set_option autoImplicit false

namespace EntityDiagram.Toml.Scan

/-- Takes so many hexadecimal digits, which name a character. -/
def codePoint (count : Nat) : Scan Char := do
  let digits ← (List.replicate count ()).mapM fun _ => next
  match ofDigits? 16 digits with
  | some n => do
    require (decide n.isValidChar)
    return Char.ofNat n
  | none => failure

/-- Takes what follows the backslash of an escape. -/
def escape : Scan Char := do
  match ← next with
  | 'b' => return '\x08'
  | 't' => return '\t'
  | 'n' => return '\n'
  | 'f' => return '\x0c'
  | 'r' => return '\r'
  | '"' => return '"'
  | '\\' => return '\\'
  | 'u' => codePoint 4
  | 'U' => codePoint 8
  | _ => failure

/-- Takes one character that stands for itself. -/
def plain : Scan Char := do
  let c ← next
  require (isPlain c)
  return c

/-- Takes the next part of a basic string on one line, unless its end is at the front. -/
def basicPart : Scan (Option Char) := do
  match ← peek with
  | some '"' => return none
  | some '\\' => do
    let _ ← next
    return some (← escape)
  | _ => return some (← plain)

/-- Takes the next part of a literal string on one line, unless its end is at the front. -/
def literalPart : Scan (Option Char) := do
  if (← peek) == some '\'' then return none else return some (← plain)

/-- Takes a line end after a backslash, with all blanks and line ends around it. -/
def foldedLines : Scan Unit := do
  blanks
  require (← newline)
  let _ ← many do
    match ← peek with
    | some c => if isBlank c then blanks; return some () else
      if ← newline then return some () else return none
    | none => return none

/-- Takes the next part of a string over many lines, unless three quotes are at the front. Parts
are texts: a folded line end is an empty one. -/
def longPart (quote : Char) : Scan (Option (List Char)) := do
  let quotes := (← get).takeWhile (· == quote)
  if 3 ≤ quotes.length then return none
  else if !quotes.isEmpty then return some (← takeWhile (· == quote))
  else if ← newline then return some ['\n']
  else if quote == '"' && (← peek) == some '\\' then
    let _ ← next
    if (← attempt foldedLines).isSome then return some [] else return some [← escape]
  else return some [← plain]

/-- Takes a string over many lines after its opening quotes. -/
def long (quote : Char) : Scan String := do
  let _ ← newline
  let parts ← many (longPart quote)
  let closing ← takeWhile (· == quote)
  require (3 ≤ closing.length && closing.length ≤ 5)
  return String.ofList (parts.flatten ++ closing.drop 3)

/-- Takes a string on one line, which a key may be too. -/
def short : Scan String := do
  if ← literal "\"" then
    let s ← many basicPart
    expect "\""
    return String.ofList s
  else
    expect "'"
    let s ← many literalPart
    expect "'"
    return String.ofList s

/-- Takes a string of any kind. -/
def quoted : Scan String := do
  if ← literal "\"\"\"" then long '"'
  else if ← literal "'''" then long '\''
  else short

end EntityDiagram.Toml.Scan
