import EntityDiagram.Toml.Draft
import EntityDiagram.Toml.Number
import EntityDiagram.Toml.Quoted

/-!
# `EntityDiagram.Toml.Document`: reading a document

The lines of a document open tables or give values to keys; blank lines and comments aside, there
is one of them per line, and a value may go on over several. `read` puts the lines together as a
table, if every one of them is well formed and fits those before it.

Brackets nest less than eighty deep, and a dotted key has less than eighty parts.
-/

set_option autoImplicit false

namespace EntityDiagram.Toml

/-- A line of a document. A key is a path and a last part. -/
inductive Line where
  /-- `key = value` -/
  | entry (path : List String) (key : String) (value : Toml)
  /-- `[key]`: the entries that follow go into this table. -/
  | header (path : List String) (key : String)
  /-- `[[key]]`: they go into a new table of this array. -/
  | item (path : List String) (key : String)

namespace Scan

/-- Brackets nest and keys go on less than so deep. -/
def depthLimit : Nat := 80

/-! ### Keys -/

/-- Whether a character may stand in a key without quotes. -/
def isBare (c : Char) : Bool :=
  Text.isAsciiLetter c || Text.isAsciiDigit c || c == '-' || c == '_'

/-- Takes one part of a key. -/
def keyPart : Scan String := do
  blanks
  let part ← match ← peek with
    | some '"' | some '\'' => short
    | _ => do
      let bare ← takeWhile isBare
      require !bare.isEmpty
      pure (String.ofList bare)
  blanks
  return part

/-- Takes a key: parts with points between them. -/
def key : Scan (List String × String) := do
  let first ← keyPart
  let more ← many do if ← literal "." then return some (← keyPart) else return none
  let parts := first :: more
  require (parts.length < depthLimit)
  return (parts.dropLast, parts.getLastD "")

/-! ### Values -/

/-- Takes the items of an array after its opening bracket, and the closing one. A comma may follow
the last item. -/
def arrayItems (item : Scan Toml) : Scan Toml := do
  gap
  let items ← many do
    if (← peek) == some ']' then return none
    else
      let v ← item
      gap
      if ← literal "," then gap else require ((← peek) == some ']')
      return some v
  expect "]"
  return .array items

/-- Takes the entries of a table after its opening brace, and the closing one. They are all on one
line, and no comma follows the last one. -/
def tableEntries (item : Scan Toml) : Scan Toml := do
  let entry : Scan (List String × String × Toml) := do
    let (path, last) ← key
    expect "="
    blanks
    let v ← item
    blanks
    return (path, last, v)
  blanks
  let entries ← if ← literal "\x7d" then pure [] else do
    let first ← entry
    let more ← many do if ← literal "," then return some (← entry) else return none
    expect "\x7d"
    pure (first :: more)
  (ofInline entries).elim failure pure

/-- Takes a value without brackets. -/
def scalar : Scan Toml := do
  match ← peek with
  | some '"' | some '\'' => return .text (← quoted)
  | some 't' => do expect "true"; return .bool true
  | some 'f' => do expect "false"; return .bool false
  | _ => dateOrNumber

/-- Takes a value in which brackets nest at most so deep. -/
def value : (depth : Nat) → Scan Toml
  | 0 => scalar
  | depth + 1 => do
    if ← literal "[" then arrayItems (value depth)
    else if ← literal "\x7b" then tableEntries (value depth)
    else scalar

/-! ### Lines -/

/-- Takes a header after its first bracket. -/
def header : Scan Line := do
  if ← literal "[" then
    let (path, last) ← key
    expect "]]"
    restOfLine
    return .item path last
  else
    let (path, last) ← key
    expect "]"
    restOfLine
    return .header path last

/-- Takes a key with its value. -/
def entry : Scan Line := do
  let (path, last) ← key
  expect "="
  blanks
  let v ← value (depthLimit - 1)
  restOfLine
  return .entry path last v

/-- Takes the next line, which may say nothing, unless the text is at its end. -/
def line : Scan (Option (Option Line)) := do
  blanks
  match ← peek with
  | none => return none
  | some '#' => do restOfLine; return some none
  | some '\n' | some '\x0d' => do endOfLine; return some none
  | some '[' => do
    let _ ← next
    return some (some (← header))
  | _ => return some (some (← entry))

/-- Takes all lines of a document. A byte order mark may stand in front. -/
def lines : Scan (List Line) := do
  let _ ← literal "\uFEFF"
  let all ← many line
  require (← atEnd)
  return all.filterMap id

end Scan

/-! ### Documents -/

/-- A document of which some lines have been read, and the path of the table that is open. -/
structure Progress where
  draft : Draft := {}
  path : List String := []

/-- Adds a line to the document. -/
def Progress.step (p : Progress) : Line → Option Progress
  | .entry path key v => do
    let draft ← p.draft.modifyAt false (·.insert path key v) p.path
    return { p with draft }
  | .header path key => do
    return { draft := ← p.draft.openTable path key, path := path ++ [key] }
  | .item path key => do
    return { draft := ← p.draft.appendTable path key, path := path ++ [key] }

/-- The table that lines make. -/
def ofLines? (lines : List Line) : Option Toml :=
  (lines.foldlM Progress.step {}).map fun p => p.draft.finish

/-- Reads a document as a table. -/
def read (document : String) : Option Toml := do
  let (lines, _) ← Scan.lines.run document.toList
  ofLines? lines

end EntityDiagram.Toml
