import EntityDiagram.Text.CodeRange
import EntityDiagram.Text.Replace

/-!
# `EntityDiagram.Toml.Scan`: taking a document apart from the front

A `Scan` takes characters from the front of a text and yields something, or fails. Why a document
is refused is never told, so a failure says nothing.

A scan is repeated with `many`, which carries a bound on its rounds: the number of characters of the
text. A round that takes nothing could not go on for ever with that, and one that takes something
never comes to the bound.
-/

set_option autoImplicit false

namespace EntityDiagram.Toml

/-- A function that takes characters from the front of a text. -/
abbrev Scan (α : Type) := StateT (List Char) Option α

namespace Scan

variable {α β : Type}

/-- What the scan yields, or nothing taken if it fails. -/
def attempt (scan : Scan α) : Scan (Option α) := fun s =>
  match scan s with
  | some (a, rest) => some (some a, rest)
  | none => some (none, s)

/-- Goes on only if the condition holds. -/
def require (condition : Bool) : Scan Unit := if condition then pure () else failure

/-- The character at the front. -/
def peek : Scan (Option Char) := return (← get).head?

/-- Whether the text is at its end. -/
def atEnd : Scan Bool := return (← get).isEmpty

/-- Takes the text if it is at the front. -/
def literal (lead : String) : Scan Bool := do
  match Text.dropLead? lead.toList (← get) with
  | some rest => do set rest; return true
  | none => return false

/-- Takes one of the texts if it is at the front. -/
def anyOf : List String → Scan Bool
  | [] => return false
  | lead :: leads => do if ← literal lead then return true else anyOf leads

/-- Takes a text that has to be there. -/
def expect (lead : String) : Scan Unit := do require (← literal lead)

/-- Takes the characters at the front that satisfy `p`. -/
def takeWhile (p : Char → Bool) : Scan (List Char) := do
  let s ← get
  set (s.dropWhile p)
  return s.takeWhile p

/-- Takes one character. -/
def next : Scan Char := do
  match ← get with
  | c :: rest => do set rest; return c
  | [] => failure

/-- What the scan yields, with the characters that it has taken. -/
def withSource (scan : Scan α) : Scan (α × String) := do
  let before ← get
  let a ← scan
  let after ← get
  return (a, String.ofList (before.take (before.length - after.length)))

/-- What the scan yields again and again until it yields nothing, at most so many times. -/
def manyUpTo (scan : Scan (Option α)) : (fuel : Nat) → Scan (List α)
  | 0 => pure []
  | fuel + 1 => do
    match ← scan with
    | some a => return a :: (← manyUpTo scan fuel)
    | none => return []

/-- What the scan yields again and again until it yields nothing. A scan that yields something
takes a character, so the length of the text bounds the rounds. -/
def many (scan : Scan (Option α)) : Scan (List α) := do
  manyUpTo scan (← get).length

/-! ### Blanks, comments and line ends -/

/-- A space or a tab. -/
def isBlank (c : Char) : Bool := c == ' ' || c == '\t'

/-- Whether a character may stand in a comment or a string: no control character but the tab. -/
def isPlain (c : Char) : Bool := c == '\t' || (' ' ≤ c && c.toNat != 0x7F)

/-- Takes spaces and tabs. -/
def blanks : Scan Unit := do let _ ← takeWhile isBlank

/-- Takes the end of a line if it is at the front: a line feed, or a carriage return with one. -/
def newline : Scan Bool := do
  anyOf ["\n", "\x0d\n"]

/-- Takes a comment, up to the end of its line, if it is at the front. -/
def comment : Scan Bool := do
  if ← literal "#" then
    let _ ← takeWhile isPlain
    return true
  else return false

/-- Takes the end of a line, which may be the end of the text. -/
def endOfLine : Scan Unit := do
  if !(← newline) then require (← atEnd)

/-- Takes what may follow a statement on its line: blanks and a comment. -/
def restOfLine : Scan Unit := do
  blanks
  let _ ← comment
  endOfLine

/-- Takes blanks, line ends and comments with the ends of their lines. -/
def gap : Scan Unit := do
  blanks
  let _ ← many do
    if ← comment then require (← newline); blanks; return some ()
    else if ← newline then blanks; return some ()
    else return none

end Scan

/-! ### Digits -/

/-- The value of a digit in a base up to sixteen, if it is one of the base. -/
def digitValue? (base : Nat) (c : Char) : Option Nat :=
  let value :=
    if Text.isAsciiDigit c then c.toNat - '0'.toNat
    else if 'a' ≤ c && c ≤ 'f' then c.toNat - 'a'.toNat + 10
    else if 'A' ≤ c && c ≤ 'F' then c.toNat - 'A'.toNat + 10
    else base
  if value < base then some value else none

/-- The number that digits write. -/
def ofDigits? (base : Nat) (digits : List Char) : Option Nat :=
  (digits.mapM (digitValue? base)).map fun values => values.foldl (fun n d => base * n + d) 0

end EntityDiagram.Toml
