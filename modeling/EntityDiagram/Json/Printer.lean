import EntityDiagram.Json.Basic

/-!
# `EntityDiagram.Json.Printer`: indented JSON text

Objects and arrays put each member on a line of its own, two spaces deeper than the brackets;
empty ones stay on their line. In strings the quote, the backslash and the control characters are
escaped, and all else stands for itself.

A value is printed at a depth, and each line of it is indented by that. The members of an object are
printed in the order in which they stand, so that a record that is written twice has the same text.
-/

set_option autoImplicit false

namespace EntityDiagram.Json

/-- The hexadecimal digit of `n < 16`, in lower case. -/
def hexDigit (n : Nat) : Char :=
  if n < 10 then Char.ofNat (48 + n) else Char.ofNat (87 + n)

/-- One character inside a quoted string. -/
def escapeChar (c : Char) : List Char :=
  match c with
  | '"' => ['\\', '"']
  | '\\' => ['\\', '\\']
  | '\n' => ['\\', 'n']
  | '\r' => ['\\', 'r']
  | '\t' => ['\\', 't']
  | _ =>
    if c.toNat == 8 then ['\\', 'b']
    else if c.toNat == 12 then ['\\', 'f']
    else if c.toNat < 0x20 then
      ['\\', 'u', '0', '0', hexDigit (c.toNat / 16), hexDigit (c.toNat % 16)]
    else [c]

/-- A string in quotes. -/
def quoted (s : String) : String :=
  "\"" ++ String.ofList (s.toList.flatMap escapeChar) ++ "\""

/-- The digits of `mantissa / 10 ^ places`. -/
def decimalText (mantissa : Int) (places : Nat) : String :=
  let digits := (toString mantissa.natAbs).toList
  let padded := List.replicate (places + 1 - digits.length) '0' ++ digits
  let (whole, fraction) := padded.splitAt (padded.length - places)
  (if mantissa < 0 then "-" else "") ++ String.ofList whole
    ++ (if fraction.isEmpty then ".0" else "." ++ String.ofList fraction)

/-- The start of a line at the given depth. -/
def newline (depth : Nat) : String := "\n" ++ String.ofList (List.replicate (2 * depth) ' ')

mutual

/-- The text of a value whose brackets stand at the given depth. -/
def prettyAt (depth : Nat) : Json → String
  | .null => "null"
  | .bool b => if b then "true" else "false"
  | .int n => toString n
  | .decimal mantissa places => decimalText mantissa places
  | .str s => quoted s
  | .arr [] => "[]"
  | .arr (item :: items) =>
    "[" ++ newline (depth + 1) ++ prettyAt (depth + 1) item ++ prettyItems (depth + 1) items
      ++ newline depth ++ "]"
  | .obj [] => "\x7b\x7d"
  | .obj ((name, value) :: members) =>
    "\x7b" ++ newline (depth + 1) ++ quoted name ++ ": " ++ prettyAt (depth + 1) value
      ++ prettyMembers (depth + 1) members ++ newline depth ++ "\x7d"

/-- The items of an array that follow another one. -/
def prettyItems (depth : Nat) : List Json → String
  | [] => ""
  | item :: items => "," ++ newline depth ++ prettyAt depth item ++ prettyItems depth items

/-- The members of an object that follow another one. -/
def prettyMembers (depth : Nat) : List (String × Json) → String
  | [] => ""
  | (name, value) :: members =>
    "," ++ newline depth ++ quoted name ++ ": " ++ prettyAt depth value
      ++ prettyMembers depth members

end

/-- The indented text of a value. -/
def pretty (j : Json) : String := prettyAt 0 j

end EntityDiagram.Json
