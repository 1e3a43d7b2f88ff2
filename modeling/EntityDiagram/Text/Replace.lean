/-!
# `EntityDiagram.Text.Replace`: searching, replacing and joining

Plain operations on lists of characters: whether one text occurs in another, replacement of every
occurrence from the left, and joining with a separator.

Replacement goes through the text once: what has been put in is not looked at again, and the search
goes on behind what was taken out. Where the text to replace is empty there is nothing to look for,
so that it is given by its first character and the others.
-/

set_option autoImplicit false

namespace EntityDiagram.Text

/-- What follows `lead` in the text, if the text starts with it. -/
def dropLead? : List Char → List Char → Option (List Char)
  | [], s => some s
  | _ :: _, [] => none
  | p :: lead, c :: s => if p == c then dropLead? lead s else none

/-- What precedes `tail` in the text, if the text ends with it. -/
def dropTail? (tail s : List Char) : Option (List Char) :=
  (dropLead? tail.reverse s.reverse).map List.reverse

/-- Whether `needle` occurs in the text. -/
def occurs (needle : List Char) : List Char → Bool
  | [] => needle.isEmpty
  | c :: s => needle.isPrefixOf (c :: s) || occurs needle s

/-- Replaces every occurrence of the text `first :: more`, from the left and without overlap.
`skip` characters at the front belong to an occurrence that has been replaced already. -/
def replaceFrom (first : Char) (more new : List Char) : (skip : Nat) → List Char → List Char
  | _, [] => []
  | skip + 1, _ :: s => replaceFrom first more new skip s
  | 0, c :: s =>
    if c == first && more.isPrefixOf s then new ++ replaceFrom first more new more.length s
    else c :: replaceFrom first more new 0 s

/-- Replaces every occurrence of the text `first :: more` by `new`. -/
def replace (first : Char) (more new : List Char) (s : List Char) : List Char :=
  replaceFrom first more new 0 s

/-- Every quote in the text written twice. -/
def doubleQuotes (quote : Char) (s : List Char) : List Char :=
  s.flatMap fun c => if c == quote then [quote, quote] else [c]

/-- Every pair of quotes in the text written once; a quote without a partner stays. -/
def undoubleQuotes (quote : Char) : List Char → List Char
  | [] => []
  | [c] => [c]
  | c :: d :: rest =>
    if c == quote && d == quote then quote :: undoubleQuotes quote rest
    else c :: undoubleQuotes quote (d :: rest)

/-- The parts with `separator` between neighbours. -/
def joinWith (separator : List Char) (parts : List (List Char)) : List Char :=
  (parts.intersperse separator).flatten

/-- The texts with `separator` between neighbours. -/
def joinTexts (separator : String) (parts : List String) : String :=
  separator.intercalate parts

end EntityDiagram.Text
