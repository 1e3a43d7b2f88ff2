import EntityDiagram.Statement.Basic
import EntityDiagram.Text.Casing

/-!
# `EntityDiagram.Statement.Token`: the tokens of the strict grammar

The strict grammar sees words, numbers, literals and symbols. No word is reserved here: a word
carries its upper-case form, and a rule of the grammar asks for the keyword that it needs. A quoted
word is never a keyword.

A literal keeps its kind, since the letter in front of it or the way it is quoted decides where it
may stand.
-/

set_option autoImplicit false

namespace EntityDiagram.Statement

/-- A word of a script. -/
structure Word where
  value : String
  /-- The mark that quotes the word, if it is quoted. -/
  quote : Option Char := none
  /-- The word in upper case; empty if it is quoted. -/
  keyword : String := ""
deriving DecidableEq, Repr, Inhabited

/-- A word that is not quoted. -/
def Word.bare (value : String) : Word := { value, keyword := Text.upperText value }

/-- The word as an identifier. -/
def Word.ident (w : Word) : Ident := { value := w.value, quote := w.quote }

/-- A token of a script. -/
inductive Token where
  | word (w : Word)
  | number (digits : String)
  /-- A string literal between marks, decoded. -/
  | text (mark : Char) (value : String)
  /-- A string literal `E'…'`, decoded. -/
  | escaped (value : String)
  /-- A string literal `U&'…'`, decoded. -/
  | unicode (value : String)
  /-- Any other literal or a placeholder, in normal form. -/
  | literal (normal : String)
  | symbol (s : String)
deriving DecidableEq, Repr, Inhabited

namespace Token

/-- Whether the token is this keyword. -/
def isKeyword (t : Token) (k : String) : Bool :=
  match t with
  | .word w => w.keyword == k
  | _ => false

/-- The keyword that the token is; empty if it is none. -/
def keyword : Token → String
  | .word w => w.keyword
  | _ => ""

/-! ### Normal forms of literals -/

/-- A character of a literal `E'…'` in normal form. -/
def escapedChar (c : Char) : List Char :=
  match c with
  | '\'' => ['\\', '\'']
  | '\\' => ['\\', '\\']
  | '\n' => ['\\', 'n']
  | '\t' => ['\\', 't']
  | '\r' => ['\\', 'r']
  | c => [c]

/-- A number in upper-case hexadecimal digits, with zeros in front up to a width. -/
def hexadecimal (width n : Nat) : List Char :=
  let digits := (Nat.toDigits 16 n).map Char.toUpper
  List.replicate (width - digits.length) '0' ++ digits

/-- A character of a literal `U&'…'` in normal form. -/
def unicodeChar (c : Char) : List Char :=
  if c == '\'' then ['\'', '\'']
  else if c == '\\' then ['\\', '\\']
  else if c.toNat < 0x80 then [c]
  else if c.toNat ≤ 0xFFFF then '\\' :: hexadecimal 4 c.toNat
  else '\\' :: '+' :: hexadecimal 6 c.toNat

/-- The normal form of a token that is a literal. -/
def literalText? : Token → Option String
  | .number digits => some digits
  | .text mark value => some (quotedBy mark value)
  | .escaped value => some ("E'" ++ String.ofList (value.toList.flatMap escapedChar) ++ "'")
  | .unicode value => some ("U&'" ++ String.ofList (value.toList.flatMap unicodeChar) ++ "'")
  | .literal normal => some normal
  | .word _ | .symbol _ => none

/-- The token as it may be written in a script. -/
def source (t : Token) : String :=
  match t with
  | .word w => w.ident.text
  | .symbol s => s
  | t => (literalText? t).getD ""

end Token

end EntityDiagram.Statement
