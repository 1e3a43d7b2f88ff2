import EntityDiagram.Text.Replace
import EntityDiagram.Text.Space

/-!
# `EntityDiagram.Sql.Literal`: quoted literals and top-level commas

A string literal stands in single quotes, with each quote inside written twice: `quoted` writes
and `unquoted` reads it. `splitTopLevel` cuts a text at the commas that are neither quoted nor in
parentheses.

Quotes are of three kinds for this, and a quote of one kind means nothing inside another kind. The
count of open parentheses never goes below zero: a parenthesis too many is ignored. `Nesting` is the
state of the count, and `Nesting.step` takes one character.
-/

set_option autoImplicit false

namespace EntityDiagram.Sql

open Text (trim)

/-- The text as a literal in single quotes. -/
def quoted (s : List Char) : List Char := '\'' :: Text.doubleQuotes '\'' s ++ ['\'']

/-- The text of a literal in single quotes; a text that is no such literal is only trimmed. -/
def unquoted (literal : List Char) : List Char :=
  match trim literal with
  | '\'' :: rest =>
    match rest.reverse with
    | '\'' :: inner => Text.undoubleQuotes '\'' inner.reverse
    | _ => '\'' :: rest
  | bare => bare

/-! ### Top-level commas -/

/-- Whether the character quotes a text: a single or double quote or a backtick. -/
def isQuote (c : Char) : Bool := c == '\'' || c == '"' || c == '`'

/-- Where a scan stands: how deep in parentheses, and inside which quotes. -/
structure Nesting where
  depth : Nat := 0
  quote : Option Char := none
deriving DecidableEq, Repr

namespace Nesting

/-- Whether the scan is neither in parentheses nor in quotes. -/
def isTop (n : Nesting) : Bool := n.depth == 0 && n.quote.isNone

/-- The state after one more character. A closing parenthesis without an opening one is ignored. -/
def step (n : Nesting) (c : Char) : Nesting :=
  match n.quote with
  | some q => if c == q then { n with quote := none } else n
  | none =>
    if c == '\'' || c == '"' || c == '`' then { n with quote := some c }
    else if c == '(' then { n with depth := n.depth + 1 }
    else if c == ')' then { n with depth := n.depth - 1 }
    else n

end Nesting

/-- The pieces of a text between the commas at top level; the first continues what is open. -/
def piecesFrom (n : Nesting) : List Char → List (List Char)
  | [] => [[]]
  | c :: rest =>
    if c == ',' && n.isTop then [] :: piecesFrom n rest
    else match piecesFrom (n.step c) rest with
      -- Never reached, as there is always a piece.
      | [] => [[c]]
      | piece :: more => (c :: piece) :: more

/-- The parts of a text between the commas at top level, trimmed; blank ones are left out. -/
def splitTopLevel (body : List Char) : List (List Char) :=
  ((piecesFrom {} body).map trim).filter (!·.isEmpty)

end EntityDiagram.Sql
