import EntityDiagram.Sql.Literal
import EntityDiagram.Text.Casing

/-!
# `EntityDiagram.Ddl.Token`: the words of data definition scripts

The tolerant reader of scripts sees names, literals, numbers, five symbols and those words that
steer the structure of a statement. Every other word, such as the name of a type, is a name. The
last token of a script is `eof`.

A name and a keyword are told apart by spelling alone, wherever they stand, unless the name is
quoted. Whether a name spells a certain word is asked with `isWord`, in any letter case. `source` is
the text of a token as far as it is kept: without the quotes of a name, and with those of a literal.
-/

set_option autoImplicit false

namespace EntityDiagram.Ddl

/-- The words that steer the structure of a statement. -/
inductive Keyword where
  | create | alter | add | table | view | index | unique | primary | key | foreign | references
  | constraint | not | null | default | on | ifWord | exists | check
deriving DecidableEq, Repr

namespace Keyword

/-- The keyword in upper case. -/
def word : Keyword → String
  | .create => "CREATE"
  | .alter => "ALTER"
  | .add => "ADD"
  | .table => "TABLE"
  | .view => "VIEW"
  | .index => "INDEX"
  | .unique => "UNIQUE"
  | .primary => "PRIMARY"
  | .key => "KEY"
  | .foreign => "FOREIGN"
  | .references => "REFERENCES"
  | .constraint => "CONSTRAINT"
  | .not => "NOT"
  | .null => "NULL"
  | .default => "DEFAULT"
  | .on => "ON"
  | .ifWord => "IF"
  | .exists => "EXISTS"
  | .check => "CHECK"

/-- All keywords. -/
def all : List Keyword :=
  [.create, .alter, .add, .table, .view, .index, .unique, .primary, .key, .foreign, .references,
   .constraint, .not, .null, .default, .on, .ifWord, .exists, .check]

/-- The keyword that an upper-case word is, if any. -/
def ofWord? (w : String) : Option Keyword := all.find? (·.word == w)

end Keyword

/-- A token of a script. -/
inductive Token where
  | keyword (k : Keyword)
  /-- A word that is no keyword, or a quoted name, without its quotes. -/
  | name (s : String)
  /-- A string literal, decoded. -/
  | text (s : String)
  | number (s : String)
  | openParen
  | closeParen
  | comma
  | semicolon
  | dot
  /-- The end of the script. -/
  | eof
deriving DecidableEq, Repr, Inhabited

namespace Token

/-- The token of an unquoted word: a keyword in any letter case, or else a name. -/
def ofWord (w : List Char) : Token :=
  match Keyword.ofWord? (String.ofList (Text.upper w)) with
  | some k => .keyword k
  | none => .name (String.ofList w)

/-- Whether the token is the name `w`, ASCII case aside. -/
def isWord (t : Token) (w : String) : Bool :=
  match t with
  | .name s => Text.eqIgnoreCase s w
  | _ => false

/-- The token as it may be written in a script. -/
def source : Token → String
  | .keyword k => k.word
  | .name s | .number s => s
  | .text s => String.ofList (Sql.quoted s.toList)
  | .openParen => "("
  | .closeParen => ")"
  | .comma => ","
  | .semicolon => ";"
  | .dot => "."
  | .eof => ""

end Token

end EntityDiagram.Ddl
