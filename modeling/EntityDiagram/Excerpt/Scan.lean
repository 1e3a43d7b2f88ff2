import EntityDiagram.Sql.Literal
import EntityDiagram.Sql.Name
import EntityDiagram.Text.Pattern

/-!
# `EntityDiagram.Excerpt.Scan`: cutting table definitions out of a text

Where no grammar fits, table definitions are found by their heads: `scan` looks for
`CREATE TABLE name (`, and takes everything up to the parenthesis that closes the head's as the
body. Comments are removed first; quoted text is never looked into. A head whose parenthesis is
never closed is reported by its name, and the search goes on behind it.

The end of a body is found by counting parentheses outside of quotes. Behind the body the comment of
the table is looked for, up to the next semicolon. The scan goes on from the end of the body, so
that the tables of a script come in the order of their heads and none of them stands inside another
one's body.
-/

set_option autoImplicit false

namespace EntityDiagram.Excerpt

open Text (isSpace isWordChar Pattern Place Span)
open Text.Pattern
open Sql (isQuote)

/-! ### Comments -/

/-- What the characters that come next belong to. -/
inductive CommentMode where
  | code
  /-- A text that the mark closes. -/
  | quoted (mark : Char)
  | line
  /-- A block comment; `star` says whether its last character was a star. -/
  | block (star : Bool)
deriving DecidableEq, Repr

/-- The text without its comments, of which a block leaves a space behind. -/
def stripFrom : CommentMode → List Char → List Char
  | _, [] => []
  | .quoted mark, c :: rest => c :: stripFrom (if c == mark then .code else .quoted mark) rest
  | .line, c :: rest => if c == '\n' then c :: stripFrom .code rest else stripFrom .line rest
  | .block star, c :: rest =>
    if star && c == '/' then stripFrom .code rest else stripFrom (.block (c == '*')) rest
  | .code, c :: rest =>
    if isQuote c then c :: stripFrom (.quoted c) rest
    else match c, rest with
      | '-', '-' :: more => stripFrom .line more
      | '/', '*' :: more => ' ' :: stripFrom (.block false) more
      | c, rest => c :: stripFrom .code rest

/-- The text without the comments outside quoted text. -/
def stripComments (sql : List Char) : List Char := stripFrom .code sql

/-! ### Names and heads -/

/-- A possibly qualified and quoted name. -/
def qualifiedName : Pattern Span :=
  span (some1 fun c =>
    c == '`' || c == '"' || c == '[' || c == ']' || isWordChar c || c == '$' || c == '.')

/-- A name, possibly quoted. -/
def plainName : Pattern Span :=
  span (do
    let _ ← optional (char fun c => c == '`' || c == '"' || c == '[')
    some1 fun c => isWordChar c || c == '$'
    let _ ← optional (char fun c => c == '`' || c == '"' || c == ']'))

/-- The head of a table definition up to its opening parenthesis; the value is the name. -/
def tableHead : Pattern Span := do
  boundary; word "CREATE"; spaces1
  let _ ← optional (do word "TEMPORARY"; spaces1)
  word "TABLE"; spaces1
  let _ ← optional (do word "IF"; spaces1; word "NOT"; spaces1; word "EXISTS"; spaces1)
  let name ← qualifiedName
  spaces; char (· == '(')
  return name

/-- The inside of a literal in single quotes. -/
def literalInside : Pattern Span :=
  span (repeated (orElse (char (· != '\'')) (exactly ['\'', '\''])))

/-- A literal in single quotes; the value is its inside. -/
def literal : Pattern Span := do
  char (· == '\'')
  let inside ← literalInside
  char (· == '\'')
  return inside

/-- The comment among the options of a table. -/
def commentOption : Pattern Span := do
  boundary; word "COMMENT"; spaces
  let _ ← optional (char (· == '='))
  spaces; literal

/-! ### Bodies -/

/-- Splits the text at the parenthesis that closes the one which is open. -/
def closeGroup (n : Sql.Nesting) : List Char → Option (List Char × List Char)
  | [] => none
  | c :: rest =>
    if c == ')' && n.isTop then some ([], rest)
    else (closeGroup (n.step c) rest).map fun cut => (c :: cut.1, cut.2)

/-- A table definition that has been cut out but not read. -/
structure RawTable where
  /-- The name as it is written. -/
  qualifiedName : String
  /-- What stands between the outer parentheses. -/
  body : String
  /-- The comment among the options after the body. -/
  comment : Option String
deriving DecidableEq, Repr

/-- The comment among the options that start the text `tail` and end at its first semicolon. -/
def commentIn (tail : List Char) : Option String :=
  (commentOption.find? (tail.takeWhile (· != ';'))).map fun inside =>
    String.ofList (Text.undoubleQuotes '\'' inside.chars)

/-- What a scan finds: table definitions, and the names of those that are never closed. -/
structure Scan where
  tables : List RawTable := []
  unterminated : List String := []
deriving DecidableEq, Repr

/-- The scan of the text from a place on. Every head takes characters, so `fuel` as large as the
text is enough. -/
def scanFrom : (fuel : Nat) → Place → Scan
  | 0, _ => {}
  | fuel + 1, here =>
    match tableHead.search here with
    | none => {}
    | some head =>
      match closeGroup {} head.stop.rest with
      | none =>
        -- The search goes on after the head, so that the tables inside the open body are found.
        let more := scanFrom fuel head.stop
        { more with unterminated := Sql.objectName head.value.text :: more.unterminated }
      | some (body, tail) =>
        -- A head may start right behind the closing parenthesis.
        let more := scanFrom fuel ⟨some ')', tail⟩
        let table : RawTable :=
          { qualifiedName := head.value.text
            body := String.ofList body
            comment := commentIn tail }
        { more with tables := table :: more.tables }

/-- The scan of a script. -/
def scan (sql : String) : Scan :=
  let cleaned := stripComments sql.toList
  scanFrom (cleaned.length + 1) (.start cleaned)

/-- The table definitions of a script, in order. -/
def scanTables (sql : String) : List RawTable := (scan sql).tables

end EntityDiagram.Excerpt
