import EntityDiagram.Ddl.Script
import EntityDiagram.Excerpt.Script
import EntityDiagram.Statement.Schema

/-!
# `EntityDiagram.Parsing.Backend`: three ways to read a script

A backend reads the text of a script as a schema, with warnings, or fails. They range from strict
to permissive: the grammar accepts a script only as a whole, the vendor reader steps over what it
does not know, and the regex reader picks table definitions out of any text.

The grammar itself is a parameter here, a function from a dialect and a text to statements: what
the backends promise does not depend on it.

All three yield `Step`s in the order of the text, and the schema is put together from these in the
same way, so that a backend is no more than a function from a text to steps. A script in which no
step adds a table is a failure of its own kind.
-/

set_option autoImplicit false

namespace EntityDiagram.Parsing

/-- A way to read a script. -/
inductive Backend where
  /-- Statements of a strict grammar. -/
  | grammar
  /-- The tolerant reader of data definitions. -/
  | vendor
  /-- Excerpts found by patterns. -/
  | regex
deriving DecidableEq, Repr, Inhabited

/-- Why a backend failed. -/
inductive ReadError where
  /-- The grammar rejects the script. -/
  | rejected (reason : String)
  /-- The script ends inside the definition of a table. -/
  | unterminatedTable (name : String)
  | noTables
deriving DecidableEq, Repr

/-- The wording of an error. -/
def ReadError.message : ReadError → String
  | .rejected reason => "syntax error: " ++ reason
  | .unterminatedTable name => "syntax error: unterminated definition of table " ++ name
  | .noTables => "no table definitions found"

/-- A grammar: the statements of a text in a dialect, or why there are none. -/
abbrev Grammar := Sql.Dialect → String → Except String (List Statement)

namespace Backend

/-- The name of the backend. -/
def name : Backend → String
  | .grammar => "grammar"
  | .vendor => "vendor"
  | .regex => "regex"

/-- The backend of this name. -/
def ofName? : String → Option Backend
  | "grammar" => some .grammar
  | "vendor" => some .vendor
  | "regex" => some .regex
  | _ => none

/-- The backends in the order in which they are tried. -/
def all : List Backend := [.grammar, .vendor, .regex]

/-- Whether the backend reads scripts in the dialect. -/
def supports : Backend → Sql.Dialect → Bool
  | .grammar, .auto => false
  | _, _ => true

/-- Whether a step adds a table. -/
def addsTable : Step → Bool
  | .addTable .. => true
  | _ => false

/-- The schema and warnings that the steps make, if there is a table among them. -/
def schemaOf (dialect : Sql.Dialect) (steps : List Step) :
    Except ReadError (Schema × List String) :=
  if steps.any addsTable then .ok (assemble dialect steps) else .error .noTables

/-- What the backend finds in a script. -/
def steps (grammar : Grammar) (b : Backend) (dialect : Sql.Dialect) (sql : String) :
    Except ReadError (List Step) :=
  match b with
  | .grammar =>
    match grammar dialect sql with
    | .ok statements => .ok (Statement.steps sql statements)
    | .error reason => .error (.rejected reason)
  | .vendor =>
    match Ddl.script sql with
    | .ok steps => .ok steps
    | .error table => .error (.unterminatedTable table.name)
  | .regex => .ok (Excerpt.script sql)

/-- Reads a script as a schema with warnings. -/
def read (grammar : Grammar) (b : Backend) (dialect : Sql.Dialect) (sql : String) :
    Except ReadError (Schema × List String) :=
  (b.steps grammar dialect sql).bind (schemaOf dialect)

end Backend

end EntityDiagram.Parsing
