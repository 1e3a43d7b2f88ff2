import EntityDiagram.Text.Casing
import EntityDiagram.Text.Replace
import EntityDiagram.Text.Space

/-!
# `EntityDiagram.Sql.Dialect`: families of SQL dialects

A hint names the dialect of a script, or leaves it to be detected from the text: first from the
headers that dump tools write, then from types and quotes that only one family uses.

The order of the tests decides where several of them fit, and a text that shows nothing is read as
one of no family. A hint is taken in several spellings. `resolve` settles the dialect once and for
all, so that everything behind it meets one of the families and never the question.
-/

set_option autoImplicit false

namespace EntityDiagram.Sql

/-- A family of SQL dialects. -/
inductive Dialect where
  /-- To be detected from the text. -/
  | auto
  | mySql
  | postgres
  | generic
deriving DecidableEq, Repr, Inhabited

namespace Dialect

/-- The name of the dialect. -/
def name : Dialect → String
  | .auto => "auto"
  | .mySql => "mysql"
  | .postgres => "postgres"
  | .generic => "generic"

/-- The dialect that goes by a name, white space around it and letter case aside. -/
def ofName? (s : String) : Option Dialect :=
  match String.ofList (Text.lower (Text.trim s.toList)) with
  | "" | "auto" => some .auto
  | "mysql" | "mariadb" => some .mySql
  | "postgres" | "postgresql" | "pg" => some .postgres
  | "generic" | "ansi" => some .generic
  | _ => none

/-- The dialect that a hint names; an unknown hint leaves the dialect to be detected. -/
def ofHint (hint : String) : Dialect := (ofName? hint).getD .auto

/-- Texts, in lower case, in the headers of PostgreSQL dumps. -/
def postgresHeaders : List String := ["postgresql database dump", "pg_dump"]

/-- Texts, in lower case, in the headers of MySQL dumps. -/
def mySqlHeaders : List String := ["mysql dump", "mysqldump", "mariadb dump"]

/-- Texts, in lower case, that only MySQL scripts contain. -/
def mySqlMarks : List String := ["auto_increment", "engine=", "engine =", "unsigned", "`"]

/-- Texts, in lower case, that only PostgreSQL scripts contain. -/
def postgresMarks : List String := ["serial", "::", "timestamptz", "jsonb", "bytea"]

/-- The dialect that the text shows. -/
def detect (content : String) : Dialect :=
  let text := Text.lower content.toList
  let shows (marks : List String) := marks.any fun mark => Text.occurs mark.toList text
  -- Headers come first: a mark may stand in the data of any dump.
  if shows postgresHeaders then .postgres
  else if shows mySqlHeaders then .mySql
  else if shows mySqlMarks then .mySql
  else if shows postgresMarks then .postgres
  else .generic

/-- The dialect itself, or the one that the text shows where it is to be detected. -/
def resolve (d : Dialect) (content : String) : Dialect :=
  match d with
  | .auto => detect content
  | .mySql | .postgres | .generic => d

end Dialect

end EntityDiagram.Sql
