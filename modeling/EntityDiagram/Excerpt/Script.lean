import EntityDiagram.Excerpt.Definition
import EntityDiagram.Schema.Assembly

/-!
# `EntityDiagram.Excerpt.Script`: the schema that excerpts of a script show

`script` yields the tables that a scan cuts out of a script and the keys that `ALTER TABLE … ADD`
gives to them. It always warns that something may have been missed.

An addition is looked for in the whole text, in literals and bodies of tables too, and reaches to
the next semicolon. The warning is a step like any other, the first one, so that it stands in front
of all other warnings of the result. `EntityDiagram.Excerpt.Scan` cuts the tables out, and
`EntityDiagram.Excerpt.Definition` reads their parts.
-/

set_option autoImplicit false

namespace EntityDiagram.Excerpt

open Text (Pattern Span)
open Text.Pattern

/-- An addition to a table: the table and what is added, up to the next semicolon. -/
def addClause : Pattern (Span × Span) := do
  boundary; word "ALTER"; spaces1; word "TABLE"; spaces1
  let _ ← optional (do word "ONLY"; spaces1)
  let table ← qualifiedName
  spaces1; word "ADD"; spaces1
  let clause ← span (some1 (· != ';'))
  return (table, clause)

/-- The key that an addition declares, if it declares one. -/
def addition (table clause : Span) : Option Step :=
  let name := nameOf table
  let text := Text.trim clause.chars
  match foreignKey? name text with
  | some key => some (.addForeignKey key)
  | none => (primaryKey? text).map (.setPrimaryKey name)

/-- The keys that a script adds to tables. -/
def additions (sql : String) : List Step :=
  (addClause.allMatches (stripComments sql.toList)).filterMap fun found =>
    addition found.value.1 found.value.2

/-- The steps of a script. -/
def script (sql : String) : List Step :=
  let found := scan sql
  [.warn "Regex fallback may miss dialect-specific syntax"]
    ++ found.tables.map (fun raw => .addTable raw.qualifiedName raw.toTable)
    ++ found.unterminated.map (fun name =>
      .warn ("Unterminated CREATE TABLE " ++ name ++ " skipped"))
    ++ additions sql

end EntityDiagram.Excerpt
