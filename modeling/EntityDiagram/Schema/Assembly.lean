import EntityDiagram.Schema.Basic
import EntityDiagram.Sql.Dialect
import EntityDiagram.Sql.Name

/-!
# `EntityDiagram.Schema.Assembly`: a schema from the statements of a script

Every reader of scripts reports what it finds as a list of `Step`s in the order of the text, and
`assemble` makes a schema of them. Tables and views are added at once. A key or index that a
statement adds to a table waits until every table is known, so that a script may alter a table
before it declares it; one whose table never appears is left out with a warning.

A change goes to the first table of its name, where a name that is qualified counts by its last
segment. Changes to one table are applied in their order, after those that its definition holds. The
schema name of the whole is the one that the first qualified table has.
-/

set_option autoImplicit false

namespace EntityDiagram

/-- What a statement of a script does to the schema. -/
inductive Step where
  /-- Adds a table that was declared under a qualified name. -/
  | addTable (qualified : String) (table : Table)
  | addView (view : View)
  /-- Adds a foreign key to the table it starts from. -/
  | addForeignKey (key : ForeignKey)
  /-- Gives a table, named by a qualified name, its primary key. -/
  | setPrimaryKey (qualified : String) (key : PrimaryKey)
  /-- Adds an index to a table, named by a qualified name. -/
  | addIndex (qualified : String) (index : Index)
  | warn (text : String)
deriving DecidableEq, Repr

/-- A change to a table that waits until every table is known. -/
inductive Change where
  | foreignKey (key : ForeignKey)
  | primaryKey (table : String) (key : PrimaryKey)
  | index (table : String) (index : Index)
deriving DecidableEq, Repr

namespace Change

/-- The name of the table to change. -/
def table : Change → String
  | .foreignKey key => key.fromTable
  | .primaryKey table _ => table
  | .index table _ => table

/-- What the change does to its table. -/
def apply (t : Table) : Change → Table
  | .foreignKey key => { t with foreignKeys := t.foreignKeys ++ [key] }
  | .primaryKey _ key => t.markPrimaryKey key
  | .index _ added => { t with indexes := t.indexes ++ [added] }

/-- What is changed, as a warning names it. -/
def subject : Change → String
  | .foreignKey _ => "Foreign key"
  | .primaryKey .. => "Primary key"
  | .index .. => "Index"

/-- The warning about a change to a table that does not exist. -/
def unknownTable (c : Change) : String :=
  c.subject ++ " on unknown table " ++ c.table ++ " ignored"

end Change

/-- A schema under construction. -/
structure Assembly where
  schema : Schema
  /-- The changes that wait, in order. -/
  changes : List Change := []
  warnings : List String := []
deriving DecidableEq, Repr

namespace Assembly

/-- An empty schema in a dialect. -/
def start (dialect : Sql.Dialect) : Assembly where
  schema := { dbType := dialect.name }

/-- Adds a table. The first qualified name that has a schema part names the schema, and a table
without a kind is a base table. -/
def addTable (s : Schema) (qualified : String) (t : Table) : Schema :=
  { s with
    schemaName := s.schemaName.orElse fun _ => Sql.schemaPart qualified
    tables := s.tables ++ [{ t with kind := some (t.kind.getD .base) }] }

/-- Takes one step. -/
def step (a : Assembly) : Step → Assembly
  | .addTable qualified table => { a with schema := addTable a.schema qualified table }
  | .addView view => { a with schema := { a.schema with views := a.schema.views ++ [view] } }
  | .addForeignKey key => { a with changes := a.changes ++ [.foreignKey key] }
  | .setPrimaryKey qualified key =>
    { a with changes := a.changes ++ [.primaryKey (Sql.objectName qualified) key] }
  | .addIndex qualified index =>
    { a with changes := a.changes ++ [.index (Sql.objectName qualified) index] }
  | .warn text => { a with warnings := a.warnings ++ [text] }

/-- Applies a change to the first table of its name, or warns if there is none. -/
def applyChange (result : Schema × List String) (c : Change) : Schema × List String :=
  match Schema.updateTable? c.table c.apply result.1.tables with
  | some tables => ({ result.1 with tables }, result.2)
  | none => (result.1, result.2 ++ [c.unknownTable])

/-- The schema with all waiting changes applied in order, and the warnings. -/
def finish (a : Assembly) : Schema × List String :=
  a.changes.foldl applyChange (a.schema, a.warnings)

end Assembly

/-- The schema that the steps make, and the warnings. -/
def assemble (dialect : Sql.Dialect) (steps : List Step) : Schema × List String :=
  (steps.foldl Assembly.step (.start dialect)).finish

end EntityDiagram
