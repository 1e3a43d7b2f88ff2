import EntityDiagram.Excerpt.Scan
import EntityDiagram.Schema.Assembly
import EntityDiagram.Sql.ColumnType
import EntityDiagram.Sql.Literal
import EntityDiagram.Statement.Basic

/-!
# `EntityDiagram.Statement.Schema`: the schema that statements define

`steps` yields what the statements of a script do to a schema. A table option `COMMENT` that the
statements do not carry is looked for in the text of the script, by the name of the table.

The constraints of a table are applied in the order in which they are written, after the options of
its columns. A primary key among them is marked on the columns; one that only columns declare is
marked at the end. The name under which a comment is looked up is the last segment of the name of
the table, and the first table of that name in the text decides.
-/

set_option autoImplicit false

namespace EntityDiagram.Statement

/-- The values of identifiers. -/
def values (idents : List Ident) : List String := idents.map (·.value)

/-- Identifiers as they are written, without quote marks at their ends. -/
def bareNames (idents : List Ident) : List String :=
  idents.map fun i => String.ofList (Sql.bareName i.text.toList)

/-- An action in normal form. -/
def actionOf (words : Option String) : Option String :=
  words.map fun w => Sql.normalAction w.toList

/-- A foreign key of `table`. -/
def foreignKeyOf (table : String) (name : Option Ident) (columns : List String) (r : Reference) :
    ForeignKey where
  name := name.map (·.value)
  fromTable := table
  fromColumns := columns
  toTable := Sql.objectName r.table.text
  toColumns := values r.columns
  onDelete := actionOf r.onDelete
  onUpdate := actionOf r.onUpdate

/-! ### Columns -/

/-- Words that make a column number itself. -/
def autoIncrementWords : List String := ["AUTO_INCREMENT", "AUTOINCREMENT"]

/-- What an option says about its column. -/
def applyOption (c : Column) (o : NamedOption) : Column :=
  match o.option with
  | .notNull => c.required
  | .null => { c with nullable := true }
  | .default value => { c with defaultValue := some (String.ofList (Sql.unquoted value.toList)) }
  | .comment text => { c with comment := some text }
  | .primaryKey => c.asKey
  | .generated false => { c with autoIncrement := true }
  | .words ws =>
    if ws.any fun w => autoIncrementWords.any (Text.eqIgnoreCase w ·) then
      { c with autoIncrement := true }
    else c
  | .unique | .references _ | .generated true | .other => c

/-- The column of a definition. -/
def columnOf (d : ColumnDef) : Column :=
  let type := Sql.ColumnType.ofText d.type.toList
  d.options.foldl applyOption
    { name := d.name.value
      dataType := type.dataType
      baseType := type.baseType
      length := type.length
      precision := type.precision
      scale := type.scale
      autoIncrement := type.isSerial }

/-- The foreign keys that the options of a column declare. -/
def columnKeys (table : String) (d : ColumnDef) : List ForeignKey :=
  d.options.filterMap fun o =>
    match o.option with
    | .references target => some (foreignKeyOf table o.name [d.name.value] target)
    | _ => none

/-- The unique indexes that the options of a column declare. -/
def columnIndexes (d : ColumnDef) : List Index :=
  d.options.filterMap fun o =>
    match o.option with
    | .unique =>
      some { name := o.name.map (·.value), columns := [d.name.value], unique := true
             kind := some "UNIQUE" }
    | _ => none

/-! ### Tables -/

/-- An index under an optional name. -/
def indexOf (name : Option Ident) (columns : List String) (unique : Bool) (kind : String) : Index :=
  { name := name.map (·.value), columns, unique, kind := some kind }

/-- The table with a constraint of its definition. -/
def applyConstraint (t : Table) : TableConstraint → Table
  | .primaryKey name columns =>
    t.markPrimaryKey { name := name.map (·.value), columns := bareNames columns }
  | .foreignKey name columns target =>
    { t with foreignKeys := t.foreignKeys ++ [foreignKeyOf t.name name (values columns) target] }
  | .unique name columns =>
    { t with indexes := t.indexes ++ [indexOf name (bareNames columns) true "UNIQUE"] }
  | .index name columns =>
    { t with indexes := t.indexes ++ [indexOf name (bareNames columns) false "INDEX"] }
  | .fulltext name columns =>
    { t with indexes := t.indexes ++ [indexOf name (values columns) false "FULLTEXT"] }
  | .spatial name columns =>
    { t with indexes := t.indexes ++ [indexOf name (values columns) false "SPATIAL"] }
  | .check => t

/-- The table of a definition. Its key is that of its `PRIMARY KEY` constraints or else the columns
that carry the option. -/
def tableOf (create : CreateTable) : Table :=
  let name := Sql.objectName create.name.text
  let columns := create.columns.map columnOf
  let declared : Table :=
    { name, columns
      foreignKeys := create.columns.flatMap (columnKeys name)
      indexes := create.columns.flatMap columnIndexes }
  let t := create.constraints.foldl applyConstraint declared
  let keys := (columns.filter (·.inPrimaryKey)).map (·.name)
  -- Options count only where no constraint names the key.
  if t.primaryKey.isNone && !keys.isEmpty then t.markPrimaryKey { columns := keys } else t

/-- The comments of tables in the text of a script, by the names of the tables. -/
def tableComments (sql : String) : List (String × String) :=
  (Excerpt.scanTables sql).filterMap fun raw =>
    raw.comment.map fun text => (Sql.objectName raw.qualifiedName, text)

/-- The steps of a table definition. -/
def tableSteps (comments : List (String × String)) (create : CreateTable) : List Step :=
  let t := tableOf create
  -- The comment of the statement itself outweighs one found in the text.
  let comment := create.comment.orElse fun _ => comments.lookup t.name
  (if t.columns.isEmpty then [.warn ("Table " ++ t.name ++ " has no columns")] else [])
    ++ [.addTable create.name.text { t with comment }]

/-! ### Statements -/

/-- The step of an index definition. -/
def indexStep (create : CreateIndex) : Step :=
  .addIndex create.table.text
    { name := create.name.map fun n => Sql.objectName n.text
      columns := Sql.columnList (Text.joinTexts "," create.columns).toList
      unique := create.unique
      kind := some (if create.unique then "UNIQUE" else "INDEX") }

/-- The step of a constraint that is added to a table; of the indexes only unique ones count. -/
def constraintStep? (table : String) : TableConstraint → Option Step
  | .foreignKey name columns target =>
    some (.addForeignKey (foreignKeyOf table name (values columns) target))
  | .primaryKey name columns =>
    some (.setPrimaryKey table { name := name.map (·.value), columns := bareNames columns })
  | .unique name columns =>
    some (.addIndex table (indexOf name (bareNames columns) true "UNIQUE"))
  | .index .. | .fulltext .. | .spatial .. | .check => none

/-- The steps of a statement, in a script with these table comments. -/
def stepsOf (comments : List (String × String)) : Statement → List Step
  | .createTable create => tableSteps comments create
  | .createIndex create => [indexStep create]
  | .alterTable name added => added.filterMap (constraintStep? (Sql.objectName name.text))
  | .createView name query =>
    [.addView { name := Sql.objectName name.text, definition := some query }]
  | .other => []

/-- The steps of the statements of the script `sql`. -/
def steps (sql : String) (statements : List Statement) : List Step :=
  statements.flatMap (stepsOf (tableComments sql))

end EntityDiagram.Statement
