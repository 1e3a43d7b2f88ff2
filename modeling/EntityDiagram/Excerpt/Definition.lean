import EntityDiagram.Excerpt.Scan
import EntityDiagram.Schema.Basic
import EntityDiagram.Sql.ColumnType

/-!
# `EntityDiagram.Excerpt.Definition`: the definitions inside an excerpt

The body of a table that has been cut out of a text is split at its top-level commas, and every
part is classified by patterns: keys and indexes first, then other constraints, which are stepped
over, then columns. A part that fits no pattern is left out.

Words that set properties of a column are looked for in the text after its type, with the inside
of every literal blanked out; its default value and comment are looked for in the text itself.
-/

set_option autoImplicit false

namespace EntityDiagram.Excerpt

open Text (isSpace isWordChar Pattern Place Span)
open Text.Pattern

/-! ### Pieces -/

/-- The inside of a list in parentheses, with the parentheses around it. -/
def listInside : Pattern Span := do
  char (· == '(')
  let inside ← span (some1 (· != ')'))
  char (· == ')')
  return inside

/-- `CONSTRAINT name`, possibly missing, at the start of a part. -/
def constraintName : Pattern (Option Span) := do
  textStart
  optional (do
    word "CONSTRAINT"; spaces1
    let name ← plainName
    spaces1
    return name)

/-- `USING method`, possibly missing. -/
def usingMethod : Pattern Unit := do
  let _ ← optional (do word "USING"; spaces1; some1 isWordChar; spaces)

/-- The object that a written name names. -/
def nameOf (name : Span) : String := Sql.objectName name.text

/-- The column names of a written list. -/
def columnsOf (list : Span) : List String := Sql.columnList list.chars

/-! ### Keys -/

/-- The words of a referential action. -/
def actionWords : Pattern Span :=
  span (oneOf [
    word "CASCADE",
    (do word "SET"; spaces1; word "NULL"),
    (do word "SET"; spaces1; word "DEFAULT"),
    word "RESTRICT",
    (do word "NO"; spaces1; word "ACTION")])

/-- The action on the event that `event` names. -/
def actionOn (event : String) : Pattern Span := do
  boundary; word "ON"; spaces1; word event; spaces1; actionWords

/-- The action on an event that a text declares first. -/
def declaredAction (event : String) (s : List Char) : Option String :=
  ((actionOn event).find? s).map fun words => Sql.normalAction words.chars

/-- A `PRIMARY KEY` clause: its name and columns. -/
def primaryKeyClause : Pattern (Option Span × Span) := do
  let name ← constraintName
  word "PRIMARY"; spaces1; word "KEY"; spaces; usingMethod
  let columns ← listInside
  return (name, columns)

/-- A `FOREIGN KEY` clause: its name, columns, and the table and columns it refers to. -/
def foreignKeyClause : Pattern (Option Span × Span × Span × Span) := do
  let name ← constraintName
  word "FOREIGN"; spaces1; word "KEY"; spaces
  let _ ← optional (do let _ ← plainName; spaces)
  let columns ← listInside
  spaces; word "REFERENCES"; spaces1
  let table ← qualifiedName
  spaces
  let toColumns ← listInside
  return (name, columns, table, toColumns)

/-- The primary key that a text starts with. -/
def primaryKey? (s : List Char) : Option PrimaryKey :=
  (primaryKeyClause.find? s).map fun (name, columns) =>
    { name := name.map nameOf, columns := columnsOf columns }

/-- The foreign key of `table` that a text starts with. -/
def foreignKey? (table : String) (s : List Char) : Option ForeignKey :=
  (foreignKeyClause.find? s).map fun (name, columns, toTable, toColumns) =>
    { name := name.map nameOf
      fromTable := table
      fromColumns := columnsOf columns
      toTable := nameOf toTable
      toColumns := columnsOf toColumns
      onDelete := declaredAction "DELETE" s
      onUpdate := declaredAction "UPDATE" s }

/-! ### Indexes -/

/-- An index clause with `KEY` or `INDEX`: the constraint name, the word before, the index name
and the columns. -/
def indexClause : Pattern (Option Span × Option Span × Option Span × Span) := do
  let constraint ← constraintName
  let kind ← optional (do
    let kind ← span (oneOf [word "UNIQUE", word "FULLTEXT", word "SPATIAL"])
    spaces1
    return kind)
  oneOf [word "KEY", word "INDEX"]
  boundary; spaces
  let name ← optional plainName
  spaces; usingMethod
  let columns ← listInside
  return (constraint, kind, name, columns)

/-- A `UNIQUE` clause without `KEY` or `INDEX`: its name and columns. -/
def uniqueClause : Pattern (Option Span × Span) := do
  let name ← constraintName
  word "UNIQUE"; spaces
  let columns ← listInside
  return (name, columns)

/-- The index that a text starts with. -/
def index? (s : List Char) : Option Index :=
  match indexClause.find? s with
  | some (constraint, kind, name, columns) =>
    let kind := kind.map fun k => String.ofList (Text.upper k.chars)
    some {
      -- The name of the index outweighs that of the constraint.
      name := (name.orElse fun _ => constraint).map nameOf
      columns := columnsOf columns
      unique := kind == some "UNIQUE"
      kind := some (kind.getD "INDEX") }
  | none =>
    (uniqueClause.find? s).map fun (name, columns) =>
      { name := name.map nameOf, columns := columnsOf columns, unique := true
        kind := some "UNIQUE" }

/-- A word that starts a constraint. -/
def constraintWord : Pattern Unit := do
  textStart
  oneOf (["CONSTRAINT", "CHECK", "EXCLUDE", "PERIOD", "FOREIGN", "PRIMARY", "UNIQUE", "FULLTEXT",
    "SPATIAL", "KEY", "INDEX"].map word)
  boundary

/-! ### Columns -/

/-- A column definition: its name and what follows. -/
def columnClause : Pattern (Span × Span) := do
  textStart
  let name ← plainName
  spaces1
  let rest ← span (some1 fun _ => true)
  textEnd
  return (name, rest)

/-- Arguments and array suffixes of a type. -/
def typeArguments : Pattern Unit := do
  let _ ← optional (do spaces; char (· == '('); many (· != ')'); char (· == ')'))
  repeated (exactly ['[', ']'])

/-- The first word of a type, with its arguments. -/
def typeHead : Pattern Unit := do
  textStart
  char fun c => Text.isAsciiLetter c || c == '_'
  many isWordChar
  typeArguments

/-- A further word of a type, with its arguments. -/
def typeContinuation : Pattern Unit := do
  textStart; spaces1
  oneOf (["PRECISION", "VARYING", "UNSIGNED", "SIGNED", "ZEROFILL", "WITH", "WITHOUT", "LOCAL",
    "TIME", "ZONE"].map word)
  boundary
  typeArguments

/-- What is left of the text after further words of a type. Every word takes characters, so
`fuel` as large as the text is enough. -/
def afterType : (fuel : Nat) → List Char → List Char
  | 0, s => s
  | fuel + 1, s =>
    match typeContinuation.matchAt? (.start s) with
    | some found => afterType fuel found.2.rest
    | none => s

/-- Cuts a text into the declared type at its start and the rest. -/
def cutType? (s : List Char) : Option (List Char × List Char) :=
  (typeHead.matchAt? (.start s)).map fun found =>
    let rest := afterType found.2.rest.length found.2.rest
    (s.take (s.length - rest.length), rest)

/-- The text with the inside of every literal left out. -/
def blankLiterals (s : List Char) : List Char := literal.replaceAll ['\'', '\''] s

/-- A sequence of words, with white space between neighbours, between word boundaries. -/
def phrase (first : String) (more : List String) : Pattern Unit := do
  boundary; word first
  more.forM fun w => do spaces1; word w
  boundary

/-- A value after `DEFAULT`: a literal, an expression in parentheses, or a run up to white space
or a comma. -/
def defaultClause : Pattern Span := do
  boundary; word "DEFAULT"; spaces1
  span (oneOf [
    (do let _ ← literal),
    (do char (· == '('); many (· != ')'); char (· == ')')),
    (do
      some1 fun c => !isSpace c && c != ','
      let _ ← optional (exactly ['(', ')']))])

/-- A literal after `COMMENT`. -/
def commentClause : Pattern Span := do
  boundary; word "COMMENT"; spaces1; literal

/-- A word that makes a column number itself. -/
def autoIncrementWord : Pattern Unit :=
  oneOf [phrase "AUTO_INCREMENT" [], phrase "AUTOINCREMENT" [], phrase "IDENTITY" []]

/-- A reference: the table and the list of columns, if there is one. -/
def referenceClause : Pattern (Span × Option Span) := do
  boundary; word "REFERENCES"; spaces1
  let table ← qualifiedName
  spaces
  let columns ← optional listInside
  return (table, columns)

/-- A column with what its definition adds to the table. -/
structure ColumnReading where
  column : Column
  index : Option Index := none
  foreignKey : Option ForeignKey := none
deriving DecidableEq, Repr

/-- The column of this name, from the text after the name. -/
def column? (table name : String) (definition : List Char) : Option ColumnReading :=
  (cutType? definition).map fun (declared, options) =>
    let type := Sql.ColumnType.ofText declared
    let bare := blankLiterals options
    let isKey := (phrase "PRIMARY" ["KEY"]).occursIn bare
    { column :=
        { name
          dataType := type.dataType
          baseType := type.baseType
          length := type.length
          precision := type.precision
          scale := type.scale
          nullable := !(phrase "NOT" ["NULL"]).occursIn bare && !isKey
          defaultValue := (defaultClause.find? options).map fun value =>
            String.ofList (Sql.unquoted value.chars)
          comment := (commentClause.find? options).map fun inside =>
            String.ofList (Text.undoubleQuotes '\'' inside.chars)
          inPrimaryKey := isKey
          autoIncrement := type.isSerial || autoIncrementWord.occursIn bare }
      index :=
        if (phrase "UNIQUE" []).occursIn bare then
          some { columns := [name], unique := true, kind := some "UNIQUE" }
        else none
      foreignKey := (referenceClause.find? bare).map fun (toTable, columns) =>
        { fromTable := table
          fromColumns := [name]
          toTable := nameOf toTable
          toColumns := (columns.map columnsOf).getD []
          onDelete := declaredAction "DELETE" bare
          onUpdate := declaredAction "UPDATE" bare } }

/-! ### Tables -/

/-- Adds to a table the definition that a part of its body holds. The second component is the key
of the last `PRIMARY KEY` clause so far. -/
def addPart (read : Table × Option PrimaryKey) (part : List Char) : Table × Option PrimaryKey :=
  let (t, key) := read
  match primaryKey? part with
  | some key => (t, some key)
  | none =>
    match foreignKey? t.name part with
    | some foreign => ({ t with foreignKeys := t.foreignKeys ++ [foreign] }, key)
    | none =>
      match index? part with
      | some index => ({ t with indexes := t.indexes ++ [index] }, key)
      | none =>
        -- Without this test, a constraint of another kind would pass for a column.
        if constraintWord.occursIn part then (t, key)
        else
          match (columnClause.find? part).bind fun (name, rest) =>
              column? t.name (nameOf name) (Text.trim rest.chars) with
          | some c =>
            ({ t with
                columns := t.columns ++ [c.column]
                indexes := t.indexes ++ c.index.toList
                foreignKeys := t.foreignKeys ++ c.foreignKey.toList }, key)
          | none => (t, key)

/-- The table that has been cut out. Its key is that of a `PRIMARY KEY` clause or else the columns
that carry the option. -/
def RawTable.toTable (raw : RawTable) : Table :=
  let empty : Table := { name := Sql.objectName raw.qualifiedName, comment := raw.comment }
  let (t, key) := (Sql.splitTopLevel raw.body.toList).foldl addPart (empty, none)
  let names := (t.columns.filter (·.inPrimaryKey)).map (·.name)
  match key with
  | some key => t.markPrimaryKey key
  | none => if names.isEmpty then t else t.markPrimaryKey { columns := names }

end EntityDiagram.Excerpt
