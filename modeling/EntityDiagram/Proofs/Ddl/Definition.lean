import EntityDiagram.Ddl.Script
import EntityDiagram.Proofs.Ddl.Spelling
import EntityDiagram.Proofs.Schema.Key

/-!
# `EntityDiagram.Proofs.Ddl.Definition`: definitions of tables as data

A `TableDefinition` is what a `CREATE TABLE` statement says, apart from how it is laid out: columns
with types and options, at most one primary key, foreign keys and a comment. Each kind of
definition comes with the lexemes that write it and with the part of the schema that it stands
for; `TableDefinition.lexemes` and `TableDefinition.table` are those of the whole statement.

The lexemes are what is written, in the order in which it is written, and say nothing of the white
space between them; a text that spells them is `Spelled` (`EntityDiagram.Proofs.Ddl.Spelling`).
Names and comments are any texts, since they are quoted. The schema is said without a reader: a
column has the type of its declaration, of the options the last one counts for each property, and
the key is flagged on the columns that it names. So the two sides of the round trip in
`EntityDiagram.Proofs.Ddl.RoundTrip` share nothing but the definition.

A structure carries what makes a definition well formed: the words of types continue no type, the
columns of a table have different names, and its key consists of columns that are declared.
-/

set_option autoImplicit false

namespace EntityDiagram.Ddl

/-! ### Words -/

namespace PlainName

/-- The option of a column that numbers itself. -/
def autoIncrement : PlainName := ⟨"AUTO_INCREMENT", by decide, by decide⟩

/-- The option of a column or table that bears a comment. -/
def comment : PlainName := ⟨"COMMENT", by decide, by decide⟩

/-- The word that starts the action on deletion. -/
def delete : PlainName := ⟨"DELETE", by decide, by decide⟩

/-- The word that starts the action on update. -/
def update : PlainName := ⟨"UPDATE", by decide, by decide⟩

/-- The action that is passed on. -/
def cascade : PlainName := ⟨"CASCADE", by decide, by decide⟩

/-- The action that rejects the change. -/
def restrict : PlainName := ⟨"RESTRICT", by decide, by decide⟩

/-- The first word of the actions that set the columns. -/
def set : PlainName := ⟨"SET", by decide, by decide⟩

/-- The first word of the action that does nothing. -/
def no : PlainName := ⟨"NO", by decide, by decide⟩

/-- The second word of the action that does nothing. -/
def action : PlainName := ⟨"ACTION", by decide, by decide⟩

end PlainName

/-! ### Lists -/

/-- The parts with a comma between neighbours. -/
def separated : List (List Lexeme) → List Lexeme
  | [] => []
  | [part] => part
  | part :: next :: more => part ++ .comma :: separated (next :: more)

/-- Names in parentheses. -/
def nameList (names : List String) : List Lexeme :=
  .openParen :: separated (names.map fun name => [.quoted name]) ++ [.closeParen]

/-- The name of a constraint, if it has one. -/
def constraintClause : Option String → List Lexeme
  | none => []
  | some name => [.keyword .constraint, .quoted name]

/-! ### Columns -/

/-- A type in its plain form: a word, which neither continues a type nor may follow the words
`EXCLUDE` and `PERIOD`, with at most two numbers. -/
structure DeclaredType where
  word : PlainName
  arguments : Sql.TypeArguments
  notContinuing : continuesType word.text = false
  notUsing : word.text ≠ "USING"
  notFor : word.text ≠ "FOR"
deriving DecidableEq, Repr

namespace DeclaredType

/-- The lexemes of the arguments of a type. -/
def argumentLexemes : Sql.TypeArguments → List Lexeme
  | .none => []
  | .length n => [.openParen, .number n, .closeParen]
  | .precision p s => [.openParen, .number p, .comma, .number s, .closeParen]

/-- The lexemes of a type. -/
def lexemes (t : DeclaredType) : List Lexeme := .word t.word :: argumentLexemes t.arguments

/-- The type that is declared. -/
def columnType (t : DeclaredType) : Sql.ColumnType := t.arguments.columnType t.word.text.toList

end DeclaredType

/-- An option of a column. -/
inductive ColumnOption where
  | notNull
  | autoIncrement
  | default (text : String)
  | comment (text : String)
deriving DecidableEq, Repr

namespace ColumnOption

/-- The lexemes of an option. -/
def lexemes : ColumnOption → List Lexeme
  | .notNull => [.keyword .not, .keyword .null]
  | .autoIncrement => [.word .autoIncrement]
  | .default text => [.keyword .default, .literal text]
  | .comment text => [.word .comment, .literal text]

/-- The default value that the option sets. Only one kind of option sets one. -/
def default? : ColumnOption → Option String
  | .default text => some text
  | _ => none

/-- The comment that the option sets. Only one kind of option sets one. -/
def comment? : ColumnOption → Option String
  | .comment text => some text
  | _ => none

end ColumnOption

/-- The definition of a column. -/
structure ColumnDefinition where
  name : String
  type : DeclaredType
  options : List ColumnOption
deriving DecidableEq, Repr

namespace ColumnDefinition

/-- The lexemes of the definition. -/
def lexemes (d : ColumnDefinition) : List Lexeme :=
  .quoted d.name :: d.type.lexemes ++ d.options.flatMap ColumnOption.lexemes

/-- The column that is defined, in a table whose primary key has the columns `key`. Of an option
that is repeated, the last one counts. -/
def column (key : List String) (d : ColumnDefinition) : Column where
  name := d.name
  dataType := d.type.columnType.dataType
  baseType := d.type.columnType.baseType
  length := d.type.columnType.length
  precision := d.type.columnType.precision
  scale := d.type.columnType.scale
  nullable := !(d.options.contains .notNull || key.contains d.name)
  defaultValue := (d.options.filterMap ColumnOption.default?).getLast?
  comment := (d.options.filterMap ColumnOption.comment?).getLast?
  inPrimaryKey := key.contains d.name
  autoIncrement := d.type.columnType.isSerial || d.options.contains .autoIncrement

end ColumnDefinition

/-! ### Keys -/

/-- The definition of a primary key. -/
structure KeyDefinition where
  name : Option String
  columns : List String
deriving DecidableEq, Repr

namespace KeyDefinition

/-- The lexemes of the definition. -/
def lexemes (k : KeyDefinition) : List Lexeme :=
  constraintClause k.name ++ [.keyword .primary, .keyword .key] ++ nameList k.columns

/-- The primary key that is defined. -/
def primaryKey (k : KeyDefinition) : PrimaryKey where
  name := k.name
  columns := k.columns

end KeyDefinition

/-- What happens to the rows that refer to a row which is changed. -/
inductive ReferenceAction where
  | cascade
  | restrict
  | setNull
  | setDefault
  | noAction
deriving DecidableEq, Repr

namespace ReferenceAction

/-- The lexemes of an action. -/
def lexemes : ReferenceAction → List Lexeme
  | .cascade => [.word .cascade]
  | .restrict => [.word .restrict]
  | .setNull => [.word .set, .keyword .null]
  | .setDefault => [.word .set, .keyword .default]
  | .noAction => [.word .no, .word .action]

/-- The name under which an action is kept. -/
def label : ReferenceAction → String
  | .cascade => "CASCADE"
  | .restrict => "RESTRICT"
  | .setNull => "SET_NULL"
  | .setDefault => "SET_DEFAULT"
  | .noAction => "NO_ACTION"

/-- The word that names an event. -/
def eventWord : KeyEvent → PlainName
  | .delete => .delete
  | .update => .update

/-- The lexemes of the action on an event, if there is one. A reference has two of them at most. -/
def clause (event : KeyEvent) : Option ReferenceAction → List Lexeme
  | none => []
  | some a => .keyword .on :: .word (eventWord event) :: a.lexemes

end ReferenceAction

/-- The definition of a foreign key. -/
structure ForeignKeyDefinition where
  name : Option String
  columns : List String
  toTable : String
  toColumns : List String
  onDelete : Option ReferenceAction
  onUpdate : Option ReferenceAction
deriving DecidableEq, Repr

namespace ForeignKeyDefinition

/-- The lexemes of the definition. -/
def lexemes (f : ForeignKeyDefinition) : List Lexeme :=
  constraintClause f.name ++ [.keyword .foreign, .keyword .key] ++ nameList f.columns ++
    [.keyword .references, .quoted f.toTable] ++ nameList f.toColumns ++
    ReferenceAction.clause .delete f.onDelete ++ ReferenceAction.clause .update f.onUpdate

/-- The foreign key that is defined in the table. -/
def foreignKey (table : String) (f : ForeignKeyDefinition) : ForeignKey where
  name := f.name
  fromTable := table
  fromColumns := f.columns
  toTable := f.toTable
  toColumns := f.toColumns
  onDelete := f.onDelete.map ReferenceAction.label
  onUpdate := f.onUpdate.map ReferenceAction.label

end ForeignKeyDefinition

/-! ### Tables -/

/-- A clause between the parentheses of a table. -/
inductive Clause where
  | column (d : ColumnDefinition)
  | key (k : KeyDefinition)
  | foreignKey (f : ForeignKeyDefinition)
deriving DecidableEq, Repr

/-- The lexemes of a clause. -/
def Clause.lexemes : Clause → List Lexeme
  | .column d => d.lexemes
  | .key k => k.lexemes
  | .foreignKey f => f.lexemes

/-- The definition of a table. Its columns have different names, and its primary key consists of
columns that are declared. -/
structure TableDefinition where
  name : String
  columns : List ColumnDefinition
  key : Option KeyDefinition
  foreignKeys : List ForeignKeyDefinition
  comment : Option String
  distinct : Table.DistinctNames (columns.map (·.name))
  declared : ∀ k ∈ key, k.columns ⊆ columns.map (·.name)

namespace TableDefinition

/-- The clauses between the parentheses. -/
def clauses (t : TableDefinition) : List Clause :=
  t.columns.map .column ++ (t.key.toList.map .key ++ t.foreignKeys.map .foreignKey)

/-- The lexemes of the comment on the table, if it has one. -/
def commentClause : Option String → List Lexeme
  | none => []
  | some text => [.word .comment, .equals, .literal text]

/-- The lexemes of the whole statement, with its semicolon. -/
def lexemes (t : TableDefinition) : List Lexeme :=
  [.keyword .create, .keyword .table, .quoted t.name, .openParen] ++
    separated (t.clauses.map Clause.lexemes) ++
    .closeParen :: commentClause t.comment ++ [.semicolon]

/-- The columns of the primary key. -/
def keyColumns (t : TableDefinition) : List String := (t.key.map (·.columns)).getD []

/-- The table that is defined. -/
def table (t : TableDefinition) : Table where
  name := t.name
  comment := t.comment
  columns := t.columns.map (·.column t.keyColumns)
  primaryKey := t.key.map KeyDefinition.primaryKey
  foreignKeys := t.foreignKeys.map (·.foreignKey t.name)
  kind := some .base

end TableDefinition

end EntityDiagram.Ddl
