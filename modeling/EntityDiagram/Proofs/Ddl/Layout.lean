import EntityDiagram.Proofs.Ddl.Definition
import Mathlib.Data.List.Forall2

/-!
# `EntityDiagram.Proofs.Ddl.Layout`: the places where a key may be declared

A `TableDefinition` says which keys a table has. A script may declare each of them at one of three
places: on a column of the table, if the key has no name and this one column; in a clause of its
own between the parentheses; or in an `ALTER TABLE` statement anywhere in the script. A
`Declaration` is such a statement, and `LaysOut ds ts` says that the declarations of a script
declare exactly the tables `ts`, each key at one place.

A layout has the same lexemes as the definition where it agrees with it: each item, clause and
statement comes with its own `lexemes`, so that a text of the script can be read off the layout.
What is declared is read off it as well (`ColumnLayout.keys`, `TableLayout.foreignKeys`,
`Declaration.addedTo`), and `Declares` compares that with the definition of the table, each key at
one place and none at two. The order of columns is that of the table; the order of keys is not asked
for beyond what the places leave open. What a script with such a layout is read as is the subject of
`EntityDiagram.Proofs.Ddl.Placement`.
-/

set_option autoImplicit false

namespace EntityDiagram.Ddl

/-! ### References -/

/-- The lexemes of the actions on both events, in either order. -/
def ReferenceAction.clauses (updateFirst : Bool) (onDelete onUpdate : Option ReferenceAction) :
    List Lexeme :=
  if updateFirst then clause .update onUpdate ++ clause .delete onDelete
  else clause .delete onDelete ++ clause .update onUpdate

/-- What the columns of a foreign key refer to. -/
structure Reference where
  toTable : String
  toColumns : List String
  onDelete : Option ReferenceAction
  onUpdate : Option ReferenceAction
  /-- Whether the action on update is written before that on deletion. -/
  updateFirst : Bool
deriving DecidableEq, Repr

namespace Reference

/-- The lexemes of a reference. -/
def lexemes (r : Reference) : List Lexeme :=
  [.keyword .references, .quoted r.toTable] ++ nameList r.toColumns ++
    ReferenceAction.clauses r.updateFirst r.onDelete r.onUpdate

/-- The foreign key whose columns refer so. -/
def foreignKey (r : Reference) (name : Option String) (columns : List String) :
    ForeignKeyDefinition where
  name := name
  columns := columns
  toTable := r.toTable
  toColumns := r.toColumns
  onDelete := r.onDelete
  onUpdate := r.onUpdate

end Reference

/-! ### Keys on a column -/

/-- What may stand after the type of a column: an option, or a key of this one column. -/
inductive ColumnItem where
  | option (o : ColumnOption)
  | primaryKey
  | references (r : Reference)
deriving DecidableEq, Repr

namespace ColumnItem

/-- The lexemes of an item. -/
def lexemes : ColumnItem → List Lexeme
  | .option o => o.lexemes
  | .primaryKey => [.keyword .primary, .keyword .key]
  | .references r => r.lexemes

/-- The option that the item is. A key or a reference on a column is no option. -/
def option? : ColumnItem → Option ColumnOption
  | .option o => some o
  | _ => none

/-- The primary key that the item declares on the column of this name. -/
def key? (column : String) : ColumnItem → Option KeyDefinition
  | .primaryKey => some { name := none, columns := [column] }
  | _ => none

/-- The foreign key that the item declares on the column of this name. -/
def foreignKey? (column : String) : ColumnItem → Option ForeignKeyDefinition
  | .references r => some (r.foreignKey none [column])
  | _ => none

end ColumnItem

/-- A column with the keys that are declared on it. -/
structure ColumnLayout where
  name : String
  type : DeclaredType
  items : List ColumnItem
deriving DecidableEq, Repr

namespace ColumnLayout

/-- The lexemes of the column. -/
def lexemes (c : ColumnLayout) : List Lexeme :=
  .quoted c.name :: c.type.lexemes ++ c.items.flatMap ColumnItem.lexemes

/-- The column apart from its keys. -/
def definition (c : ColumnLayout) : ColumnDefinition where
  name := c.name
  type := c.type
  options := c.items.filterMap ColumnItem.option?

/-- The primary keys that are declared on the column. -/
def keys (c : ColumnLayout) : List KeyDefinition := c.items.filterMap (·.key? c.name)

/-- The foreign keys that are declared on the column. -/
def foreignKeys (c : ColumnLayout) : List ForeignKeyDefinition :=
  c.items.filterMap (·.foreignKey? c.name)

end ColumnLayout

/-! ### Keys of their own -/

/-- The clause of a key, for a table body or an alteration. -/
inductive KeyClause where
  | primary (k : KeyDefinition)
  | foreign (name : Option String) (columns : List String) (r : Reference)
deriving DecidableEq, Repr

namespace KeyClause

/-- The lexemes of the clause. -/
def lexemes : KeyClause → List Lexeme
  | .primary k => k.lexemes
  | .foreign name columns r =>
    constraintClause name ++ [.keyword .foreign, .keyword .key] ++ nameList columns ++ r.lexemes

/-- The primary key that the clause declares. -/
def key? : KeyClause → Option KeyDefinition
  | .primary k => some k
  | .foreign .. => none

/-- The foreign key that the clause declares. -/
def foreignKey? : KeyClause → Option ForeignKeyDefinition
  | .primary _ => none
  | .foreign name columns r => some (r.foreignKey name columns)

end KeyClause

/-- An element of a table body. -/
inductive Element where
  | column (c : ColumnLayout)
  | clause (c : KeyClause)
deriving DecidableEq, Repr

namespace Element

/-- The lexemes of the element. -/
def lexemes : Element → List Lexeme
  | .column c => c.lexemes
  | .clause c => c.lexemes

/-- The column that the element is. -/
def column? : Element → Option ColumnLayout
  | .column c => some c
  | .clause _ => none

/-- The primary keys that the element declares. -/
def keys : Element → List KeyDefinition
  | .column c => c.keys
  | .clause c => c.key?.toList

/-- The foreign keys that the element declares. -/
def foreignKeys : Element → List ForeignKeyDefinition
  | .column c => c.foreignKeys
  | .clause c => c.foreignKey?.toList

end Element

/-! ### Declarations -/

/-- A table as it is written, with columns and clauses in any order. -/
structure TableLayout where
  name : String
  elements : List Element
  comment : Option String
deriving DecidableEq, Repr

namespace TableLayout

/-- The lexemes of the statement, with its semicolon. -/
def lexemes (t : TableLayout) : List Lexeme :=
  [.keyword .create, .keyword .table, .quoted t.name, .openParen] ++
    separated (t.elements.map Element.lexemes) ++
    .closeParen :: TableDefinition.commentClause t.comment ++ [.semicolon]

/-- The columns of the table. -/
def columns (t : TableLayout) : List ColumnLayout := t.elements.filterMap Element.column?

/-- The primary keys that the body declares. -/
def keys (t : TableLayout) : List KeyDefinition := t.elements.flatMap Element.keys

/-- The foreign keys that the body declares. -/
def foreignKeys (t : TableLayout) : List ForeignKeyDefinition :=
  t.elements.flatMap Element.foreignKeys

end TableLayout

/-- A statement that creates a table or adds keys to one. -/
inductive Declaration where
  | create (t : TableLayout)
  | alter (table : String) (added : List KeyClause)
deriving DecidableEq, Repr

namespace Declaration

/-- The lexemes of the statement, with its semicolon. -/
def lexemes : Declaration → List Lexeme
  | .create t => t.lexemes
  | .alter table added =>
    [.keyword .alter, .keyword .table, .quoted table] ++
      separated (added.map fun c => .keyword .add :: c.lexemes) ++ [.semicolon]

/-- The table that the statement creates. An alteration creates none. -/
def layout? : Declaration → Option TableLayout
  | .create t => some t
  | .alter .. => none

/-- The keys that the statement adds to the table of this name. A name is compared as it is written,
in the same letter case. -/
def addedTo (table : String) : Declaration → List KeyClause
  | .create _ => []
  | .alter altered added => if altered = table then added else []

end Declaration

/-- The keys that the declarations add to the table of this name. -/
def addedKeys (ds : List Declaration) (table : String) : List KeyClause :=
  ds.flatMap (·.addedTo table)

/-- Among the declarations, the table is declared as it is defined: the same columns, and each key
at one of the three places. -/
structure Declares (ds : List Declaration) (l : TableLayout) (t : TableDefinition) : Prop where
  name : l.name = t.name
  columns : l.columns.map ColumnLayout.definition = t.columns
  comment : l.comment = t.comment
  keys : l.keys ++ (addedKeys ds l.name).filterMap KeyClause.key? = t.key.toList
  foreignKeys : (l.foreignKeys ++ (addedKeys ds l.name).filterMap KeyClause.foreignKey?).Perm
    t.foreignKeys

/-- The name has no quotation marks in it, and is not the word that may stand before the name of
the table in an alteration. -/
def IsBareName (name : String) : Prop :=
  (∀ c ∈ name.toList, Sql.isQuoteMark c = false) ∧ Text.eqIgnoreCase name "ONLY" = false

/-- The characters of a name are tested one by one. -/
instance (name : String) : Decidable (IsBareName name) :=
  @instDecidableAnd (∀ c ∈ name.toList, Sql.isQuoteMark c = false)
    (Text.eqIgnoreCase name "ONLY" = false) (List.decidableBAll _ _) inferInstance

/-- Together they declare exactly these tables, which have different names, and alter only
these. -/
structure LaysOut (ds : List Declaration) (ts : List TableDefinition) : Prop where
  creates : List.Forall₂ (Declares ds) (ds.filterMap Declaration.layout?) ts
  nodup : (ts.map (·.name)).Nodup
  bare : ∀ t ∈ ts, IsBareName t.name
  altered : ∀ table added, .alter table added ∈ ds → table ∈ ts.map (·.name)

end EntityDiagram.Ddl
