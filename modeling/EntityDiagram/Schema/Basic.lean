import EntityDiagram.Text.Casing
import EntityDiagram.Text.Space

/-!
# `EntityDiagram.Schema.Basic`: the schema of a database

A `Schema` is what the readers of DDL text produce, relation inference completes and diagrams
show: tables with columns, keys and indexes, and views. Names are kept as declared. Everything
that a script may leave open is an `Option`; in particular the cardinality of a foreign key is
unset until inference has run.

The columns of a key are a list, since their order is shown, but keys are compared as sets of
names: `sameNames` is that comparison and `sortedNames` the set in the order in which it is
written.
-/

set_option autoImplicit false

namespace EntityDiagram

/-- The cardinality of a foreign key. -/
inductive Cardinality where
  | oneToOne
  | oneToMany
  /-- Many to many, resolved by a junction table. -/
  | manyToMany
deriving DecidableEq, Repr

/-- The name under which a cardinality is written. -/
def Cardinality.label : Cardinality → String
  | .oneToOne => "ONE_TO_ONE"
  | .oneToMany => "ONE_TO_MANY"
  | .manyToMany => "MANY_TO_MANY"

/-- The kind of a table. -/
inductive TableKind where
  | base
  | view
  /-- A table that resolves a many-to-many relation between two others. -/
  | junction
deriving DecidableEq, Repr

/-- The name under which a kind of table is written. -/
def TableKind.label : TableKind → String
  | .base => "BASE TABLE"
  | .view => "VIEW"
  | .junction => "JUNCTION"

/-- A column of a table or view. -/
structure Column where
  name : String
  /-- The normalized type: `TYPE`, `TYPE(length)` or `TYPE(precision,scale)`. -/
  dataType : String
  /-- The type without parameters. -/
  baseType : String
  length : Option UInt32 := none
  precision : Option UInt32 := none
  scale : Option UInt32 := none
  nullable : Bool := true
  defaultValue : Option String := none
  comment : Option String := none
  /-- Whether the column is a member of the primary key. -/
  inPrimaryKey : Bool := false
  autoIncrement : Bool := false
deriving DecidableEq, Repr, Inhabited

namespace Column

/-- A nullable column of the given type, whose base type is what precedes the parameters. -/
def ofType (name dataType : String) : Column where
  name := name
  dataType := dataType
  baseType := String.ofList (Text.trim (dataType.toList.takeWhile (· != '(')))

/-- The column as a NOT NULL column. -/
def required (c : Column) : Column := { c with nullable := false }

/-- The column as a member of the primary key, which makes it NOT NULL. -/
def asKey (c : Column) : Column := { c with inPrimaryKey := true, nullable := false }

/-- The type with its parameters. A normalized type that has none is completed from the precision
and scale, or else from a positive length. -/
def fullType (c : Column) : String :=
  if c.dataType.toList.contains '(' then c.dataType
  else
    let base := if c.baseType.isEmpty then c.dataType else c.baseType
    match c.precision, c.scale, c.length with
    | some p, some s, _ => base ++ "(" ++ toString p.toNat ++ "," ++ toString s.toNat ++ ")"
    | _, _, some n => if n > 0 then base ++ "(" ++ toString n.toNat ++ ")" else base
    | _, _, none => base

end Column

/-- The primary key of a table. -/
structure PrimaryKey where
  name : Option String := none
  /-- The names of the key's columns, in the order of the key. -/
  columns : List String
deriving DecidableEq, Repr, Inhabited

/-- A foreign key. -/
structure ForeignKey where
  name : Option String := none
  fromTable : String
  fromColumns : List String
  toTable : String
  toColumns : List String
  /-- What happens on deletion: `CASCADE`, `SET_NULL`, `RESTRICT`, `NO_ACTION`, `SET_DEFAULT`. -/
  onDelete : Option String := none
  onUpdate : Option String := none
  /-- Unset until relations have been inferred. -/
  cardinality : Option Cardinality := none
deriving DecidableEq, Repr, Inhabited

/-- An index or a unique constraint. -/
structure Index where
  name : Option String := none
  columns : List String
  unique : Bool
  /-- `UNIQUE`, `INDEX`, `FULLTEXT`, `SPATIAL`, … -/
  kind : Option String := none
deriving DecidableEq, Repr, Inhabited

/-- A table. -/
structure Table where
  name : String
  comment : Option String := none
  /-- The columns in the order of declaration. -/
  columns : List Column := []
  primaryKey : Option PrimaryKey := none
  foreignKeys : List ForeignKey := []
  indexes : List Index := []
  kind : Option TableKind := none
deriving DecidableEq, Repr, Inhabited

/-- A view. -/
structure View where
  name : String
  comment : Option String := none
  columns : List Column := []
  /-- The text of the defining query. -/
  definition : Option String := none
deriving DecidableEq, Repr, Inhabited

/-- The schema of a database. -/
structure Schema where
  /-- The dialect in which it was written. -/
  dbType : String
  schemaName : Option String := none
  /-- The tables in the order of declaration. -/
  tables : List Table := []
  views : List View := []
  /-- Notes by name; no name occurs twice. -/
  metadata : List (String × String) := []
deriving DecidableEq, Repr, Inhabited

/-! ### Names as sets -/

/-- Adds a name to an ascending list of names, unless it is there. -/
def insertName (name : String) : List String → List String
  | [] => [name]
  | other :: rest =>
    if name < other then name :: other :: rest
    else if name == other then other :: rest
    else other :: insertName name rest

/-- The names in ascending order of their characters, each once. -/
def sortedNames (names : List String) : List String := names.foldr insertName []

/-- Whether two lists hold the same names, order and repetition aside. -/
def sameNames (a b : List String) : Bool := a.all b.contains && b.all a.contains

/-! ### Tables -/

namespace Table

/-- The column of exactly this name that was declared first. -/
def column? (t : Table) (name : String) : Option Column := t.columns.find? (·.name == name)

/-- The names of the columns in the order of declaration. -/
def columnNames (t : Table) : List String := t.columns.map (·.name)

/-- The names of the primary key's columns; none without a primary key. -/
def keyColumns (t : Table) : List String := (t.primaryKey.map (·.columns)).getD []

/-- Whether the column is a source of some foreign key of the table. -/
def isForeignKeyColumn (t : Table) (name : String) : Bool :=
  t.foreignKeys.any (·.fromColumns.contains name)

/-- Whether the table resolves a many-to-many relation. -/
def isJunction (t : Table) : Bool := t.kind == some .junction

/-- Makes the first column that satisfies `p` a member of the key. -/
def flagFirst (p : Column → Bool) : List Column → List Column
  | [] => []
  | c :: rest => if p c then c.asKey :: rest else c :: flagFirst p rest

/-- Resolves the names of a key, in order, against the columns: a name that equals a column's
name, ASCII case aside, is replaced by it and the column becomes a key column. -/
def resolveKey : List String → List Column → List String × List Column
  | [], columns => ([], columns)
  | name :: names, columns =>
    let hit (c : Column) := Text.eqIgnoreCase c.name name
    let resolved := ((columns.find? hit).map (·.name)).getD name
    let (more, flagged) := resolveKey names (flagFirst hit columns)
    (resolved :: more, flagged)

/-- Gives the table a primary key. Its columns are found without regard to ASCII case and named
as declared; they become key columns and thereby NOT NULL. -/
def markPrimaryKey (t : Table) (key : PrimaryKey) : Table :=
  let (names, columns) := resolveKey key.columns t.columns
  { t with columns := columns, primaryKey := some { key with columns := names } }

end Table

/-! ### Schemas -/

namespace Schema

/-- The first table of exactly this name. -/
def table? (s : Schema) (name : String) : Option Table := s.tables.find? (·.name == name)

/-- The names of the tables in the order of declaration. -/
def tableNames (s : Schema) : List String := s.tables.map (·.name)

/-- The foreign keys of all tables. -/
def foreignKeys (s : Schema) : List ForeignKey := s.tables.flatMap (·.foreignKeys)

/-- The number of foreign keys of all tables. -/
def foreignKeyCount (s : Schema) : Nat := s.foreignKeys.length

/-- Applies `f` to the first table of this name in the list; none if there is no such table. -/
def updateTable? (name : String) (f : Table → Table) : List Table → Option (List Table)
  | [] => none
  | t :: rest =>
    if t.name == name then some (f t :: rest) else (updateTable? name f rest).map (t :: ·)

/-- Sets a note, in its place if the name is taken, and at the end otherwise. -/
def setNote (name value : String) : List (String × String) → List (String × String)
  | [] => [(name, value)]
  | (other, old) :: rest =>
    if other == name then (name, value) :: rest else (other, old) :: setNote name value rest

/-- The schema with one note set. -/
def withNote (s : Schema) (name value : String) : Schema :=
  { s with metadata := setNote name value s.metadata }

end Schema

end EntityDiagram
