import EntityDiagram.Json.Basic
import EntityDiagram.Schema.Basic

/-!
# `EntityDiagram.Schema.Json`: schemas as JSON

Each record is written as an object with all its members, an unset one as `null`. Reading takes
an absent member for an unset one, and an absent list of views or table of notes for an empty
one; every other member has to be there.

The names of members are those of the format and not always those of the fields here. Numbers are
read as integers of 32 bits, and one that is out of range is refused with the whole record, as is
any member of a wrong kind. Members that no reader asks for are passed over, at every depth.
-/

set_option autoImplicit false

namespace EntityDiagram

open Json

/-- The cardinality of that label. -/
def Cardinality.ofLabel? : String → Option Cardinality
  | "ONE_TO_ONE" => some .oneToOne
  | "ONE_TO_MANY" => some .oneToMany
  | "MANY_TO_MANY" => some .manyToMany
  | _ => none

/-- The kind of table of that label. -/
def TableKind.ofLabel? : String → Option TableKind
  | "BASE TABLE" => some .base
  | "VIEW" => some .view
  | "JUNCTION" => some .junction
  | _ => none

/-- Reads a cardinality from its label. -/
def Cardinality.ofJson? (j : Json) : Option Cardinality := j.str?.bind Cardinality.ofLabel?

/-- Reads a kind of table from its label. -/
def TableKind.ofJson? (j : Json) : Option TableKind := j.str?.bind TableKind.ofLabel?

/-- A column as an object. -/
def Column.toJson (c : Column) : Json :=
  .obj [
    ("name", .str c.name),
    ("type", .str c.dataType),
    ("raw_type", .str c.baseType),
    ("length", ofOption ofUInt32 c.length),
    ("precision", ofOption ofUInt32 c.precision),
    ("scale", ofOption ofUInt32 c.scale),
    ("nullable", .bool c.nullable),
    ("default_value", ofOption .str c.defaultValue),
    ("comment", ofOption .str c.comment),
    ("primary_key_part", .bool c.inPrimaryKey),
    ("auto_increment", .bool c.autoIncrement)]

/-- Reads a column. -/
def Column.ofJson? (j : Json) : Option Column := do
  return {
    name := ← j.member "name" str?
    dataType := ← j.member "type" str?
    baseType := ← j.member "raw_type" str?
    length := ← j.memberOpt "length" uint32?
    precision := ← j.memberOpt "precision" uint32?
    scale := ← j.memberOpt "scale" uint32?
    nullable := ← j.member "nullable" bool?
    defaultValue := ← j.memberOpt "default_value" str?
    comment := ← j.memberOpt "comment" str?
    inPrimaryKey := ← j.member "primary_key_part" bool?
    autoIncrement := ← j.member "auto_increment" bool? }

/-- A primary key as an object. -/
def PrimaryKey.toJson (k : PrimaryKey) : Json :=
  .obj [("name", ofOption .str k.name), ("columns", ofStrings k.columns)]

/-- Reads a primary key. -/
def PrimaryKey.ofJson? (j : Json) : Option PrimaryKey := do
  return {
    name := ← j.memberOpt "name" str?
    columns := ← j.member "columns" (list? str?) }

/-- A foreign key as an object. -/
def ForeignKey.toJson (k : ForeignKey) : Json :=
  .obj [
    ("name", ofOption .str k.name),
    ("from_table", .str k.fromTable),
    ("from_columns", ofStrings k.fromColumns),
    ("to_table", .str k.toTable),
    ("to_columns", ofStrings k.toColumns),
    ("on_delete", ofOption .str k.onDelete),
    ("on_update", ofOption .str k.onUpdate),
    ("relation_type", ofOption (.str ·.label) k.cardinality)]

/-- Reads a foreign key. -/
def ForeignKey.ofJson? (j : Json) : Option ForeignKey := do
  return {
    name := ← j.memberOpt "name" str?
    fromTable := ← j.member "from_table" str?
    fromColumns := ← j.member "from_columns" (list? str?)
    toTable := ← j.member "to_table" str?
    toColumns := ← j.member "to_columns" (list? str?)
    onDelete := ← j.memberOpt "on_delete" str?
    onUpdate := ← j.memberOpt "on_update" str?
    cardinality := ← j.memberOpt "relation_type" Cardinality.ofJson? }

/-- An index as an object. -/
def Index.toJson (i : Index) : Json :=
  .obj [
    ("name", ofOption .str i.name),
    ("columns", ofStrings i.columns),
    ("unique", .bool i.unique),
    ("index_type", ofOption .str i.kind)]

/-- Reads an index. -/
def Index.ofJson? (j : Json) : Option Index := do
  return {
    name := ← j.memberOpt "name" str?
    columns := ← j.member "columns" (list? str?)
    unique := ← j.member "unique" bool?
    kind := ← j.memberOpt "index_type" str? }

/-- A table as an object. -/
def Table.toJson (t : Table) : Json :=
  .obj [
    ("name", .str t.name),
    ("comment", ofOption .str t.comment),
    ("columns", ofList Column.toJson t.columns),
    ("primary_key", ofOption PrimaryKey.toJson t.primaryKey),
    ("foreign_keys", ofList ForeignKey.toJson t.foreignKeys),
    ("indexes", ofList Index.toJson t.indexes),
    ("table_type", ofOption (.str ·.label) t.kind)]

/-- Reads a table. -/
def Table.ofJson? (j : Json) : Option Table := do
  return {
    name := ← j.member "name" str?
    comment := ← j.memberOpt "comment" str?
    columns := ← j.member "columns" (list? Column.ofJson?)
    primaryKey := ← j.memberOpt "primary_key" PrimaryKey.ofJson?
    foreignKeys := ← j.member "foreign_keys" (list? ForeignKey.ofJson?)
    indexes := ← j.member "indexes" (list? Index.ofJson?)
    kind := ← j.memberOpt "table_type" TableKind.ofJson? }

/-- A view as an object. -/
def View.toJson (v : View) : Json :=
  .obj [
    ("name", .str v.name),
    ("comment", ofOption .str v.comment),
    ("columns", ofList Column.toJson v.columns),
    ("definition", ofOption .str v.definition)]

/-- Reads a view. -/
def View.ofJson? (j : Json) : Option View := do
  return {
    name := ← j.member "name" str?
    comment := ← j.memberOpt "comment" str?
    columns := ← j.member "columns" (list? Column.ofJson?)
    definition := ← j.memberOpt "definition" str? }

/-- A schema as an object. -/
def Schema.toJson (s : Schema) : Json :=
  .obj [
    ("db_type", .str s.dbType),
    ("schema_name", ofOption .str s.schemaName),
    ("tables", ofList Table.toJson s.tables),
    ("views", ofList View.toJson s.views),
    ("metadata", .obj (s.metadata.map fun note => (note.1, .str note.2)))]

/-- Reads a schema. -/
def Schema.ofJson? (j : Json) : Option Schema := do
  return {
    dbType := ← j.member "db_type" str?
    schemaName := ← j.memberOpt "schema_name" str?
    tables := ← j.member "tables" (list? Table.ofJson?)
    views := ← j.memberOr "views" (list? View.ofJson?) []
    metadata := ← j.memberOr "metadata" strMap? [] }

end EntityDiagram
