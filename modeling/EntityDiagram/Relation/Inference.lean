import EntityDiagram.Schema.Basic
import EntityDiagram.Text.Replace

/-!
# `EntityDiagram.Relation.Inference`: the cardinality of foreign keys

`infer` completes a schema in up to three passes.

* If the naming convention is on, a column such as `user_id` beside a table `users` gives its
  table an implied foreign key.
* A foreign key from exactly the columns of its table's primary key is one to one, any other one
  to many.
* If junction detection is on, a table with two foreign keys that together start from exactly its
  primary key is a junction, and both keys are many to many.
-/

set_option autoImplicit false

namespace EntityDiagram.Relation

/-- The usual end of the name of a column that refers to another table. -/
def usualSuffix : String := "_id"

/-- What inference does. The defaults of the members are those of a run that is given no
settings. -/
structure Config where
  /-- Whether junction tables are detected. -/
  junctions : Bool := true
  /-- Whether column names imply foreign keys. -/
  namingConvention : Bool := false
  /-- What follows the stem in the name of a column that implies a foreign key. -/
  suffix : String := usualSuffix
deriving DecidableEq, Repr, Inhabited

/-- What an inference run has found. -/
structure Summary where
  oneToOne : Nat
  oneToMany : Nat
  manyToMany : Nat
  junctionTables : Nat
  /-- The number of foreign keys that this run has added. -/
  impliedKeys : Nat
deriving DecidableEq, Repr

/-! ### Implied foreign keys -/

/-- The stem of a name that ends in `suffix`, if it is not empty. -/
def stem? (suffix name : String) : Option String :=
  match Text.dropTail? suffix.toList name.toList with
  | some (c :: stem) => some (String.ofList (c :: stem))
  | _ => none

/-- The first table of this name and the column of its primary key, if there is just one. -/
def keyTarget? (s : Schema) (name : String) : Option (String × String) :=
  (s.table? name).bind fun t =>
    match t.primaryKey.map (·.columns) with
    | some [column] => some (t.name, column)
    | _ => none

/-- The table and column that a stem refers to: a table of that name, or else of its plural. -/
def target? (s : Schema) (stem : String) : Option (String × String) :=
  (keyTarget? s stem).orElse fun _ => keyTarget? s (stem ++ "s")

/-- The foreign key that a column of `t` implies, if it does: it is the source of no foreign key
and not by itself the primary key. -/
def impliedKey? (s : Schema) (suffix : String) (t : Table) (c : Column) : Option ForeignKey :=
  if t.isForeignKeyColumn c.name || sameNames t.keyColumns [c.name] then none
  else
    ((stem? suffix c.name).bind (target? s)).map fun (table, column) =>
      { name := some ("fk_" ++ t.name ++ "_" ++ c.name)
        fromTable := t.name
        fromColumns := [c.name]
        toTable := table
        toColumns := [column] }

/-- The foreign keys that the columns of `t` imply, in the order of the columns. -/
def impliedKeys (config : Config) (s : Schema) (t : Table) : List ForeignKey :=
  if config.namingConvention && !config.suffix.isEmpty then
    t.columns.filterMap (impliedKey? s config.suffix t)
  else []

/-- The table with its implied foreign keys. -/
def withImpliedKeys (config : Config) (s : Schema) (t : Table) : Table :=
  { t with foreignKeys := t.foreignKeys ++ impliedKeys config s t }

/-! ### Cardinalities and junctions -/

/-- Whether `names` are exactly the columns of the table's primary key, which is not empty. -/
def coversKey (t : Table) (names : List String) : Bool :=
  !t.keyColumns.isEmpty && sameNames names t.keyColumns

/-- The cardinality of a foreign key of `t`, junctions aside. -/
def cardinalityOf (t : Table) (key : ForeignKey) : Cardinality :=
  if coversKey t key.fromColumns then .oneToOne else .oneToMany

/-- The table with the cardinality of each foreign key set. -/
def classify (t : Table) : Table :=
  { t with
    foreignKeys := t.foreignKeys.map fun k => { k with cardinality := some (cardinalityOf t k) } }

/-- Whether the table resolves a many-to-many relation: it has two foreign keys that together
start from exactly its primary key. -/
def resolvesManyToMany (t : Table) : Bool :=
  t.foreignKeys.length == 2 && coversKey t (t.foreignKeys.flatMap (·.fromColumns))

/-- The table as a junction, if it resolves a many-to-many relation. -/
def markJunction (t : Table) : Table :=
  if resolvesManyToMany t then
    { t with
      kind := some .junction
      foreignKeys := t.foreignKeys.map fun k => { k with cardinality := some .manyToMany } }
  -- The kind stays, also where an earlier run has set it.
  else t

/-! ### The run -/

/-- The number of foreign keys of this cardinality. -/
def countCardinality (s : Schema) (c : Cardinality) : Nat :=
  s.foreignKeys.countP (·.cardinality == some c)

/-- The counts of a schema in which a run has added `impliedKeys` foreign keys. -/
def summarize (s : Schema) (impliedKeys : Nat) : Summary where
  oneToOne := countCardinality s .oneToOne
  oneToMany := countCardinality s .oneToMany
  manyToMany := countCardinality s .manyToMany
  junctionTables := s.tables.countP (·.isJunction)
  impliedKeys := impliedKeys

/-- What a run makes of a table of the schema `s`. -/
def inferTable (config : Config) (s : Schema) (t : Table) : Table :=
  -- Implied keys come first: they are classified too and count for a junction.
  let classified := classify (withImpliedKeys config s t)
  if config.junctions then markJunction classified else classified

/-- The schema with every foreign key classified. -/
def inferSchema (config : Config) (s : Schema) : Schema :=
  { s with tables := s.tables.map (inferTable config s) }

/-- Completes a schema and counts what has been found. -/
def infer (config : Config) (s : Schema) : Schema × Summary :=
  let added := (s.tables.flatMap (impliedKeys config s)).length
  let inferred := inferSchema config s
  (inferred, summarize inferred added)

end EntityDiagram.Relation
