import EntityDiagram.Statement.Query

/-!
# `EntityDiagram.Statement.Definition`: definitions of tables, indexes and views

The parts of a table definition come in a fixed order; the options of a column come in any order.
Some keywords are stepped over as options of a column even in a dialect that gives them no meaning:
such a keyword ends the options, and is not one itself.

What is read is data of `EntityDiagram.Statement.Basic`: columns with their options in order, and
the constraints of the table in order. Defaults, checks and computed columns are expressions, which
are read by `Nested` and kept in normal form. Of the options of the table itself only the comment is
kept.
-/

set_option autoImplicit false

namespace EntityDiagram.Statement

open Reader

namespace Definition

/-! ### Constraints -/

/-- When a constraint is checked. -/
def checkingTime : Reader Unit := discard <| many do
  if ← phrase ["NOT", "DEFERRABLE"] then return some ()
  if ← keyword "DEFERRABLE" then return some ()
  if ← keyword "INITIALLY" then
    discard (expectOneOf ["DEFERRED", "IMMEDIATE"])
    return some ()
  if ← keyword "ENFORCED" then return some ()
  if ← phrase ["NOT", "ENFORCED"] then return some ()
  return none

/-- What happens to a row when the row that it refers to changes. -/
def referentialAction : Reader String := do
  match ← oneOf? ["RESTRICT", "CASCADE", "SET", "NO"] with
  | some "SET" => return "SET " ++ (← expectOneOf ["NULL", "DEFAULT"])
  | some "NO" => do expect ["ACTION"]; return "NO ACTION"
  | some k => return k
  | none => reject "one of RESTRICT, CASCADE, SET NULL, NO ACTION or SET DEFAULT"

/-- What a foreign key refers to, after the keyword; `columns` reads the columns. -/
def reference (columns : Reader (List Ident)) : Reader Reference := do
  let table ← name
  let target : Reference := { table, columns := ← columns }
  let target ← iterate (fun (r : Reference) => do
    if r.onDelete.isNone then
      if ← phrase ["ON", "DELETE"] then
        return some { r with onDelete := some (← referentialAction) }
    if r.onUpdate.isNone then
      if ← phrase ["ON", "UPDATE"] then
        return some { r with onUpdate := some (← referentialAction) }
    return none) target
  checkingTime
  return target

/-- The access method of an index, if it is said. -/
def accessMethod : Reader Unit := do
  if ← keyword "USING" then discard (expectOneOf ["BTREE", "HASH"])

/-- Options of the index of a key. -/
def indexOptions : Reader Unit := discard <| many do
  if ← keyword "USING" then
    discard (expectOneOf ["BTREE", "HASH"])
    return some ()
  if ← keyword "COMMENT" then
    discard TypeName.literalString
    return some ()
  return none

/-- The columns of a key, after an optional name and method of its index. -/
def keyColumns : Reader (List Ident) := do
  discard (attempt ident)
  accessMethod
  let columns ← columnList
  indexOptions
  checkingTime
  return columns

/-- Whether nulls are distinct in a key, if it is said. -/
def nullsDistinct : Reader Unit := do
  if ← keyword "NULLS" then
    discard (keyword "NOT")
    expect ["DISTINCT"]

/-- A constraint of a table, if one is at the front. Only MySQL and the generic dialect know
indexes among the constraints. -/
def constraint? (n : Nested) : Reader (Option TableConstraint) := do
  let label ← if ← keyword "CONSTRAINT" then some <$> ident else pure none
  let hasIndexes ← isMySqlOrGeneric
  match ← peekKeyword with
  | "UNIQUE" => do
    skip
    -- PostgreSQL wants the columns right after `UNIQUE`.
    if (← oneOf? ["KEY", "INDEX"]).isSome && !hasIndexes then reject "a list of columns"
    nullsDistinct
    return some (.unique label (← keyColumns))
  | "PRIMARY" => do
    expect ["PRIMARY", "KEY"]
    return some (.primaryKey label (← keyColumns))
  | "FOREIGN" => do
    expect ["FOREIGN", "KEY"]
    let columns ← columnList
    expect ["REFERENCES"]
    return some (.foreignKey label columns (← reference columnList))
  | "CHECK" => do
    skip
    discard (inParens n.any)
    return some .check
  | k =>
    if hasIndexes && label.isNone && (k == "INDEX" || k == "KEY") then
      skip
      let indexName ← if (← peekKeyword) == "USING" then pure none else attempt ident
      accessMethod
      return some (.index indexName (← columnList))
    else if hasIndexes && label.isNone && (k == "FULLTEXT" || k == "SPATIAL") then
      skip
      discard (oneOf? ["KEY", "INDEX"])
      let indexName ← attempt ident
      let columns ← columnList
      return some (if k == "FULLTEXT" then .fulltext indexName columns
        else .spatial indexName columns)
    else if label.isSome then reject "PRIMARY, UNIQUE, FOREIGN, or CHECK"
    else return none

/-! ### Columns -/

/-- Options of a sequence of numbers. -/
def sequenceOptions : Reader Unit := do
  if ← keyword "INCREMENT" then
    discard (keyword "BY")
    discard signedNumber
  if ← keyword "MINVALUE" then discard signedNumber else discard (phrase ["NO", "MINVALUE"])
  if ← keyword "MAXVALUE" then discard signedNumber else discard (phrase ["NO", "MAXVALUE"])
  if ← keyword "START" then
    discard (keyword "WITH")
    discard signedNumber
  if ← keyword "CACHE" then discard signedNumber
  if !(← phrase ["NO", "CYCLE"]) then discard (keyword "CYCLE")

/-- What makes the values of a column, after `GENERATED`, if it can be read: a sequence or an
expression. PostgreSQL wants the values of an expression to be stored. -/
def generated? (n : Nested) : Reader (Option ColumnOption) := do
  let isIdentity ←
    if ← phrase ["ALWAYS", "AS", "IDENTITY"] then pure true
    else phrase ["BY", "DEFAULT", "AS", "IDENTITY"]
  if isIdentity then
    if ← peekSymbol "(" then inParens sequenceOptions
    return some (.generated false)
  if ← phrase ["ALWAYS", "AS"] then
    if ← peekSymbol "(" then
      discard (inParens n.any)
      if !(← keyword "STORED") then
        if ← isAnyOf [.postgres] then reject "STORED"
        discard (keyword "VIRTUAL")
      return some (.generated true)
  return none

/-- An option in parentheses: a name with its value. -/
def namedValue (n : Nested) : Reader Unit := do
  discard ident
  expectSymbol "="
  discard n.any

/-- Options in parentheses after a phrase of keywords, if the phrase is at the front. -/
def options (n : Nested) (keywords : List String) : Reader Unit := do
  if ← phrase keywords then
    discard (inParens (commaSeparatedUntil ")" (namedValue n)))

/-- The options of a column whose keywords are stepped over in every dialect. -/
def dialectOption? (n : Nested) : Reader (Option ColumnOption) := do
  let isGeneric := isAnyOf [.generic]
  -- The keyword is read before the dialect is asked, so it is gone in any dialect.
  if ← onlyIf (keyword "AUTO_INCREMENT") isMySqlOrGeneric then
    return some (.words ["AUTO_INCREMENT"])
  if ← onlyIf (keyword "AUTOINCREMENT") isGeneric then return some (.words ["AUTOINCREMENT"])
  if ← onlyIf (keyword "ASC") isGeneric then return some (.words ["ASC"])
  if ← onlyIf (keyword "DESC") isGeneric then return some (.words ["DESC"])
  if ← onlyIf (phrase ["ON", "UPDATE"]) isMySqlOrGeneric then
    discard n.any
    return some .other
  if ← keyword "GENERATED" then return ← generated? n
  if ← isGeneric then
    if (← peekKeyword) == "OPTIONS" then
      options n ["OPTIONS"]
      return some .other
  if ← onlyIf (keyword "AS") isMySqlOrGeneric then
    discard (inParens n.any)
    discard (oneOf? ["STORED", "VIRTUAL"])
    return some (.generated true)
  if ← onlyIf (keyword "IDENTITY") isGeneric then
    if ← peekSymbol "(" then
      discard <| inParens do
        discard signedNumber
        expectSymbol ","
        signedNumber
    return some .other
  -- Here the dialect is asked first.
  if ← onlyIf isGeneric (phrase ["ON", "CONFLICT"]) then
    discard (expectOneOf ["ROLLBACK", "ABORT", "FAIL", "IGNORE", "REPLACE"])
    return some .other
  return none

/-- An option of a column, if one is at the front. -/
def columnOption? (n : Nested) : Reader (Option ColumnOption) := do
  let isGeneric ← isAnyOf [.generic]
  if ← phrase ["CHARACTER", "SET"] then
    discard name
    return some .other
  if ← phrase ["NOT", "NULL"] then return some .notNull
  if ← keyword "COMMENT" then return some (.comment (← singleQuoted))
  if ← keyword "NULL" then return some .null
  if ← keyword "DEFAULT" then return some (.default (← n.any))
  if isGeneric then
    if (← oneOf? ["MATERIALIZED", "ALIAS"]).isSome then
      discard n.any
      return some .other
    if ← keyword "EPHEMERAL" then
      if !(← peekSymbol ",") && !(← peekSymbol ")") then discard n.any
      return some .other
  if ← phrase ["PRIMARY", "KEY"] then
    checkingTime
    return some .primaryKey
  if ← keyword "UNIQUE" then
    checkingTime
    return some .unique
  if ← keyword "REFERENCES" then return some (.references (← reference columnList?))
  if ← keyword "CHECK" then
    discard (inParens n.any)
    return some .other
  dialectOption? n

/-- An option of a column under an optional name, or a collation, if there is one. -/
def namedOption? (n : Nested) : Reader (Option (List NamedOption)) := do
  if ← keyword "CONSTRAINT" then
    let label ← ident
    match ← columnOption? n with
    | some option => return some [{ name := some label, option }]
    | none => reject "constraint details after CONSTRAINT <name>"
  match ← columnOption? n with
  | some option => return some [{ option }]
  | none =>
    if ← onlyIf isMySqlOrGeneric (keyword "COLLATE") then
      discard name
      return some []
    else return none

/-- The definition of a column. -/
def column (n : Nested) : Reader ColumnDef := do
  let label ← ident
  let type ← typeName
  discard (clause ["COLLATE"] nameText)
  let options ← many (namedOption? n)
  return { name := label, type, options := options.flatten }

/-! ### Tables -/

/-- A part of a table definition. -/
inductive Element where
  | column (c : ColumnDef)
  | constraint (c : TableConstraint)

/-- A column or a constraint. -/
def element (n : Nested) : Reader Element := do
  match ← constraint? n with
  | some c => return .constraint c
  | none =>
    match ← peek with
    | some (.word _) => return .column (← column n)
    | _ => reject "column name or constraint definition"

/-- The columns and constraints of a table in parentheses, if there are any. -/
def elements (n : Nested) : Reader (List Element) := do
  if ← peekSymbol "(" then inParens (commaSeparatedUntil ")" (element n)) else return []

/-- Steps over a qualified name. Where a part of it is missing, the token in its place is taken
for it. -/
def skipName : Reader Unit := do
  if (← attempt name).isNone then
    discard <| many (attempt do
      discard ident
      expectSymbol ".")
    skip

/-- Where and in which format the rows of a table are stored. -/
def storage (n : Nested) : Reader Unit := do
  if ← phrase ["PARTITIONED", "BY"] then discard (inParens (commaSeparated (column n)))
  discard <| many do
    if ← phrase ["STORED", "AS"] then
      discard (expectOneOf ["TEXTFILE", "SEQUENCEFILE", "ORC", "PARQUET", "AVRO", "RCFILE",
        "JSONFILE"])
      return some ()
    if ← keyword "LOCATION" then
      discard TypeName.literalString
      return some ()
    return none

/-- A word that is the value of a table option. -/
def optionWord : Reader Unit := do
  match ← peek with
  | some (.word _) => skip
  | _ => reject "an identifier"

/-- The storage engine of a table, if it is said. -/
def engine : Reader Unit := do
  if ← keyword "ENGINE" then
    expectSymbol "="
    optionWord
    discard columnList?

/-- The number at which a table starts to number its rows, if it is said. -/
def firstNumber : Reader Unit := do
  if ← keyword "AUTO_INCREMENT" then
    discard (symbol "=")
    let number ← natural
    if (number.toNat?.getD 0) ≥ UInt32.size then reject "a smaller number"

/-- How a table is sorted, partitioned and clustered, if it is said. -/
def arrangement (n : Nested) : Reader Unit := do
  let isGeneric ← isAnyOf [.generic]
  if isGeneric then discard (clause ["PRIMARY", "KEY"] n.any)
  if ← phrase ["ORDER", "BY"] then
    if ← peekSymbol "(" then discard (inParens (commaSeparatedUntil ")" n.any))
    else discard n.any
  if ← isPostgresOrGeneric then discard (clause ["PARTITION", "BY"] n.any)
  if isGeneric then
    discard (clause ["CLUSTER", "BY"] n.anyListed)
    options n ["OPTIONS"]

/-- The comment of a table, if there is one. -/
def tableComment : Reader (Option String) := do
  if ← keyword "COMMENT" then
    discard (symbol "=")
    return some (← singleQuoted)
  else return none

/-- The options of a table after its columns and constraints; of them the comment is kept. -/
def tableOptions (n : Nested) : Reader (Option String) := do
  discard (phrase ["WITHOUT", "ROWID"])
  storage n
  options n ["WITH"]
  options n ["TBLPROPERTIES"]
  engine
  firstNumber
  arrangement n
  for keywords in [["DEFAULT", "CHARSET"], ["COLLATE"]] do
    if ← phrase keywords then
      expectSymbol "="
      optionWord
  if ← phrase ["ON", "COMMIT"] then
    if (← expectOneOf ["DELETE", "PRESERVE", "DROP"]) != "DROP" then expect ["ROWS"]
  discard (keyword "STRICT")
  tableComment

/-- The query that fills a new table, if there is one. In MySQL it may follow at once. -/
def source (n : Nested) : Reader Unit := do
  if ← keyword "AS" then discard n.query
  else if ← isAnyOf [.mySql] then
    if (← peekKeyword) == "SELECT" then discard n.query

/-- Collects the parts of a table definition. -/
def tableOf (name : ObjectName) (elements : List Element) (comment : Option String) :
    CreateTable where
  name := name
  columns := elements.filterMap fun
    | .column c => some c
    | .constraint _ => none
  constraints := elements.filterMap fun
    | .column _ => none
    | .constraint c => some c
  comment := comment

/-- The definition of a table, after its keyword. -/
def table (n : Nested) : Reader CreateTable := do
  discard (phrase ["IF", "NOT", "EXISTS"])
  let label ← name
  discard (clause ["ON", "CLUSTER"] identText)
  if (← oneOf? ["LIKE", "ILIKE"]).isSome then skipName
  if ← keyword "CLONE" then skipName
  let elements ← elements n
  let comment ← tableOptions n
  source n
  return tableOf label elements comment

/-- The definition of a table that is stored elsewhere, after its keywords. -/
def externalTable (n : Nested) : Reader CreateTable := do
  discard (phrase ["IF", "NOT", "EXISTS"])
  let label ← name
  let elements ← elements n
  storage n
  options n ["TBLPROPERTIES"]
  return tableOf label elements none

/-! ### Indexes and views -/

/-- The definition of an index, after its keywords. -/
def index (n : Nested) (unique : Bool) : Reader CreateIndex := do
  discard (keyword "CONCURRENTLY")
  let label ←
    if ← phrase ["IF", "NOT", "EXISTS"] then some <$> name
    else if (← peekKeyword) == "ON" then pure none
    else some <$> name
  expect ["ON"]
  let table ← name
  discard (clause ["USING"] identText)
  let columns ← inParens (commaSeparated (Expression.orderItem n))
  if ← keyword "INCLUDE" then discard columnList
  nullsDistinct
  if ← onlyIf isPostgresOrGeneric (keyword "WITH") then discard (inParens n.anyListed)
  discard (clause ["WHERE"] n.any)
  return { name := label, table, columns, unique }

/-- The definition of a view, after its keyword: its name and query. -/
def view (n : Nested) : Reader (ObjectName × String) := do
  let isGeneric ← isAnyOf [.generic]
  if isGeneric then discard (phrase ["IF", "NOT", "EXISTS"])
  let label ← name
  discard columnList?
  options n ["WITH"]
  if ← keyword "CLUSTER" then
    expect ["BY"]
    discard columnList?
  if isGeneric then
    options n ["OPTIONS"]
    discard (clause ["TO"] nameText)
    if ← keyword "COMMENT" then
      expectSymbol "="
      discard singleQuoted
  expect ["AS"]
  let query ← n.query
  if isGeneric then discard (phrase ["WITH", "NO", "SCHEMA", "BINDING"])
  return (label, query)

end Definition

end EntityDiagram.Statement
