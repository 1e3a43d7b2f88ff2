import EntityDiagram.Statement.Definition

/-!
# `EntityDiagram.Statement.Change`: statements that change tables, rows and other objects

These statements have to fit the grammar. All that is kept of them is which constraints an
`ALTER TABLE` adds.

A script is refused as a whole where one of its statements does not fit, whatever that statement
says about the schema, so that rows and privileges have their rules here as well as tables. A rule
that has nothing to yield is a reader of `Unit`.
-/

set_option autoImplicit false

namespace EntityDiagram.Statement

open Reader

namespace Change

/-! ### Tables and other objects -/

/-- The place of a column among the others, if it is said. -/
def columnPlace : Reader Unit := do
  if ← isMySqlOrGeneric then
    if !(← keyword "FIRST") then discard (clause ["AFTER"] identText)

/-- What becomes of the objects that depend on a dropped one, if it is said. -/
def dropBehavior : Reader Unit := discard (oneOf? ["CASCADE", "RESTRICT"])

/-- What is added to a table: a constraint, which is kept, or a column. -/
def addition (n : Nested) : Reader (Option TableConstraint) := do
  match ← Definition.constraint? n with
  | some c => return some c
  | none => do
    discard (phrase ["IF", "NOT", "EXISTS"])
    discard (keyword "COLUMN")
    if !(← isAnyOf [.mySql]) then discard (phrase ["IF", "NOT", "EXISTS"])
    discard (Definition.column n)
    columnPlace
    return none

/-- New names of a table, its columns or constraints. -/
def newNames : Reader Unit := do
  if ← onlyIf (isAnyOf [.postgres]) (keyword "CONSTRAINT") then
    discard ident
    expect ["TO"]
    discard ident
  else if ← keyword "TO" then discard name
  else
    discard (keyword "COLUMN")
    discard ident
    expect ["TO"]
    discard ident

/-- What a table loses. -/
def removal : Reader Unit := do
  if ← keyword "CONSTRAINT" then
    discard (phrase ["IF", "EXISTS"])
    discard ident
    dropBehavior
  else if ← onlyIf (phrase ["PRIMARY", "KEY"]) isMySqlOrGeneric then return
  else
    discard (keyword "COLUMN")
    discard (phrase ["IF", "EXISTS"])
    discard ident
    dropBehavior

/-- A new definition of a column, after its name. -/
def newColumn (n : Nested) : Reader Unit := do
  discard typeName
  discard (many (Definition.columnOption? n))
  columnPlace

/-- What changes in a column. -/
def columnChange (n : Nested) : Reader Unit := do
  let isPostgres ← isAnyOf [.postgres]
  discard (keyword "COLUMN")
  discard ident
  if ← phrase ["SET", "NOT", "NULL"] then return
  if ← phrase ["DROP", "NOT", "NULL"] then return
  if ← phrase ["SET", "DEFAULT"] then
    discard n.any
    return
  if ← phrase ["DROP", "DEFAULT"] then return
  let isType ←
    if ← phrase ["SET", "DATA", "TYPE"] then pure true
    else onlyIf (pure isPostgres) (keyword "TYPE")
  if isType then
    discard typeName
    if isPostgres then discard (clause ["USING"] n.any)
    return
  expect ["ADD", "GENERATED"]
  if !(← keyword "ALWAYS") then discard (phrase ["BY", "DEFAULT"])
  expect ["AS", "IDENTITY"]
  if ← peekSymbol "(" then inParens Definition.sequenceOptions

/-- A switch for rules, triggers or row security, after `ENABLE` or `DISABLE`. -/
def switch (enabled : Bool) : Reader Unit := do
  if ← phrase ["ROW", "LEVEL", "SECURITY"] then return
  if enabled then discard (oneOf? ["ALWAYS", "REPLICA"])
  discard (expectOneOf ["RULE", "TRIGGER"])
  discard ident

/-- A change of a table, and the constraint that it adds, if any. -/
def tableChange (n : Nested) : Reader (Option TableConstraint) := do
  let change ← oneOf? ["ADD", "RENAME", "DISABLE", "ENABLE", "DROP", "CHANGE", "MODIFY", "ALTER",
    "SWAP"]
  match change with
  | some "ADD" => addition n
  | some "RENAME" => do newNames; return none
  | some "DISABLE" => do switch false; return none
  | some "ENABLE" => do switch true; return none
  | some "DROP" => do removal; return none
  | some "CHANGE" => do
    discard (keyword "COLUMN")
    discard ident
    discard ident
    newColumn n
    return none
  | some "MODIFY" => do
    discard (keyword "COLUMN")
    discard ident
    newColumn n
    return none
  | some "ALTER" => do columnChange n; return none
  | some _ => do
    expect ["WITH"]
    discard name
    return none
  | none =>
    if ← onlyIf isPostgresOrGeneric (phrase ["OWNER", "TO"]) then
      discard ident
      return none
    if (← peekKeyword) != "SET" then reject "a change of the table"
    Definition.options n ["SET", "TBLPROPERTIES"]
    return none

/-- The changes of a table, after the keywords: its name and the constraints they add. -/
def table (n : Nested) : Reader (ObjectName × List TableConstraint) := do
  discard (phrase ["IF", "EXISTS"])
  discard (keyword "ONLY")
  let label ← name
  discard (clause ["ON", "CLUSTER"] identText)
  let changes ← commaSeparated (tableChange n)
  return (label, changes.filterMap id)

/-- A new name of an index, after the keywords. -/
def index : Reader Unit := do
  discard name
  expect ["RENAME", "TO"]
  discard name

/-- A new query of a view, after the keywords. -/
def view (n : Nested) : Reader Unit := do
  discard name
  discard columnList?
  Definition.options n ["WITH"]
  expect ["AS"]
  discard n.query

/-- Objects to drop, after the keyword. -/
def drop : Reader Unit := do
  if ← isMySqlOrGeneric then discard (keyword "TEMPORARY")
  let kind ← expectOneOf ["TABLE", "VIEW", "INDEX", "ROLE", "SCHEMA", "DATABASE", "SEQUENCE",
    "STAGE", "TYPE", "FUNCTION", "PROCEDURE", "TRIGGER"]
  match kind with
  | "TRIGGER" => do
    if ← isAnyOf [.mySql] then reject "an object type after DROP"
    discard (phrase ["IF", "EXISTS"])
    discard name
    expect ["ON"]
    discard name
    dropBehavior
  | "FUNCTION" | "PROCEDURE" => do
    discard (phrase ["IF", "EXISTS"])
    discard <| commaSeparated do
      discard name
      if ← peekSymbol "(" then discard (inParens (commaSeparatedUntil ")" typeName))
    dropBehavior
  | _ => do
    discard (phrase ["IF", "EXISTS"])
    discard (commaSeparated name)
    dropBehavior
    discard (keyword "PURGE")

/-! ### Rows -/

/-- A value for a column, or values for several ones. -/
def assignment (n : Nested) : Reader Unit := do
  if ← peekSymbol "(" then discard (inParens (commaSeparated name)) else discard name
  expectSymbol "="
  discard n.any

/-- Values for columns, between commas. -/
def assignments (n : Nested) : Reader Unit := discard (commaSeparated (assignment n))

/-- What becomes of a row that violates a constraint, if it is said. -/
def conflictChoice : Reader Unit := do
  if (← peekKeyword) == "OR" then
    skip
    discard (expectOneOf ["REPLACE", "ROLLBACK", "ABORT", "FAIL", "IGNORE"])
  else discard (keyword "REPLACE")

/-- The clause that says what to return of the changed rows, if there is one. -/
def returning (n : Nested) : Reader Unit :=
  discard (clause ["RETURNING"] (return listed (← commaSeparated (Query.selectItem n))))

/-- What happens in place of inserting a row that is there already, if it is said. -/
def conflictAction (n : Nested) : Reader Unit := do
  if ← phrase ["ON", "CONFLICT"] then
    if ← phrase ["ON", "CONSTRAINT"] then discard name else discard columnList?
    expect ["DO"]
    if !(← keyword "NOTHING") then
      expect ["UPDATE", "SET"]
      assignments n
      discard (clause ["WHERE"] n.any)
  else if ← keyword "ON" then
    expect ["DUPLICATE", "KEY", "UPDATE"]
    assignments n

/-- Rows to insert, after the keyword. -/
def insert (n : Nested) : Reader Unit := do
  conflictChoice
  if ← isMySqlOrGeneric then
    discard (oneOf? ["LOW_PRIORITY", "DELAYED", "HIGH_PRIORITY"])
    discard (keyword "IGNORE")
  discard (keyword "OVERWRITE")
  discard (keyword "INTO")
  discard (keyword "TABLE")
  discard name
  if ← isAnyOf [.postgres] then discard (clause ["AS"] identText)
  if !(← phrase ["DEFAULT", "VALUES"]) then
    -- A parenthesis opens the columns, unless a selection follows it.
    let isQuery : Bool := match ← get with
      | t :: u :: _ => t == .symbol "(" && u.isKeyword "SELECT"
      | _ => false
    if !isQuery && (← peekSymbol "(") then
      let item : Reader Ident := ident
      if ← isAnyOf [.mySql] then discard (inParens (commaSeparatedUntil ")" item))
      else discard columnList
    if ← keyword "PARTITION" then discard (inParens n.anyListed)
    if ← onlyIf (isAnyOf [.mySql]) (keyword "SET") then assignments n else discard n.query
  if ← onlyIf isMySqlOrGeneric (keyword "AS") then
    discard name
    discard columnList?
  conflictAction n
  returning n

/-- Rows to change, after the keyword. -/
def update (n : Nested) : Reader Unit := do
  conflictChoice
  discard (Query.joinedSource n)
  expect ["SET"]
  assignments n
  if ← onlyIf isPostgresOrGeneric (keyword "FROM") then discard (Query.joinedSource n)
  discard (clause ["WHERE"] n.any)
  returning n

/-- Rows to delete, after the keyword. -/
def delete (n : Nested) : Reader Unit := do
  let sources : Reader Unit := discard (commaSeparated (Query.joinedSource n))
  if !(← keyword "FROM") then
    if !(← isAnyOf [.generic]) then
      discard (commaSeparated name)
      expect ["FROM"]
  sources
  if ← keyword "USING" then sources
  discard (clause ["WHERE"] n.any)
  returning n
  discard (clause ["ORDER", "BY"] (Expression.orderItems n))
  if ← keyword "LIMIT" then
    if !(← keyword "ALL") then discard n.any

/-- Tables to empty, after the keyword. -/
def truncate (n : Nested) : Reader Unit := do
  discard (keyword "TABLE")
  discard (keyword "ONLY")
  discard (commaSeparated name)
  if ← keyword "PARTITION" then discard (inParens n.anyListed)
  if ← isPostgresOrGeneric then
    if (← oneOf? ["RESTART", "CONTINUE"]).isSome then expect ["IDENTITY"]
    dropBehavior

end Change

end EntityDiagram.Statement
