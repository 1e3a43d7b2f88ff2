import EntityDiagram.Statement.Change

/-!
# `EntityDiagram.Statement.Grammar`: the strict grammar of scripts

`statements` reads a script as statements between semicolons, or fails as a whole. A script may
nest statements, queries and expressions fifty levels deep.

Between statements one or more semicolons stand. What a statement is, is told by its first words,
and the family of dialects in which a script is read decides about single rules.
-/

set_option autoImplicit false

namespace EntityDiagram.Statement

open Reader

namespace Grammar

/-! ### Definitions of other objects -/

/-- A new schema, after the keyword. -/
def schema : Reader Unit := do
  discard (phrase ["IF", "NOT", "EXISTS"])
  if ← keyword "AUTHORIZATION" then discard ident
  else
    discard name
    discard (clause ["AUTHORIZATION"] identText)

/-- A new database, after the keyword. -/
def database : Reader Unit := do
  discard (phrase ["IF", "NOT", "EXISTS"])
  discard name
  discard <| many do
    if (← oneOf? ["LOCATION", "MANAGEDLOCATION"]).isSome then
      return some (← TypeName.literalString)
    else return none

/-- A new extension, after the keyword. -/
def extension : Reader Unit := do
  discard (phrase ["IF", "NOT", "EXISTS"])
  discard ident
  if ← keyword "WITH" then
    discard (clause ["SCHEMA"] identText)
    discard (clause ["VERSION"] identText)
    discard (keyword "CASCADE")

/-- A new sequence, after the keyword. -/
def sequence : Reader Unit := do
  discard (phrase ["IF", "NOT", "EXISTS"])
  discard name
  discard (clause ["AS"] typeName)
  Definition.sequenceOptions
  if ← phrase ["OWNED", "BY"] then discard name

/-- A new type, after the keyword: an enumeration, which only PostgreSQL knows, or a record, whose
last field a comma may follow. -/
def type : Reader Unit := do
  discard name
  expect ["AS"]
  if ← onlyIf (isAnyOf [.postgres]) (keyword "ENUM") then
    discard (inParens (commaSeparatedUntil ")" ident))
  else if ← symbol "(" then
    let field : Reader (Option Unit) := do
      if ← peekSymbol ")" then return none
      discard ident
      discard typeName
      discard (clause ["COLLATE"] nameText)
      if !(← peekSymbol ")") then expectSymbol ","
      return some ()
    discard (many field)
    expectSymbol ")"

/-- A new trigger, after the keyword; it executes a function. -/
def trigger (n : Nested) : Reader Unit := do
  discard name
  match ← expectOneOf ["BEFORE", "AFTER", "INSTEAD"] with
  | "INSTEAD" => expect ["OF"]
  | _ => pure ()
  let event : Reader Unit := do
    if (← expectOneOf ["INSERT", "UPDATE", "DELETE", "TRUNCATE"]) == "UPDATE" then
      discard (clause ["OF"] (return listed ((← commaSeparated ident).map Ident.text)))
  event
  discard <| many do
    if ← keyword "OR" then
      event
      return some ()
    else return none
  expect ["ON"]
  discard name
  discard (clause ["FROM"] nameText)
  Definition.checkingTime
  expect ["FOR"]
  discard (keyword "EACH")
  discard (expectOneOf ["ROW", "STATEMENT"])
  discard (clause ["WHEN"] n.any)
  expect ["EXECUTE"]
  discard (expectOneOf ["FUNCTION", "PROCEDURE"])
  discard name
  if ← peekSymbol "(" then discard (inParens (commaSeparatedUntil ")" typeName))

/-- A new object, after `CREATE`. -/
def creation (n : Nested) : Reader Statement := do
  let replaces ← phrase ["OR", "REPLACE"]
  discard (phrase ["OR", "ALTER"])
  discard (keyword "LOCAL")
  discard (keyword "GLOBAL")
  discard (keyword "TRANSIENT")
  discard (oneOf? ["TEMP", "TEMPORARY"])
  if ← keyword "TABLE" then return .createTable (← Definition.table n)
  if (← peekKeyword) == "MATERIALIZED" || (← peekKeyword) == "VIEW" then
    discard (keyword "MATERIALIZED")
    expect ["VIEW"]
    let (label, query) ← Definition.view n
    return .createView label query
  if ← keyword "EXTERNAL" then
    expect ["TABLE"]
    return .createTable (← Definition.externalTable n)
  let isTrigger ← if ← keyword "TRIGGER" then pure true else phrase ["CONSTRAINT", "TRIGGER"]
  if isTrigger then
    trigger n
    return .other
  if replaces then reject "TABLE or VIEW after CREATE OR REPLACE"
  if ← keyword "INDEX" then return .createIndex (← Definition.index n false)
  if ← phrase ["UNIQUE", "INDEX"] then return .createIndex (← Definition.index n true)
  match ← expectOneOf ["EXTENSION", "SCHEMA", "DATABASE", "SEQUENCE", "TYPE"] with
  | "EXTENSION" => extension
  | "SCHEMA" => schema
  | "DATABASE" => database
  | "SEQUENCE" => sequence
  | _ => type
  return .other

/-- A changed object, after `ALTER`. -/
def alteration (n : Nested) : Reader Statement := do
  match ← expectOneOf ["TABLE", "VIEW", "INDEX"] with
  | "TABLE" => do
    let (label, added) ← Change.table n
    return .alterTable label added
  | "VIEW" => do Change.view n; return .other
  | _ => do Change.index; return .other

/-! ### Sessions -/

/-- Modes of a transaction, with or without commas between them. -/
def transactionModes : Reader Unit := do
  let mode : Reader Bool := do
    if ← phrase ["ISOLATION", "LEVEL"] then
      match ← expectOneOf ["READ", "REPEATABLE", "SERIALIZABLE", "SNAPSHOT"] with
      | "READ" => discard (expectOneOf ["UNCOMMITTED", "COMMITTED"])
      | "REPEATABLE" => expect ["READ"]
      | _ => pure ()
      return true
    if ← phrase ["READ", "ONLY"] then return true
    phrase ["READ", "WRITE"]
  let isRequired ← iterate (fun isRequired => do
    if ← mode then return some (← symbol ",")
    if isRequired then reject "a transaction mode"
    return none) false
  if isRequired then reject "a transaction mode"

/-- The end of a transaction, after the keyword. -/
def chaining : Reader Unit := do
  discard (oneOf? ["TRANSACTION", "WORK"])
  if ← keyword "AND" then
    discard (keyword "NO")
    expect ["CHAIN"]

/-- A value that is given to a variable. -/
def settingValue (n : Nested) : Reader Unit := do
  let k ← peekKeyword
  if k == "SELECT" || k == "WITH" then discard n.query else discard n.any

/-- A setting of a session, after the keyword. -/
def setting (n : Nested) : Reader Unit := do
  let scope ← oneOf? ["SESSION", "LOCAL"]
  let role ← attempt do
    expect ["ROLE"]
    identText
  if role.isSome then return
  let isTimeZone ← phrase ["TIME", "ZONE"]
  let isList ← if isTimeZone then pure false else onlyIf (isAnyOf [.generic]) (peekSymbol "(")
  let target ←
    if isTimeZone then pure "TIMEZONE"
    else if isList then pure (listed ((← columnList).map Ident.text))
    else nameText
  if Text.eqIgnoreCase target "NAMES" && (← isMySqlOrGeneric) then
    if !(← keyword "DEFAULT") then
      discard TypeName.literalString
      if ← keyword "COLLATE" then discard TypeName.literalString
    return
  if ← (do if ← symbol "=" then return true else keyword "TO") then
    let values : Reader Unit := discard (commaSeparated (settingValue n))
    if isList then inParens values else values
  else if isList then reject "values of the variables"
  else if Text.eqIgnoreCase target "TIMEZONE" then discard n.any
  else if target == "CHARACTERISTICS" then
    expect ["AS", "TRANSACTION"]
    transactionModes
  else if target == "TRANSACTION" && scope.isNone then
    if ← keyword "SNAPSHOT" then discard n.single else transactionModes
  else reject "equals sign or TO"

/-- A comment on an object, after the keyword. -/
def comment : Reader Unit := do
  discard (phrase ["IF", "EXISTS"])
  expect ["ON"]
  discard (expectOneOf ["COLUMN", "TABLE", "EXTENSION", "SCHEMA", "DATABASE", "USER", "ROLE"])
  discard name
  expect ["IS"]
  if !(← keyword "NULL") then discard TypeName.literalString

/-- A parameter of the database, after the keyword. -/
def pragma : Reader Unit := do
  let value : Reader Unit := do
    match ← peek with
    | some (.number _) => skip
    | some (.text ..) => skip
    | _ => reject "number or string"
  discard name
  if ← peekSymbol "(" then inParens value
  else if ← symbol "=" then value

/-- Tables to lock, after the keywords. -/
def tableLocks : Reader Unit := discard <| commaSeparated do
  discard ident
  discard (Query.aliasName? ["READ", "WRITE", "LOW_PRIORITY"])
  match ← expectOneOf ["READ", "WRITE", "LOW_PRIORITY"] with
  | "READ" => discard (keyword "LOCAL")
  | "LOW_PRIORITY" => expect ["WRITE"]
  | _ => pure ()

/-! ### Statements -/

/-- The rule of a statement without effect on the schema that starts with this keyword. -/
def other? (n : Nested) (d : Sql.Dialect) (k : String) : Option (Reader Unit) :=
  match k with
  | "DROP" => some Change.drop
  | "INSERT" => some (Change.insert n)
  | "REPLACE" => if d == .postgres then none else some (Change.insert n)
  | "UPDATE" => some (Change.update n)
  | "DELETE" => some (Change.delete n)
  | "TRUNCATE" => some (Change.truncate n)
  | "SET" => some (setting n)
  | "USE" => some (discard name)
  | "COMMENT" => if d == .mySql then none else some comment
  | "PRAGMA" => some pragma
  | "CALL" => some do
    let function ← nameText
    if ← peekSymbol "(" then discard (Expression.call n function)
  | "START" => some do
    expect ["TRANSACTION"]
    transactionModes
  | "BEGIN" => some do
    if d == .generic then discard (oneOf? ["DEFERRED", "IMMEDIATE", "EXCLUSIVE"])
    discard (oneOf? ["TRANSACTION", "WORK"])
    transactionModes
  | "COMMIT" | "END" => some chaining
  | "ROLLBACK" => some do
    chaining
    if ← keyword "TO" then
      discard (keyword "SAVEPOINT")
      discard ident
  | "SAVEPOINT" => some (discard ident)
  | "RELEASE" => some do
    discard (keyword "SAVEPOINT")
    discard ident
  | _ => none

/-- A statement that explains no other. -/
def plainStatement (n : Nested) : Reader Statement := do
  let d ← read
  if ← onlyIf (pure (d == .mySql)) (phrase ["LOCK", "TABLES"]) then
    tableLocks
    return .other
  if ← onlyIf (pure (d == .mySql)) (phrase ["UNLOCK", "TABLES"]) then return .other
  let k ← peekKeyword
  if ["SELECT", "WITH", "VALUES"].contains k || (← peekSymbol "(") then
    discard n.query
    return .other
  else if ← keyword "CREATE" then creation n
  else if ← keyword "ALTER" then alteration n
  else match other? n d k with
    | some rule => do
      skip
      rule
      return .other
    | none => reject "an SQL statement"

/-- A statement. One that explains another, or a table, has no effect; `inner` reads what stands
inside the explained one. -/
def statement (n inner : Nested) : Reader Statement := do
  match ← oneOf? ["EXPLAIN", "DESCRIBE", "DESC"] with
  | none => plainStatement n
  | some _ => do
    discard (keyword "ANALYZE")
    discard (keyword "VERBOSE")
    -- What is explained is a statement or, failing that, a table.
    match ← attempt (plainStatement inner) with
    | some _ => return .other
    | none => do
      if ["EXPLAIN", "DESCRIBE", "DESC"].contains (← peekKeyword) then
        reject "no explanation of an explanation"
      discard (oneOf? ["EXTENDED", "FORMATTED"])
      discard name
      return .other

/-- Whether reading stops here: at the end, or at a word `END` after a statement. -/
def isEnd (afterStatement : Bool) : Reader Bool := do
  match ← peek with
  | none => return true
  | some t => return afterStatement && t.isKeyword "END"

/-- The statements up to the end. Between two of them there is a semicolon or more. -/
def script : Reader (List Statement) := do
  let round (state : Bool × List Statement) : Reader (Option (Bool × List Statement)) := do
    -- The flag says whether a statement has been read since the last semicolon.
    if ← symbol ";" then return some (false, state.2)
    if ← isEnd state.1 then return none
    if state.1 then reject "end of statement"
    return some (true, (← statement (nested 49) (nested 48)) :: state.2)
  return (← iterate round (false, [])).2.reverse

end Grammar

/-- The statements of a script in a dialect, or why it is rejected. -/
def read (d : Sql.Dialect) (sql : String) : Except String (List Statement) :=
  let dialect := if d == .auto then .generic else d
  match Token.tokens dialect sql with
  | .error reason => .error reason
  | .ok tokens =>
    match Grammar.script dialect tokens with
    | .ok (statements, _) => .ok statements
    | .error failure => .error failure.message

end EntityDiagram.Statement
