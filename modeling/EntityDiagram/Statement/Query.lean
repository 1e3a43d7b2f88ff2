import EntityDiagram.Statement.Expression

/-!
# `EntityDiagram.Statement.Query`: queries

A query is a body with optional clauses for its order and extent; a body is a selection, rows of
values or a query in parentheses, or several of these under set operators. The readers yield
queries in normal form. An alias is always set off by `AS` there, and the words that a join may do
without are left out.

Queries matter to a schema as the definitions of views, and as operands in expressions. Nothing is
resolved in them: names of tables and columns are taken as they are, in the spelling of the script.
-/

set_option autoImplicit false

namespace EntityDiagram.Statement

open Reader

namespace Query

/-! ### Aliases -/

/-- Keywords that are no alias of a column where `AS` is left out. -/
def noColumnAlias : List String :=
  ["WITH", "EXPLAIN", "ANALYZE", "SELECT", "WHERE", "GROUP", "SORT", "HAVING", "ORDER", "TOP",
   "LATERAL", "VIEW", "LIMIT", "OFFSET", "FETCH", "UNION", "EXCEPT", "INTERSECT", "CLUSTER",
   "DISTRIBUTE", "RETURNING", "FROM", "INTO", "END"]

/-- Keywords that are no alias of a table where `AS` is left out. -/
def noTableAlias : List String :=
  ["WITH", "EXPLAIN", "ANALYZE", "SELECT", "WHERE", "GROUP", "SORT", "HAVING", "ORDER", "PIVOT",
   "UNPIVOT", "TOP", "LATERAL", "VIEW", "LIMIT", "OFFSET", "FETCH", "UNION", "EXCEPT",
   "INTERSECT", "ON", "JOIN", "INNER", "CROSS", "FULL", "LEFT", "RIGHT", "NATURAL", "USING",
   "CLUSTER", "DISTRIBUTE", "GLOBAL", "ANTI", "SEMI", "RETURNING", "ASOF", "MATCH_CONDITION",
   "OUTER", "SET", "QUALIFY", "WINDOW", "END", "FOR", "PARTITION", "PREWHERE", "SETTINGS",
   "FORMAT", "START", "CONNECT", "MATCH_RECOGNIZE"]

/-- An alias, if there is one: any name after `AS`, or else a name that is none of the stops. -/
def aliasName? (stops : List String) : Reader (Option String) := do
  if ← keyword "AS" then return some (← identText)
  match ← peek with
  | some (.word w) => if stops.contains w.keyword then return none else return some (← identText)
  | some (.text ..) => return some (← identText)
  | _ => return none

/-- The alias of a column, if there is one. -/
def columnAlias : Reader (List String) := do
  match ← aliasName? noColumnAlias with
  | some name => return ["AS", name]
  | none => return []

/-- The names of columns after an alias, in parentheses, each with an optional type. -/
def aliasColumns : Reader (List String) := do
  if ← peekSymbol "(" then
    let columns ← inParens (commaSeparated do
      let name ← identText
      return spaced [name, (← attempt typeName).getD ""])
    return ["(" ++ listed columns ++ ")"]
  else return []

/-- The alias of a table, if there is one. -/
def tableAlias : Reader (List String) := do
  match ← aliasName? noTableAlias with
  | some name => return "AS" :: name :: (← aliasColumns)
  | none => return []

/-! ### Rows of values -/

/-- Rows of values between commas. Only MySQL allows an empty row. -/
def rows (n : Nested) : Reader String := do
  let allowsEmpty ← isAnyOf [.mySql]
  let row : Reader String := do
    let start ← if ← keyword "ROW" then pure "ROW" else pure ""
    let values ← inParens (if allowsEmpty then commaSeparatedUntil ")" n.any
      else commaSeparated n.any)
    return start ++ "(" ++ listed values ++ ")"
  return listed (← commaSeparated row)

/-! ### Tables to select from -/

/-- What a source of rows is. -/
inductive SourceKind where
  /-- A table, a function or a query. -/
  | single
  /-- A join. -/
  | join
  /-- A join in parentheses. -/
  | nestedJoin
deriving DecidableEq, Repr

/-- A source of rows. -/
structure Source where
  /-- The source in normal form. -/
  text : String
  kind : SourceKind := .single
  hasAlias : Bool := false

/-- A source with its optional alias. -/
def Source.withAlias (text : String) (kind : SourceKind := .single) : Reader Source := do
  let name ← tableAlias
  return { text := spaced (text :: name), kind, hasAlias := !name.isEmpty }

/-- A query in parentheses as a source. -/
def derived (n : Nested) (lateral : String) : Reader Source := do
  let query ← inParens n.query
  Source.withAlias (spaced [lateral, "(" ++ query ++ ")"])

/-- The arguments of a function as a source. -/
def sourceArguments (n : Nested) : Reader String := do
  let items ← inParens (commaSeparatedUntil ")" (Expression.argument n))
  return "(" ++ listed items ++ ")"

/-- The items of arrays as a source, after the keyword. -/
def unnested (n : Nested) : Reader Source := do
  let arrays ← inParens n.anyListed
  let ordinality ← words ["WITH", "ORDINALITY"]
  Source.withAlias (spaced (("UNNEST(" ++ arrays ++ ")") :: ordinality))

/-- A table or function by its name. -/
def namedSource (n : Nested) : Reader Source := do
  let name ← nameText
  let partitions ←
    if ← onlyIf isMySqlOrGeneric (keyword "PARTITION") then do
      pure ["PARTITION", "(" ++ listed ((← columnList).map Ident.text) ++ ")"]
    else pure []
  let arguments ← if ← peekSymbol "(" then sourceArguments n else pure ""
  let ordinality ← words ["WITH", "ORDINALITY"]
  let source ← Source.withAlias (spaced ([name ++ arguments] ++ partitions ++ ordinality))
  -- `WITH` may belong to what follows the table as well.
  let hints ← attempt do
    expect ["WITH"]
    inParens n.anyListed
  match hints with
  | some items => return { source with text := spaced [source.text, "WITH (" ++ items ++ ")"] }
  | none => return source

/-- What follows the table of a join, if the join is not natural. -/
def joinCondition (n : Nested) : Reader (List String) := do
  if ← keyword "USING" then
    return ["USING(" ++ listed ((← columnList).map Ident.text) ++ ")"]
  clause ["ON"] n.any

/-- The words of a join with a condition in normal form, if one is at the front. -/
def joinWords? : Reader (Option (List String)) := do
  match ← oneOf? ["INNER", "JOIN", "LEFT", "RIGHT", "FULL", "SEMI", "ANTI"] with
  | none => return none
  | some "JOIN" => return some ["JOIN"]
  -- The normal form leaves out `INNER` and, below, `OUTER`.
  | some "INNER" => do expect ["JOIN"]; return some ["JOIN"]
  | some "FULL" => do
    discard (keyword "OUTER")
    expect ["JOIN"]
    return some ["FULL", "JOIN"]
  | some side => do
    if side == "LEFT" || side == "RIGHT" then
      match ← expectOneOf ["OUTER", "SEMI", "ANTI", "JOIN"] with
      | "JOIN" => return some [side, "JOIN"]
      | "OUTER" => do expect ["JOIN"]; return some [side, "JOIN"]
      | kind => do expect ["JOIN"]; return some [side, kind, "JOIN"]
    else
      expect ["JOIN"]
      return some [side, "JOIN"]

/-- One more join with a source, if there is one. -/
def join? (n : Nested) (source : Reader Source) : Reader (Option String) := do
  if ← keyword "CROSS" then
    let kind ← expectOneOf ["JOIN", "APPLY"]
    return some (spaced ["CROSS", kind, (← source).text])
  else if ← keyword "OUTER" then
    expect ["APPLY"]
    return some (spaced ["OUTER", "APPLY", (← source).text])
  else
    let natural ← words ["NATURAL"]
    match ← joinWords? with
    | some join => do
      let right ← source
      let condition ← if natural.isEmpty then joinCondition n else pure []
      return some (spaced (natural ++ join ++ [right.text] ++ condition))
    | none => if natural.isEmpty then return none else reject "a join type after NATURAL"

/-- A source and what is joined with it. -/
def withJoins (n : Nested) (source : Reader Source) : Reader Source := do
  let first ← source
  let joins ← many (join? n source)
  if joins.isEmpty then return first
  return { text := spaced (first.text :: joins), kind := .join }

/-- Sources in parentheses, which are a join or, in the generic dialect, a single source. -/
def nestedSource (n : Nested) (source : Reader Source) : Reader Source := do
  expectSymbol "("
  let inner ← withJoins n source
  if inner.kind != .single then
    expectSymbol ")"
    Source.withAlias ("(" ++ inner.text ++ ")") .nestedJoin
  else if ← isAnyOf [.generic] then
    expectSymbol ")"
    let outer ← Source.withAlias inner.text
    if outer.hasAlias && inner.hasAlias then reject "one alias only"
    return { outer with hasAlias := outer.hasAlias || inner.hasAlias }
  else reject "a joined table"

/-- A source with at most `depth` pairs of parentheses around nested joins. -/
def sourceUpTo (n : Nested) : (depth : Nat) → Reader Source
  | 0 => reject "a table"
  | depth + 1 => do
    if ← keyword "LATERAL" then
      if ← peekSymbol "(" then derived n "LATERAL"
      else
        let name ← nameText
        Source.withAlias (spaced ["LATERAL", name ++ (← sourceArguments n)])
    else if ← keyword "TABLE" then
      Source.withAlias ("TABLE(" ++ (← inParens n.any) ++ ")")
    else if ← peekSymbol "(" then
      -- The parenthesis may open a query or a join; only trying tells which.
      match ← attempt (derived n "") with
      | some source => return source
      | none => nestedSource n (sourceUpTo n depth)
    else if ← onlyIf isPostgresOrGeneric (keyword "UNNEST") then unnested n
    else namedSource n

/-- A source and what is joined with it. Each pair of parentheses takes a token, so their number
bounds the depth. -/
def joinedSource (n : Nested) : Reader String := do
  let depth := (← get).length
  return (← withJoins n (sourceUpTo n depth)).text

/-! ### Selections -/

/-- An item to select: a wildcard, or an expression with an optional alias. -/
def selectItem (n : Nested) : Reader String := do
  match ← Expression.wildcard? with
  | some text => return text
  | none =>
    let value ← n.any
    -- A selection without items would take `FROM` for a column.
    if Text.lowerText value == "from" then reject "an expression"
    return spaced (value :: (← columnAlias))

/-- Whether a selection leaves duplicates out, and by which expressions they are told. -/
def distinctness (n : Nested) : Reader (List String) := do
  let all ← keyword "ALL"
  if ← keyword "DISTINCT" then
    if all then reject "only one of ALL and DISTINCT"
    if ← keyword "ON" then
      return ["DISTINCT", "ON", "(" ++ listed (← inParens (commaSeparatedUntil ")" n.any)) ++ ")"]
    return ["DISTINCT"]
  else return []

/-- A table that the rows are put into. -/
def intoTable : Reader (List String) := do
  if ← keyword "INTO" then
    let temporary ← oneOf? ["TEMP", "TEMPORARY"]
    let unlogged ← words ["UNLOGGED"]
    let table ← words ["TABLE"]
    return ["INTO", if temporary.isSome then "TEMPORARY" else ""] ++ unlogged ++ table
      ++ [← nameText]
  else return []

/-- Sets of expressions to group by, in parentheses. -/
def groupingSets (n : Nested) (keywords : List String) : Reader String := do
  let set : Reader String := do
    if ← peekSymbol "(" then
      return "(" ++ listed (← inParens (commaSeparatedUntil ")" n.any)) ++ ")"
    else n.any
  let sets ← inParens (commaSeparated set)
  return spaced (keywords ++ ["(" ++ listed sets ++ ")"])

/-- An expression to group by. MySQL knows no sets of them. -/
def groupItem (n : Nested) : Reader String := do
  if ← isAnyOf [.mySql] then n.any
  else if ← phrase ["GROUPING", "SETS"] then groupingSets n ["GROUPING", "SETS"]
  else match ← oneOf? ["CUBE", "ROLLUP"] with
    | some k => groupingSets n [k]
    | none => do
      match ← get with
      | t :: u :: _ =>
        if t == .symbol "(" && u == .symbol ")" then do skip; skip; return "()"
        else n.any
      | _ => n.any

/-- The clause that groups rows. -/
def grouping (n : Nested) : Reader (List String) := do
  let groups ← clause ["GROUP", "BY"] do
    if ← keyword "ALL" then return "ALL" else return listed (← commaSeparated (groupItem n))
  let modifiers ←
    if groups.isEmpty then pure []
    else if ← isMySqlOrGeneric then many do
      if ← keyword "WITH" then
        return some ["WITH", ← expectOneOf ["ROLLUP", "CUBE", "TOTALS"]]
      else return none
    else pure []
  return groups ++ modifiers.flatten

/-- A window with its name. -/
def namedWindow (n : Nested) : Reader String := do
  let name ← identText
  expect ["AS"]
  return spaced [name, "AS", ← Expression.window n]

/-- A selection, after its keyword. -/
def selection (n : Nested) : Reader String := do
  let distinct ← distinctness n
  let items ← commaSeparated (selectItem n)
  let into ← intoTable
  let sources ← clause ["FROM"] (return listed (← commaSeparated (joinedSource n)))
  let condition ← clause ["WHERE"] n.any
  let groups ← grouping n
  let having ← clause ["HAVING"] n.any
  let windows ← clause ["WINDOW"] (return listed (← commaSeparated (namedWindow n)))
  let qualify ← clause ["QUALIFY"] n.any
  return spaced (["SELECT"] ++ distinct ++ [listed items] ++ into ++ sources ++ condition ++ groups
    ++ having ++ windows ++ qualify)

/-! ### Bodies and whole queries -/

/-- An operand of set operators. -/
def term (n : Nested) : Reader String := do
  if ← keyword "SELECT" then selection n
  else if ← keyword "VALUES" then return "VALUES " ++ (← rows n)
  else if ← keyword "TABLE" then return "TABLE " ++ (← nameText)
  else if ← peekSymbol "(" then return "(" ++ (← inParens n.query) ++ ")"
  else reject "SELECT, VALUES, or a subquery in the query body"

/-- The words of a set operator, if one is at the front. -/
def setOperator? : Reader (Option (List String)) := do
  match ← oneOf? ["UNION", "EXCEPT", "INTERSECT"] with
  | none => return none
  | some k => do
    let quantifier ← oneOf? ["ALL", "DISTINCT"]
    let byName ← words ["BY", "NAME"]
    return some ([k] ++ quantifier.toList ++ byName)

/-- Operands between set operators. -/
def body (n : Nested) : Reader String := do
  let first ← term n
  let more ← many do
    match ← setOperator? with
    | some operator => return some (spaced (operator ++ [← term n]))
    | none => return none
  return spaced (first :: more)

/-- A query under a name that the main query uses. -/
def commonTable (n : Nested) : Reader String := do
  let name ← identText
  let columns ← aliasColumns
  expect ["AS"]
  let materialized ←
    if ← isAnyOf [.postgres] then do
      if ← keyword "MATERIALIZED" then pure ["MATERIALIZED"]
      else words ["NOT", "MATERIALIZED"]
    else pure []
  let query ← inParens n.query
  let source ← clause ["FROM"] identText
  return spaced ([name] ++ columns ++ ["AS"] ++ materialized ++ ["(" ++ query ++ ")"] ++ source)

/-- How many rows are yielded, and how many are skipped before them. -/
structure Extent where
  limit : Option String := none
  offset : Option String := none

/-- One round of reading limits: a limit, an offset, or an offset that a comma turns the limit
before it into. -/
def extentRound (n : Nested) (e : Extent) : Reader Extent := do
  let e ←
    if e.limit.isNone then do
      if ← keyword "LIMIT" then
        if ← keyword "ALL" then pure e else pure { e with limit := some (← n.any) }
      else pure e
    else pure e
  let e ←
    if e.offset.isNone then do
      if ← keyword "OFFSET" then
        let value ← n.any
        let unit ← oneOf? ["ROW", "ROWS"]
        pure { e with offset := some (spaced [value, unit.getD ""]) }
      else pure e
    else pure e
  -- In `LIMIT 5, 10` the first number is the offset.
  if e.limit.isSome && e.offset.isNone then
    if ← onlyIf isMySqlOrGeneric (symbol ",") then
      return { limit := some (← n.any), offset := e.limit }
  return e

/-- The clauses for the extent of a query, with the limit before the offset. -/
def extent (n : Nested) : Reader (List String) := do
  -- Twice, because the clauses come in either order.
  let e ← extentRound n (← extentRound n {})
  let part (word : String) : Option String → List String
    | some value => [word, value]
    | none => []
  return part "LIMIT" e.limit ++ part "OFFSET" e.offset

/-- The clause that fetches the first rows. -/
def fetching (n : Nested) : Reader (List String) := do
  if ← keyword "FETCH" then
    discard (expectOneOf ["FIRST", "NEXT"])
    let amount ←
      if (← oneOf? ["ROW", "ROWS"]).isSome then pure []
      else do
        let quantity ← n.single
        let percent ← words ["PERCENT"]
        discard (expectOneOf ["ROW", "ROWS"])
        pure (quantity :: percent)
    let ties ←
      if ← keyword "ONLY" then pure ["ONLY"]
      else do expect ["WITH", "TIES"]; pure ["WITH", "TIES"]
    return ["FETCH", "FIRST"] ++ amount ++ ["ROWS"] ++ ties
  else return []

/-- A clause that locks rows, if there is one. -/
def locking? : Reader (Option String) := do
  if ← keyword "FOR" then
    let kind ← expectOneOf ["UPDATE", "SHARE"]
    let tables ← clause ["OF"] nameText
    let waiting ← if ← keyword "NOWAIT" then pure ["NOWAIT"] else words ["SKIP", "LOCKED"]
    return some (spaced (["FOR", kind] ++ tables ++ waiting))
  else return none

/-- A query. -/
def query (n : Nested) : Reader String := do
  let common ←
    if ← keyword "WITH" then do
      let recursive ← words ["RECURSIVE"]
      pure (["WITH"] ++ recursive ++ [listed (← commaSeparated (commonTable n))])
    else pure []
  let body ← body n
  let order ← clause ["ORDER", "BY"] (Expression.orderItems n)
  let extent ← extent n
  let fetch ← fetching n
  let locks ← many locking?
  return spaced (common ++ [body] ++ order ++ extent ++ fetch ++ locks)

end Query

/-! ### Nesting -/

/-- The readers of expressions and queries that go `depth` levels deep. -/
def nested : (depth : Nat) → Nested
  | 0 =>
    let tooDeep : Reader String := throw .tooDeep
    { expression := fun _ => tooDeep, query := tooDeep, queryBody := tooDeep }
  | depth + 1 =>
    { expression := Expression.expressionAbove (nested depth)
      query := Query.query (nested depth)
      queryBody := Query.body (nested depth) }

end EntityDiagram.Statement
