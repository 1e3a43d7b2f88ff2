import EntityDiagram.Statement.Token.Lexer
import EntityDiagram.Statement.TypeName

/-!
# `EntityDiagram.Statement.Expression`: expressions

An expression is an operand followed by operators that bind more strongly than what surrounds it.
The reader yields it in normal form, which follows the order of the tokens; how strongly operators
bind decides only which texts are expressions at all.

Expressions and queries contain each other. `Nested` holds the readers of what stands inside, so
that the rules here need not be recursive; the grammar bounds how deep they go.
-/

set_option autoImplicit false

namespace EntityDiagram.Statement

open Reader
open Sql (Dialect)

/-- The readers of what is nested inside a rule. -/
structure Nested where
  /-- An expression whose operators bind more strongly than a precedence. -/
  expression : (precedence : Nat) → Reader String
  /-- A query. -/
  query : Reader String
  /-- A query without clauses for its order and extent. -/
  queryBody : Reader String

/-- Any expression. -/
def Nested.any (n : Nested) : Reader String := n.expression 0

/-- Any expressions between commas. -/
def Nested.anyListed (n : Nested) : Reader String := return listed (← commaSeparated n.any)

/-- An operand without operators after it: no operator binds as strongly as this. -/
def Nested.single (n : Nested) : Reader String := n.expression 1000

/-! ### Precedence -/

/-- How strongly an operator binds. -/
inductive Precedence where
  | or | and | xor | not | is | like | between | comparison | pipe | caret | ampersand | sum
  | product | timeZone | cast | bracket | collate | other
deriving DecidableEq, Repr

/-- The precedence as a number. PostgreSQL ranks operators in its own way. -/
def Precedence.value (d : Dialect) (p : Precedence) : Nat :=
  match d with
  | .postgres => match p with
    | .or => 10 | .and => 20 | .not => 30 | .is => 40 | .comparison => 50 | .like => 60
    | .between => 60 | .other => 70 | .pipe => 70 | .ampersand => 70 | .xor => 75 | .sum => 80
    | .product => 90 | .caret => 100 | .timeZone => 110 | .collate => 120 | .bracket => 130
    | .cast => 140
  -- Outside PostgreSQL a collation is no operator.
  | _ => match p with
    | .or => 5 | .and => 10 | .not => 15 | .other => 16 | .is => 17 | .like => 19 | .between => 20
    | .comparison => 20 | .pipe => 21 | .caret => 22 | .ampersand => 23 | .xor => 24 | .sum => 30
    | .product => 40 | .timeZone => 41 | .cast => 50 | .bracket => 50 | .collate => 0

/-- The precedence of a symbol after an operand; none if it is no operator. -/
def symbolPrecedence? (d : Dialect) (s : String) : Option Precedence :=
  match s with
  | "=" | "<" | "<=" | "<>" | ">" | ">=" | "==" | "<=>" | "~" | "~*" | "!~" | "!~*" | "~~" | "~~*"
  | "!~~" | "!~~*" => some .comparison
  | "|" => some .pipe
  | "&" => some .ampersand
  | "^" => some .caret
  | "+" | "-" => some .sum
  | "*" | "/" | "//" | "%" => some .product
  | "::" => some .cast
  | "[" => some .bracket
  | "#" | "<<" | ">>" => some (if d == .postgres then .other else .caret)
  | "||" => some (if d == .postgres then .other else .product)
  | "!" | "&&" | "^@" => some (if d == .postgres then .other else .cast)
  | "->" | "->>" | "#>" | "#>>" | "@>" | "<@" | "#-" | "@?" | "@@" | "?" | "?|" | "?&" =>
    some .other
  -- The signs of roots stand before an operand only.
  | "|/" | "||/" => none
  | s =>
    match s.toList with
    | c :: _ :: _ => if d == .postgres && Token.isExtensible c then some .other else none
    | _ => none

/-- The precedence of a keyword after an operand, where `next` and `afterNext` are the keywords
that follow. -/
def keywordPrecedence? (d : Dialect) (k next afterNext : String) : Option Precedence :=
  let comparing? : String → Option Precedence
    | "IN" | "BETWEEN" => some .between
    | "LIKE" | "ILIKE" | "RLIKE" | "REGEXP" | "SIMILAR" => some .like
    | _ => none
  match k with
  | "OR" => some .or
  | "AND" => some .and
  | "XOR" => some .xor
  | "IS" => some .is
  | "OPERATOR" => some .between
  | "DIV" => some .product
  | "AT" => if next == "TIME" && afterNext == "ZONE" then some .timeZone else none
  | "NOT" => comparing? next
  | "COLLATE" => if d == .postgres then some .collate else none
  | k => comparing? k

/-- How strongly the operator at the front binds; zero if there is none. -/
def nextPrecedence : Reader Nat := do
  let d ← read
  let precedence? := match ← get with
    | .symbol s :: _ => symbolPrecedence? d s
    | t :: rest =>
      let k (n : Nat) := ((rest[n]?).map Token.keyword).getD ""
      keywordPrecedence? d t.keyword (k 0) (k 1)
    | [] => none
  return (precedence?.map (Precedence.value d)).getD 0

/-- An expression in which only operators that bind more strongly occur. -/
def Nested.above (n : Nested) (p : Precedence) : Reader String := do
  n.expression (p.value (← read))

namespace Expression

/-! ### Parts of expressions -/

/-- The item of a list that orders rows. -/
def orderItem (n : Nested) : Reader String := do
  let value ← n.any
  let direction ← oneOf? ["ASC", "DESC"]
  let nulls ←
    if ← phrase ["NULLS", "FIRST"] then pure "NULLS FIRST"
    else if ← phrase ["NULLS", "LAST"] then pure "NULLS LAST"
    else pure ""
  return spaced [value, direction.getD "", nulls]

/-- The items of a list that orders rows. -/
def orderItems (n : Nested) : Reader String := return listed (← commaSeparated (orderItem n))

/-- The wildcard that the parts of a name lead up to, and the tokens after it. -/
def wildcardFrom? (parts : String) : List Token → Option (String × List Token)
  | dot :: t :: rest =>
    if dot == .symbol "." then
      match t with
      | .word w => wildcardFrom? (parts ++ "." ++ w.ident.text) rest
      | .text '\'' value => wildcardFrom? (parts ++ "." ++ quotedBy '\'' value) rest
      | .symbol s => if s == "*" then some (parts ++ ".*", rest) else none
      | _ => none
    else none
  | _ => none

/-- A wildcard for all columns, if there is one at the front. -/
def wildcard? : Reader (Option String) := do
  let found := match ← get with
    | .symbol s :: rest => if s == "*" then some ("*", rest) else none
    | .word w :: rest => wildcardFrom? w.ident.text rest
    | .text '\'' value :: rest => wildcardFrom? (quotedBy '\'' value) rest
    | _ => none
  match found with
  | some (text, rest) => do set rest; return some text
  | none => return none

/-- A wildcard or an expression. -/
def wildcardOrAny (n : Nested) : Reader String := do
  match ← wildcard? with
  | some text => return text
  | none => n.any

/-- A bound of the frame of a window. -/
def frameBound (n : Nested) : Reader String := do
  if ← phrase ["CURRENT", "ROW"] then return "CURRENT ROW"
  let amount ← if ← keyword "UNBOUNDED" then pure "UNBOUNDED" else n.any
  return spaced [amount, ← expectOneOf ["PRECEDING", "FOLLOWING"]]

/-- The frame of a window. -/
def frame (n : Nested) : Reader String := do
  let units ← expectOneOf ["ROWS", "RANGE", "GROUPS"]
  if ← keyword "BETWEEN" then
    let start ← frameBound n
    expect ["AND"]
    return spaced [units, "BETWEEN", start, "AND", ← frameBound n]
  else return spaced [units, ← frameBound n]

/-- The definition of a window, in parentheses. -/
def window (n : Nested) : Reader String := do
  expectSymbol "("
  let name ← match ← peek with
    | some (.word w) => if isReserved w.keyword then pure "" else identText
    | _ => pure ""
  let partition ← clause ["PARTITION", "BY"] n.anyListed
  let order ← clause ["ORDER", "BY"] (orderItems n)
  let frame ← if ← peekSymbol ")" then pure "" else frame n
  expectSymbol ")"
  return "(" ++ spaced ([name] ++ partition ++ order ++ [frame]) ++ ")"

/-! ### Functions -/

/-- The argument of a function, which may be named. -/
def argument (n : Nested) : Reader String := do
  let named ← attempt do
    let name ← identText
    let operator ←
      if ← symbol "=>" then pure "=>"
      else if ← onlyIf (isAnyOf [.generic]) (symbol ":=") then pure ":="
      else reject "argument operator"
    return spaced [name, operator, ← wildcardOrAny n]
  match named with
  | some text => return text
  | none => wildcardOrAny n

/-- How a function treats nulls, if it is said. -/
def nullTreatment : Reader (List String) := do
  match ← oneOf? ["RESPECT", "IGNORE"] with
  | some k => do expect ["NULLS"]; return [k, "NULLS"]
  | none => return []

/-- The arguments of a function, in parentheses. -/
def arguments (n : Nested) : Reader String := do
  expectSymbol "("
  if ← symbol ")" then return "()"
  let all ← keyword "ALL"
  let distinct ← keyword "DISTINCT"
  if all && distinct then reject "only one of ALL and DISTINCT"
  let quantifier := if all then "ALL" else if distinct then "DISTINCT" else ""
  let items ← commaSeparated (argument n)
  let nulls ← if ← isAnyOf [.generic] then nullTreatment else pure []
  let order ← clause ["ORDER", "BY"] (orderItems n)
  let limit ← clause ["LIMIT"] n.any
  let separator ← if ← isMySqlOrGeneric then clause ["SEPARATOR"] n.single else pure []
  expectSymbol ")"
  return "(" ++ spaced ([quantifier, listed items] ++ nulls ++ order ++ limit ++ separator) ++ ")"

/-- The call of a function whose name has been read. -/
def call (n : Nested) (name : String) : Reader String := do
  let first ← arguments n
  let isCurried ← onlyIf (isAnyOf [.generic]) (peekSymbol "(")
  let second ← if isCurried then arguments n else pure ""
  let group ←
    if ← phrase ["WITHIN", "GROUP"] then do
      let order ← inParens do
        expect ["ORDER", "BY"]
        orderItems n
      pure ["WITHIN GROUP (ORDER BY " ++ order ++ ")"]
    else pure []
  let filter ←
    if ← onlyIf (isAnyOf [.postgres]) (keyword "FILTER") then do
      let condition ← inParens do
        expect ["WHERE"]
        n.any
      pure ["FILTER (WHERE " ++ condition ++ ")"]
    else pure []
  let nulls ← nullTreatment
  let windowed ←
    if ← keyword "OVER" then do
      pure ["OVER", ← if ← peekSymbol "(" then window n else identText]
    else pure []
  return spaced ([name ++ first ++ second] ++ group ++ filter ++ nulls ++ windowed)

/-! ### Operands that start with a keyword -/

/-- Units of time that may follow an interval. -/
def intervalUnits : List String :=
  ["YEAR", "YEARS", "MONTH", "MONTHS", "WEEK", "WEEKS", "DAY", "DAYS", "HOUR", "HOURS", "MINUTE",
   "MINUTES", "SECOND", "SECONDS", "CENTURY", "DECADE", "DOW", "DOY", "EPOCH", "ISODOW", "ISOYEAR",
   "JULIAN", "MICROSECOND", "MICROSECONDS", "MILLENIUM", "MILLENNIUM", "MILLISECOND",
   "MILLISECONDS", "NANOSECOND", "NANOSECONDS", "QUARTER", "TIMEZONE", "TIMEZONE_HOUR",
   "TIMEZONE_MINUTE"]

/-- Fields of times besides those units. -/
def otherFields : List String :=
  ["DATE", "DATETIME", "DAYOFWEEK", "DAYOFYEAR", "ISOWEEK", "TIME", "TIMEZONE_ABBR",
   "TIMEZONE_REGION"]

/-- A field of a time. MySQL knows only the listed ones. -/
def timeField : Reader String := do
  match ← oneOf? (intervalUnits ++ otherFields) with
  | some k => return k
  | none => if ← isPostgresOrGeneric then identText else reject "a date or time field"

/-- An optional precision, set off by a space. -/
def fieldPrecision : Reader (List String) := do
  if ← symbol "(" then
    let precision ← natural
    expectSymbol ")"
    return ["(" ++ precision ++ ")"]
  else return []

/-- An interval of time after its keyword. -/
def interval (n : Nested) : Reader String := do
  let needsUnit ← isAnyOf [.mySql]
  -- Where the unit may be missing, the value is a single operand, lest it take what follows.
  let value ← if needsUnit then n.any else n.single
  let unit ← oneOf? intervalUnits
  if needsUnit && unit.isNone then reject "a unit after the interval"
  let extent ←
    if unit == some "SECOND" then
      if ← symbol "(" then do
        let precision ← natural
        let fraction ← if ← symbol "," then pure (", " ++ (← natural)) else pure ""
        expectSymbol ")"
        pure ["(" ++ precision ++ fraction ++ ")"]
      else pure []
    else do
      let precision ← fieldPrecision
      if ← keyword "TO" then
        let last ← timeField
        let fraction ← if last == "SECOND" then fieldPrecision else pure []
        pure (precision ++ ["TO", last] ++ fraction)
      else pure precision
  return spaced (["INTERVAL", value, unit.getD ""] ++ extent)

/-- A choice between cases, after its keyword. -/
def caseExpression (n : Nested) : Reader String := do
  let subject ← if (← peekKeyword) == "WHEN" then pure "" else n.any
  let branch : Reader (Option String) := do
    if ← keyword "WHEN" then
      let condition ← n.any
      expect ["THEN"]
      return some (spaced ["WHEN", condition, "THEN", ← n.any])
    else return none
  let branches ← many branch
  if branches.isEmpty then reject "WHEN"
  let otherwise ← clause ["ELSE"] n.any
  expect ["END"]
  return spaced (["CASE", subject] ++ branches ++ otherwise ++ ["END"])

/-- A conversion to a type, after its keyword. -/
def castExpression (n : Nested) (function : String) : Reader String := do
  let inner ← inParens do
    let value ← n.any
    expect ["AS"]
    return spaced [value, "AS", ← typeName]
  return function ++ "(" ++ inner ++ ")"

/-- A conversion to a type or character set, after its keyword. -/
def convertExpression (n : Nested) : Reader String := do
  let inner ← inParens do
    let value ← n.any
    if ← keyword "USING" then return spaced [value, "USING", ← nameText]
    expectSymbol ","
    let type ← typeName
    let charset ← clause ["CHARACTER", "SET"] nameText
    return value ++ ", " ++ spaced (type :: charset)
  return "CONVERT(" ++ inner ++ ")"

/-- A field of a time value, after its keyword. -/
def extractExpression (n : Nested) : Reader String := do
  let inner ← inParens do
    let field ← timeField
    if ← keyword "FROM" then return spaced [field, "FROM", ← n.any]
    if ← onlyIf (isAnyOf [.generic]) (symbol ",") then return field ++ ", " ++ (← n.any)
    reject "FROM"
  return "EXTRACT(" ++ inner ++ ")"

/-- A rounded value, after the keyword. -/
def roundedExpression (n : Nested) (function : String) : Reader String := do
  let inner ← inParens do
    let value ← n.any
    if ← keyword "TO" then return spaced [value, "TO", ← timeField]
    if ← symbol "," then
      match ← peek with
      | some (.number digits) => do skip; return value ++ ", " ++ digits
      | _ => reject "a number"
    return value
  return function ++ "(" ++ inner ++ ")"

/-- The place of a text in another, after the keyword. -/
def positionExpression (n : Nested) (function : String) : Reader String := do
  let found ← attempt do
    let inner ← inParens do
      let part ← n.above .between
      expect ["IN"]
      return spaced [part, "IN", ← n.any]
    return "POSITION(" ++ inner ++ ")"
  match found with
  | some text => return text
  -- Other arguments make it a call like any other.
  | none => call n function

/-- A part of a text, after its keyword. -/
def substringExpression (n : Nested) : Reader String := do
  let inner ← inParens do
    let value ← n.any
    let commas ← symbol ","
    let isStart ← if commas then pure true else keyword "FROM"
    let start ← if isStart then some <$> n.any else pure none
    let isCount ← if ← keyword "FOR" then pure true else symbol ","
    let count ← if isCount then some <$> n.any else pure none
    let part (word : String) (text : Option String) : String :=
      match text with
      | some t => if commas then ", " ++ t else " " ++ word ++ " " ++ t
      | none => ""
    return value ++ part "FROM" start ++ part "FOR" count
  return "SUBSTRING(" ++ inner ++ ")"

/-- A text with a part replaced, after the keyword. -/
def overlayExpression (n : Nested) : Reader String := do
  let inner ← inParens do
    let value ← n.any
    expect ["PLACING"]
    let new ← n.any
    expect ["FROM"]
    let start ← n.any
    return spaced ([value, "PLACING", new, "FROM", start] ++ (← clause ["FOR"] n.any))
  return "OVERLAY(" ++ inner ++ ")"

/-- A trimmed text, after the keyword. -/
def trimExpression (n : Nested) : Reader String := do
  let inner ← inParens do
    let side ← oneOf? ["BOTH", "LEADING", "TRAILING"]
    let first ← n.any
    let rest ←
      if ← keyword "FROM" then pure (" FROM " ++ (← n.any))
      else if ← onlyIf (isAnyOf [.generic]) (symbol ",") then pure (", " ++ (← n.anyListed))
      else pure ""
    return spaced [side.getD "", first ++ rest]
  return "TRIM(" ++ inner ++ ")"

/-- A full-text search, after its keyword. -/
def matchExpression (n : Nested) : Reader String := do
  let columns := (← columnList).map Ident.text
  expect ["AGAINST"]
  let search ← inParens do
    let value ← n.single
    let natural ← words ["IN", "NATURAL", "LANGUAGE", "MODE"]
    let boolean ← if natural.isEmpty then words ["IN", "BOOLEAN", "MODE"] else pure []
    let expansion ← if boolean.isEmpty then words ["WITH", "QUERY", "EXPANSION"] else pure []
    return spaced ([value] ++ natural ++ boolean ++ expansion)
  return "MATCH (" ++ listed columns ++ ") AGAINST (" ++ search ++ ")"

/-- The test whether a query yields rows, after its keyword. -/
def existsExpression (n : Nested) : Reader String :=
  return "EXISTS (" ++ (← inParens n.query) ++ ")"

/-- The rule of an operand that starts with this word, if the word has a meaning of its own in the
dialect and before the token `next`. -/
def special? (n : Nested) (d : Dialect) (w : Word) (next : Option Token) :
    Option (Reader String) :=
  let opens (s : String) : Bool := next == some (.symbol s)
  match w.keyword with
  | "TRUE" => some (pure "true")
  | "FALSE" => some (pure "false")
  | "NULL" => some (pure "NULL")
  | "CURRENT_CATALOG" | "CURRENT_USER" | "SESSION_USER" | "USER" =>
    if d == .mySql then none else some (pure w.ident.text)
  | "CURRENT_TIMESTAMP" | "CURRENT_TIME" | "CURRENT_DATE" | "LOCALTIME" | "LOCALTIMESTAMP" =>
    some (if opens "(" then return w.ident.text ++ (← arguments n) else pure w.ident.text)
  | "CASE" => some (caseExpression n)
  | "CONVERT" => some (convertExpression n)
  | "CAST" | "TRY_CAST" | "SAFE_CAST" => some (castExpression n w.keyword)
  | "EXISTS" => some (existsExpression n)
  | "EXTRACT" => some (extractExpression n)
  | "CEIL" | "FLOOR" => some (roundedExpression n w.keyword)
  | "POSITION" => if opens "(" then some (positionExpression n w.ident.text) else none
  | "SUBSTRING" => some (substringExpression n)
  | "OVERLAY" => some (overlayExpression n)
  | "TRIM" => some (trimExpression n)
  | "INTERVAL" => some (interval n)
  | "ARRAY" =>
    if opens "[" then some do
      skip
      let items ← commaSeparatedUntil "]" n.any
      expectSymbol "]"
      return "ARRAY[" ++ listed items ++ "]"
    else if opens "(" then some (return w.ident.text ++ "(" ++ (← inParens n.query) ++ ")")
    else none
  | "NOT" => some do
    if ← keyword "EXISTS" then return "NOT " ++ (← existsExpression n)
    return "NOT " ++ (← n.above .not)
  | "MATCH" => if d == .postgres then none else some (matchExpression n)
  | _ => none

/-- Words that name nothing where their own meaning does not fit. -/
def isNoName (d : Dialect) (k : String) : Bool :=
  ["EXISTS", "STRUCT", "TRIM"].contains k || (k == "INTERVAL" && d != .postgres)

/-! ### Operands -/

/-- What a word names: a column, a function to call, or the character set of a string. -/
def named (n : Nested) (w : Word) : Reader String := do
  let introduced? := match ← peek with
    | some (.text mark value) => some (quotedBy mark value)
    | some (.literal normal) => if normal.startsWith "X'" then some normal else none
    | _ => none
  match introduced? with
  | some value =>
    if w.value.startsWith "_" then do skip; return spaced [w.value, value]
    else return w.ident.text
  | none =>
    let more ← many do
      if ← symbol "." then
        match ← peek with
        | some (.word part) => do skip; return some part.ident.text
        | some (.text '\'' value) => do skip; return some (quotedBy '\'' value)
        | some (.symbol "*") =>
          if ← isAnyOf [.postgres] then do skip; return some "*"
          else reject "an identifier"
        | _ => reject "an identifier"
      else return none
    let name := Text.joinTexts "." (w.ident.text :: more)
    if ← peekSymbol "(" then call n name else return name

/-- An operand that starts with this word. -/
def wordOperand (n : Nested) (w : Word) : Reader String := do
  let d ← read
  match special? n d w (← peek) with
  | none => named n w
  | some rule =>
    -- There is no way back for these words: a failure of the rule is final.
    if isNoName d w.keyword then rule
    else match ← attempt rule with
      | some text => return text
      | none => named n w

/-- What stands in parentheses that have been opened: a query, or expressions. -/
def parenthesized (n : Nested) : Reader String := do
  let k ← peekKeyword
  let inner ← if k == "SELECT" || k == "WITH" then n.query else n.anyListed
  expectSymbol ")"
  let field ← if ← symbol "." then do
      match ← peek with
      | some (.word w) => do skip; pure ("." ++ w.ident.text)
      | _ => reject "an identifier"
    else pure ""
  return "(" ++ inner ++ ")" ++ field

/-- An operand that starts with a symbol. -/
def symbolOperand (n : Nested) (s : String) : Reader String := do
  let d ← read
  if s == "-" || s == "+" then
    skip
    return s ++ (← n.above .product)
  else if s == "(" then
    skip
    parenthesized n
  else if s == "[" then
    skip
    let items ← commaSeparatedUntil "]" n.any
    expectSymbol "]"
    return "[" ++ listed items ++ "]"
  else if d == .postgres && ["!!", "|/", "||/", "@", "~"].contains s then
    skip
    return s ++ (← n.above .sum)
  else if s == ":" || s == "@" then
    skip
    match ← peek with
    | some (.word w) => do skip; return s ++ w.value
    | some (.number digits) => do skip; return s ++ digits
    | _ => reject "a placeholder"
  else reject "an expression"

/-- A string that follows the name of its type, or an interval. -/
def typedString (n : Nested) : Reader String := do
  let type ← TypeName.read
  match type.kind with
  | .interval => interval n
  | .known => return spaced [type.text, quotedBy '\'' (← TypeName.literalString)]
  | .userDefined => reject "a literal"

/-- An operand, up to an optional collation. -/
def operand (n : Nested) : Reader String := do
  -- The type of a literal looks like a column, so it is tried first.
  match ← attempt (typedString n) with
  | some text => return text
  | none =>
    let text ← match ← peek with
      | some (.word w) => do skip; wordOperand n w
      | some (.symbol s) => symbolOperand n s
      | some (.escaped value) =>
        if ← isAnyOf [.mySql] then reject "an expression"
        else do skip; pure (((Token.escaped value).literalText?).getD "")
      | some t => do skip; pure ((t.literalText?).getD "")
      | none => reject "an expression"
    return spaced (text :: (← clause ["COLLATE"] nameText))

/-! ### Operators -/

/-- Whether an expression may stand on both sides of the symbol in the dialect. -/
def isBinary (d : Dialect) (s : String) : Bool :=
  match s with
  | "<<" | ">>" | "&&" | "^@" => d != .mySql
  | "//" => d == .generic
  | "#" => d == .postgres
  | s => !(["::", "[", "!"].contains s)

/-- What follows a binary operator: an operand, or what ranges over rows or the items of an
array. -/
def rightSide (n : Nested) (precedence : Nat) (operator : String) : Reader String := do
  match ← oneOf? ["ANY", "ALL", "SOME"] with
  | none => return spaced [operator, ← n.expression precedence]
  | some quantifier =>
    let isQuery : Bool := match ← get with
      | t :: u :: _ => t == .symbol "(" && (u.isKeyword "SELECT" || u.isKeyword "WITH")
      | _ => false
    let right ←
      if isQuery then n.expression precedence
      else pure ("(" ++ (← inParens (n.expression precedence)) ++ ")")
    -- The operand has been read by now, so its own failure comes first.
    if !(["=", "<>", "<", ">", "<=", ">="].contains operator) then reject "a comparison"
    return spaced [operator, quantifier ++ right]

/-- What follows `IS`. -/
def isSuffix (n : Nested) : Reader String := do
  let negation ← words ["NOT"]
  if ← phrase ["DISTINCT", "FROM"] then
    return spaced (negation ++ ["DISTINCT", "FROM", ← n.any])
  let k ← expectOneOf ["NULL", "TRUE", "FALSE", "UNKNOWN"]
  return spaced (negation ++ [k])

/-- What follows `IN`: the rows of a query, the items of an array, or a list. -/
def inSuffix (n : Nested) : Reader String := do
  if ← keyword "UNNEST" then return "UNNEST(" ++ (← inParens n.any) ++ ")"
  let inner ← inParens do
    -- Only trying tells a query from a list that starts with one in parentheses.
    match ← attempt n.queryBody with
    | some query => return query
    | none => n.anyListed
  return "(" ++ inner ++ ")"

/-- The pattern that a text is compared with, and how its wildcards are escaped. -/
def patternSuffix (n : Nested) (allowsAny : Bool) : Reader (List String) := do
  let quantifier ← if allowsAny then words ["ANY"] else pure []
  let pattern ← n.above .like
  let escape ← clause ["ESCAPE"] (return "'" ++ (← TypeName.literalString) ++ "'")
  return quantifier ++ [pattern] ++ escape

/-- A comparison that starts with a keyword, possibly negated. -/
def comparisonSuffix (n : Nested) : Reader String := do
  let negation ← words ["NOT"]
  let comparison ← oneOf? ["IN", "BETWEEN", "LIKE", "ILIKE", "RLIKE", "REGEXP", "SIMILAR"]
  let rest ← match comparison with
    | some "IN" => pure ["IN", ← inSuffix n]
    | some "BETWEEN" => do
      let low ← n.above .between
      expect ["AND"]
      pure ["BETWEEN", low, "AND", ← n.above .between]
    | some "SIMILAR" => do
      expect ["TO"]
      pure ("SIMILAR" :: "TO" :: (← patternSuffix n false))
    | some "LIKE" => pure ("LIKE" :: (← patternSuffix n true))
    | some "ILIKE" => pure ("ILIKE" :: (← patternSuffix n true))
    | some k => pure [k, ← n.above .like]
    | none => reject "IN or BETWEEN"
  return spaced (negation ++ rest)

/-- A place or a range of places in brackets that have been opened. MySQL knows no ranges. -/
def subscript (n : Nested) : Reader String := do
  let lower ← if ← peekSymbol ":" then pure "" else n.any
  if ← symbol "]" then
    if lower.isEmpty then reject "an index" else return "[" ++ lower ++ "]"
  if ← isAnyOf [.mySql] then reject "]"
  expectSymbol ":"
  let upper ← if ← peekSymbol "]" then pure "" else n.any
  let stride ← if ← symbol ":" then
      if ← peekSymbol "]" then pure "" else pure (":" ++ (← n.any))
    else pure ""
  expectSymbol "]"
  return "[" ++ lower ++ ":" ++ upper ++ stride ++ "]"

/-- The name of an operator in parentheses. -/
def operatorName : Reader String := do
  let part : Reader String := do
    match ← peek with
    | some t => do skip; return t.source
    | none => reject "an operator"
  return "OPERATOR(" ++ Text.joinTexts "." (← inParens (separatedBy "." part)) ++ ")"

/-- The expression after one more operator, which binds as strongly as `precedence`. -/
def withSuffix (n : Nested) (precedence : Nat) (left : String) : Reader String := do
  let d ← read
  match ← peek with
  | some (.symbol s) =>
    skip
    if isBinary d s then
      return spaced [left, ← rightSide n precedence (if s == "==" then "=" else s)]
    else if s == "::" then return left ++ "::" ++ (← typeName)
    else if s == "[" then return left ++ (← subscript n)
    else if s == "!" && d == .postgres then return left ++ "!"
    else reject "another operator"
  | some (.word w) =>
    match w.keyword with
    | "AND" | "OR" | "XOR" => do
      skip
      return spaced [left, ← rightSide n precedence w.keyword]
    | "DIV" => do
      if d != .mySql then reject "another operator"
      skip
      return spaced [left, "DIV", ← n.any]
    | "OPERATOR" => do
      if d == .mySql then reject "another operator"
      skip
      let operator ← operatorName
      return spaced [left, ← rightSide n precedence operator]
    | "IS" => do skip; return spaced [left, "IS", ← isSuffix n]
    | "AT" => do
      expect ["AT", "TIME", "ZONE"]
      return spaced [left, "AT TIME ZONE", ← n.expression precedence]
    -- The keyword is not taken here, since it may be the `NOT` of a comparison.
    | _ => return spaced [left, ← comparisonSuffix n]
  | _ => reject "an operator"

/-- An expression in which only operators that bind more strongly than `precedence` occur. -/
def expressionAbove (n : Nested) (precedence : Nat) : Reader String := do
  let first ← operand n
  iterate (fun left => do
    let next ← nextPrecedence
    -- Strictly: operators of one precedence group to the left.
    if precedence < next then return some (← withSuffix n next left) else return none) first

end Expression

end EntityDiagram.Statement
