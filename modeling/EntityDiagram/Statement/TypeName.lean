import EntityDiagram.Statement.Keyword
import EntityDiagram.Statement.Reader

/-!
# `EntityDiagram.Statement.TypeName`: types of columns

A type is a known name with the arguments that this name takes, or any other name with modifiers in
parentheses, which users define. Brackets after it make it an array. `typeName` yields the type in
normal form.

Many types consist of several words, such as `DOUBLE PRECISION` and `CHARACTER VARYING`, and some
take their arguments between two of them. The normal form has one spelling for each type, with
single spaces and the arguments in parentheses behind. The text of it is what a column keeps of its
type.
-/

set_option autoImplicit false

namespace EntityDiagram.Statement

open Reader

/-- What a type is. -/
inductive TypeKind where
  /-- A known type. -/
  | known
  /-- The type of intervals of time. -/
  | interval
  /-- A type that users define. -/
  | userDefined
deriving DecidableEq, Repr

/-- A type. -/
structure TypeName where
  /-- The type in normal form. -/
  text : String
  kind : TypeKind := .known
deriving DecidableEq, Repr

namespace TypeName

/-! ### Arguments -/

/-- An optional size in parentheses. -/
def size : Reader String := do
  if ← symbol "(" then
    let n ← natural
    expectSymbol ")"
    return "(" ++ n ++ ")"
  else return ""

/-- An optional length in parentheses: `MAX`, or a number with an optional unit. -/
def textLength : Reader String := do
  if ← symbol "(" then
    if ← keyword "MAX" then
      expectSymbol ")"
      return "(MAX)"
    let n ← natural
    let unit ← oneOf? ["CHARACTERS", "OCTETS"]
    expectSymbol ")"
    return "(" ++ spaced [n, unit.getD ""] ++ ")"
  else return ""

/-- An optional precision with an optional scale in parentheses. -/
def precisionAndScale : Reader String := do
  if ← symbol "(" then
    let precision ← natural
    let scale ← if ← symbol "," then pure ("," ++ (← natural)) else pure ""
    expectSymbol ")"
    return "(" ++ precision ++ scale ++ ")"
  else return ""

/-- An optional time zone clause. -/
def timeZone : Reader String := do
  if ← keyword "WITH" then
    expect ["TIME", "ZONE"]
    return " WITH TIME ZONE"
  else if ← keyword "WITHOUT" then
    expect ["TIME", "ZONE"]
    return " WITHOUT TIME ZONE"
  else return ""

/-- The value of a string literal, or an unquoted word that is no keyword. -/
def literalString : Reader String := do
  match ← peek with
  | some (.word w) =>
    if isReserved w.keyword then reject "a literal string" else do skip; return w.value
  | some (.text _ value) => do skip; return value
  | some (.escaped value) =>
    if ← isPostgresOrGeneric then do skip; return value else reject "a literal string"
  | some (.unicode value) => do skip; return value
  | _ => reject "a literal string"

/-- The values of an enumeration in parentheses; each may be numbered. -/
def enumValues : Reader String := do
  let values ← inParens (commaSeparated do
    let value := quotedBy '\'' (← literalString)
    if ← symbol "=" then return value ++ " = " ++ (← signedNumber) else return value)
  return "(" ++ listed values ++ ")"

/-- The values of a set in parentheses. -/
def setValues : Reader String := do
  let values ← inParens (commaSeparated (return quotedBy '\'' (← singleQuoted)))
  return "(" ++ listed values ++ ")"

/-- The modifiers of a type that users define: words, numbers and strings, with or without commas
between them. -/
def modifiers : Reader String := do
  if ← symbol "(" then
    let items ← many do
      match ← peek with
      | some (.word w) => do skip; return some [w.ident.text]
      | some (.number digits) => do skip; return some [digits]
      | some (.text '\'' value) => do skip; return some [value]
      | some (.symbol ",") => do skip; return some []
      | _ => return none
    expectSymbol ")"
    let items := items.flatten
    return if items.isEmpty then "" else "(" ++ listed items ++ ")"
  else return ""

/-! ### Known types -/

/-- Types without arguments, with their normal forms where these differ from the keywords. -/
def bareTypes : List (String × String) :=
  ["BOOLEAN", "BOOL", "REAL", "FLOAT4", "FLOAT64", "FLOAT8", "UUID", "DATE", "JSON", "JSONB",
   "REGCLASS", "TEXT", "TINYTEXT", "MEDIUMTEXT", "LONGTEXT", "TINYBLOB", "MEDIUMBLOB", "LONGBLOB",
   "BYTEA", "TRIGGER"].map (fun k => (k, k)) ++
  [("FLOAT32", "Float32"), ("INT16", "Int16"), ("INT32", "Int32"), ("INT64", "Int64"),
   ("INT128", "Int128"), ("INT256", "Int256"), ("UINT8", "UInt8"), ("UINT16", "UInt16"),
   ("UINT32", "UInt32"), ("UINT64", "UInt64"), ("UINT128", "UInt128"), ("UINT256", "UInt256"),
   ("DATE32", "Date32")]

/-- Types with an optional size. -/
def sizedTypes : List String :=
  ["FLOAT", "CLOB", "BINARY", "VARBINARY", "BLOB", "BYTES", "DATETIME", "TIMESTAMPTZ", "TIMETZ",
   "STRING"]

/-- Types of integers, with an optional size, which may be unsigned. -/
def integerTypes : List String :=
  ["TINYINT", "INT2", "SMALLINT", "MEDIUMINT", "INT", "INT4", "INT8", "INTEGER", "BIGINT"]

/-- Types of exact numbers. -/
def exactTypes : List String := ["NUMERIC", "DECIMAL", "DEC", "BIGNUMERIC", "BIGDECIMAL"]

/-- The closing bracket of type arguments. Two of them may be written without a space. -/
def closeAngle : Reader Unit := do
  -- The second bracket of the pair goes back to the tokens.
  if ← symbol ">>" then modify (.symbol ">" :: ·) else expectSymbol ">"

/-- The rest of a type whose first word is this keyword, if the keyword is that of a known type.
`inner` reads a type inside of it. -/
def known? (inner : Reader String) (k : String) : Option (Reader String) :=
  let sized (name : String) : Reader String := return name ++ (← size)
  let lengthy (name : String) : Reader String := return name ++ (← textLength)
  if let some normal := bareTypes.lookup k then some (pure normal)
  else if sizedTypes.contains k then some (sized k)
  else if integerTypes.contains k then some do
    let n ← size
    return if ← keyword "UNSIGNED" then k ++ n ++ " UNSIGNED" else k ++ n
  else if exactTypes.contains k then some (return k ++ (← precisionAndScale))
  else match k with
  | "VARCHAR" | "NVARCHAR" => some (lengthy k)
  | "CHARACTER" | "CHAR" => some do
    if ← keyword "VARYING" then lengthy (k ++ " VARYING")
    else if ← phrase ["LARGE", "OBJECT"] then sized (k ++ " LARGE OBJECT")
    else lengthy k
  | "BIT" => some do
    if ← keyword "VARYING" then sized "BIT VARYING" else sized k
  | "DOUBLE" => some do
    return if ← keyword "PRECISION" then "DOUBLE PRECISION" else k
  | "TIMESTAMP" | "TIME" => some do
    let precision ← size
    return k ++ precision ++ (← timeZone)
  | "ENUM" | "ENUM8" | "ENUM16" => some (return k ++ (← enumValues))
  | "SET" => some (return k ++ (← setValues))
  | "ARRAY" => some do
    expectSymbol "<"
    let item ← inner
    closeAngle
    return "ARRAY<" ++ item ++ ">"
  | _ => none

/-- Types of which the generic dialect knows more. -/
def generic? (inner : Reader String) (k : String) : Option (Reader String) :=
  let wrapped (name : String) : Reader String := return name ++ "(" ++ (← inParens inner) ++ ")"
  match k with
  | "NULLABLE" => some (wrapped "Nullable")
  | "LOWCARDINALITY" => some (wrapped "LowCardinality")
  | "MAP" => some do
    expectSymbol "("
    let key ← inner
    expectSymbol ","
    let value ← inner
    expectSymbol ")"
    return "Map(" ++ key ++ ", " ++ value ++ ")"
  | _ => none

/-- The brackets after a type that make it an array. Only MySQL allows no size in them. -/
def brackets (type : String) : Reader (Option String) := do
  if ← symbol "[" then
    let size ← if ← isPostgresOrGeneric then attempt natural else pure none
    expectSymbol "]"
    return some (type ++ "[" ++ size.getD "" ++ "]")
  else return none

/-- A type with at most `depth` types nested in it. -/
def readUpTo : (depth : Nat) → Reader TypeName
  | 0 => reject "a data type name"
  | depth + 1 => do
    let inner : Reader String := return (← readUpTo depth).text
    let k ← peekKeyword
    let isGeneric ← isAnyOf [.generic]
    let rule? := (known? inner k).orElse fun _ => if isGeneric then generic? inner k else none
    let type : TypeName ← match ← peek with
      | some (.word _) =>
        if k == "INTERVAL" then do skip; pure { text := k, kind := .interval }
        else match rule? with
          | some rule => do skip; pure { text := ← rule }
          | none => do
            let name ← nameText
            pure { text := name ++ (← modifiers), kind := .userDefined }
      | _ => reject "a data type name"
    let text ← iterate brackets type.text
    -- An array of intervals is no interval.
    return if text == type.text then type else { text }

/-- A type. Each type nested in another takes a token, so their number bounds the depth. -/
def read : Reader TypeName := do readUpTo ((← get).length + 1)

end TypeName

/-- A type in normal form. -/
def typeName : Reader String := return (← TypeName.read).text

end EntityDiagram.Statement
