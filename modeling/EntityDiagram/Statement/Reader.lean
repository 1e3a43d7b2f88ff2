import EntityDiagram.Sql.Dialect
import EntityDiagram.Statement.Token

/-!
# `EntityDiagram.Statement.Reader`: rules of the strict grammar as functions on tokens

A rule of the grammar is a `Reader`: it knows the dialect, takes tokens from the front of those
that are left, and yields a value or fails. There is no way back from a failure but `attempt`,
which restores the tokens.

What is read as text comes in a normal form: keywords in upper case, single spaces, a comma and a
space between the items of a list. Optional parts are lists of words, which are empty where the
part is absent.
-/

set_option autoImplicit false

namespace EntityDiagram.Statement

open Sql (Dialect)

/-- Why a rule fails. -/
inductive Failure where
  /-- The tokens do not fit the rule. -/
  | rejected (reason : String)
  /-- Expressions, queries and statements are nested too deeply. No other choice is tried then. -/
  | tooDeep
deriving DecidableEq, Repr

/-- The wording of a failure. -/
def Failure.message : Failure → String
  | .rejected reason => reason
  | .tooDeep => "nested too deeply"

/-- A rule of the grammar. -/
abbrev Reader (α : Type) := ReaderT Dialect (StateT (List Token) (Except Failure)) α

namespace Reader

variable {α β : Type}

/-! ### Failing and trying -/

/-- Fails, because something else is expected here. -/
def reject (expected : String) : Reader α := do
  let found := match (← get).head? with
    | some t => t.source
    | none => "the end"
  throw (.rejected ("expected " ++ expected ++ ", found " ++ found))

/-- What the rule yields, or nothing read if the tokens do not fit it. -/
def attempt (rule : Reader α) : Reader (Option α) := fun d ts =>
  match rule d ts with
  | .ok (a, rest) => .ok (some a, rest)
  | .error .tooDeep => .error .tooDeep
  | .error (.rejected _) => .ok (none, ts)

/-- Whether the dialect is one of these. -/
def isAnyOf (dialects : List Dialect) : Reader Bool := return dialects.contains (← read)

/-- Whether the dialect is MySQL or the generic one. -/
def isMySqlOrGeneric : Reader Bool := isAnyOf [.mySql, .generic]

/-- Whether the dialect is PostgreSQL or the generic one. -/
def isPostgresOrGeneric : Reader Bool := isAnyOf [.postgres, .generic]

/-- What the rule yields where the condition holds, and nothing read elsewhere. -/
def onlyIf (condition : Reader Bool) (rule : Reader Bool) : Reader Bool := do
  if ← condition then rule else return false

/-! ### Single tokens -/

/-- The token at the front. -/
def peek : Reader (Option Token) := return (← get).head?

/-- The keyword at the front, or else an empty text. -/
def peekKeyword : Reader String := return ((← peek).map Token.keyword).getD ""

/-- Whether this symbol is at the front. -/
def peekSymbol (s : String) : Reader Bool := return (← peek) == some (.symbol s)

/-- Steps over one token. -/
def skip : Reader Unit := modify List.tail

/-- The tokens after the keywords of a phrase. -/
def afterPhrase? : List String → List Token → Option (List Token)
  | [], ts => some ts
  | _ :: _, [] => none
  | k :: phrase, t :: ts => if t.isKeyword k then afterPhrase? phrase ts else none

/-- Takes a phrase of keywords if all of it is at the front. -/
def phrase (keywords : List String) : Reader Bool := do
  match afterPhrase? keywords (← get) with
  | some rest => do set rest; return true
  | none => return false

/-- Takes a keyword if it is at the front. -/
def keyword (k : String) : Reader Bool := phrase [k]

/-- Takes one of the keywords if it is at the front. -/
def oneOf? (keywords : List String) : Reader (Option String) := do
  let k ← peekKeyword
  if k != "" && keywords.contains k then
    skip
    return some k
  else return none

/-- Takes a phrase of keywords, which has to be there. -/
def expect (keywords : List String) : Reader Unit := do
  if !(← phrase keywords) then reject (Text.joinTexts " " keywords)

/-- Takes one of the keywords, which has to be there. -/
def expectOneOf (keywords : List String) : Reader String := do
  match ← oneOf? keywords with
  | some k => return k
  | none => reject ("one of " ++ Text.joinTexts ", " keywords)

/-- Takes a symbol if it is at the front. -/
def symbol (s : String) : Reader Bool := do
  if ← peekSymbol s then
    skip
    return true
  else return false

/-- Takes a symbol, which has to be there. -/
def expectSymbol (s : String) : Reader Unit := do
  if !(← symbol s) then reject s

/-- The words of a phrase, if it is at the front. -/
def words (keywords : List String) : Reader (List String) := do
  if ← phrase keywords then return keywords else return []

/-! ### Repetition -/

/-- Changes a value by the rule as long as it yields one, at most so many times. -/
def iterateUpTo (rule : α → Reader (Option α)) : (fuel : Nat) → α → Reader α
  | 0, a => pure a
  | fuel + 1, a => do
    match ← rule a with
    | some next => iterateUpTo rule fuel next
    | none => return a

/-- Changes a value by the rule as long as it yields one. A rule that yields one takes a token, so
the number of tokens bounds the rounds. -/
def iterate (rule : α → Reader (Option α)) (a : α) : Reader α := do
  iterateUpTo rule (← get).length a

/-- What the rule yields again and again until it yields nothing. -/
def many (rule : Reader (Option α)) : Reader (List α) := do
  let read ← iterate (fun items => return (← rule).map (· :: items)) []
  -- The items have been put in front of each other.
  return read.reverse

/-- One or more items, each of them but the first after the symbol. -/
def separatedBy (separator : String) (item : Reader α) : Reader (List α) := do
  let first ← item
  let more ← many (do if ← symbol separator then return some (← item) else return none)
  return first :: more

/-- One or more items between commas. -/
def commaSeparated (item : Reader α) : Reader (List α) := separatedBy "," item

/-- What stands in parentheses. -/
def inParens (rule : Reader α) : Reader α := do
  expectSymbol "("
  let a ← rule
  expectSymbol ")"
  return a

/-- Items between commas up to a closing symbol, which is left; there may be none. -/
def commaSeparatedUntil (close : String) (item : Reader α) : Reader (List α) := do
  if ← peekSymbol close then return [] else commaSeparated item

/-! ### Names and plain literals -/

/-- An identifier: a word or a string. -/
def ident : Reader Ident := do
  match ← peek with
  | some (.word w) => do skip; return w.ident
  | some (.text mark value) => do skip; return { value, quote := some mark }
  | _ => reject "an identifier"

/-- A qualified name. -/
def name : Reader ObjectName := separatedBy "." ident

/-- The text of an identifier. -/
def identText : Reader String := return (← ident).text

/-- The text of a qualified name. -/
def nameText : Reader String := return ObjectName.text (← name)

/-- Identifiers in parentheses. -/
def columnList : Reader (List Ident) := inParens (commaSeparated ident)

/-- Identifiers in parentheses, if there are any. -/
def columnList? : Reader (List Ident) := do
  if ← peekSymbol "(" then columnList else return []

/-- A number that is written in digits and fits 64 bits, in normal form. -/
def natural : Reader String := do
  match ← peek with
  | some (.number digits) =>
    -- The mark of a long number does not count as a digit.
    let digits := (Text.dropTail? ['L'] digits.toList).getD digits.toList
    let value := digits.foldl (fun n c => 10 * n + (c.toNat - '0'.toNat)) 0
    if !digits.isEmpty && digits.all Text.isAsciiDigit && value < UInt64.size then
      skip
      return toString value
    else reject "a literal integer"
  | _ => reject "a literal integer"

/-- A number with an optional sign. -/
def signedNumber : Reader String := do
  let sign ← match ← peek with
    | some (.symbol "-") => do skip; pure "-"
    | some (.symbol "+") => do skip; pure "+"
    | _ => pure ""
  match ← peek with
  | some (.number digits) => do skip; return sign ++ digits
  | _ => reject "a number"

/-- The value of a string in single quotes. -/
def singleQuoted : Reader String := do
  match ← peek with
  | some (.text '\'' value) => do skip; return value
  | _ => reject "a string"

/-- The parts of a text, those that are not empty, between single spaces. -/
def spaced (parts : List String) : String := Text.joinTexts " " (parts.filter (!·.isEmpty))

/-- Items of a list in normal form. -/
def listed (items : List String) : String := Text.joinTexts ", " items

/-- The clause that a phrase opens, if it is at the front: the phrase and what the rule reads. -/
def clause (keywords : List String) (rule : Reader String) : Reader (List String) := do
  if ← phrase keywords then return keywords ++ [← rule] else return []

end Reader

end EntityDiagram.Statement
