import EntityDiagram.Text.Casing
import EntityDiagram.Text.Replace
import EntityDiagram.Text.Space

/-!
# `EntityDiagram.Sql.Name`: names as they are written in SQL

A name may be quoted by backticks, double quotes or brackets, and may be qualified by a schema.
`objectName` is the last segment of a qualified name without its quotes and `schemaPart` the
segment before it. `quoteParts` writes a name from its parts so that both can be read off again.

A dot inside quotes belongs to the name, and so does white space. The marks are taken off a segment
at its ends only; a mark inside stays. Names are compared as texts, in the letter case in which they
are written, except where a function says otherwise.
-/

set_option autoImplicit false

namespace EntityDiagram.Sql

open Text (trim words splitWhere)

/-- The characters that may quote an identifier or a literal. -/
def isQuoteMark (c : Char) : Bool :=
  c == '`' || c == '"' || c == '[' || c == ']' || c == '\''

/-- The text without the quote marks at its ends. -/
def stripQuoteMarks (s : List Char) : List Char :=
  Text.dropEndWhile isQuoteMark (s.dropWhile isQuoteMark)

/-- An identifier without white space and quote marks at its ends. -/
def bareName (s : List Char) : List Char := stripQuoteMarks (trim s)

/-- Adds a character to the first of the segments. -/
def extendFirst (c : Char) : List (List Char) → List (List Char)
  -- Never reached, as there is always a segment.
  | [] => [[c]]
  | segment :: more => (c :: segment) :: more

/-- The segments of a qualified name, cut at the dots outside quotes. `closing` is the mark that
ends the quotes which are open. -/
def segmentsFrom (closing : Option Char) : List Char → List (List Char)
  | [] => [[]]
  | c :: rest =>
    match closing with
    | none =>
      if c == '`' || c == '"' then extendFirst c (segmentsFrom (some c) rest)
      else if c == '[' then extendFirst c (segmentsFrom (some ']') rest)
      else if c == '.' then [] :: segmentsFrom none rest
      else extendFirst c (segmentsFrom none rest)
    | some mark =>
      if c == mark then extendFirst c (segmentsFrom none rest)
      else extendFirst c (segmentsFrom (some mark) rest)

/-- The segments of a qualified name. -/
def segments (qualified : List Char) : List (List Char) := segmentsFrom none (trim qualified)

/-- The last segment of a qualified name, without quotes. -/
def objectName (qualified : String) : String :=
  String.ofList (bareName ((segments qualified.toList).getLast?.getD []))

/-- The segment before the last one, without quotes, if the name has one. -/
def schemaPart (qualified : String) : Option String :=
  match (segments qualified.toList).reverse with
  | _ :: schema :: _ => some (String.ofList (bareName schema))
  | _ => none

/-- A qualified name in which each part stands in double quotes. -/
def quoteParts (parts : List String) : String :=
  Text.joinTexts "." (parts.map fun part => "\"" ++ part ++ "\"")

/-- The name at the front of an item of a column list: what precedes a prefix length or an
ordering. -/
def listedName (item : List Char) : List Char :=
  let head := (trim item).takeWhile (· != '(')
  bareName ((words head).head?.getD head)

/-- The names of a column list, without quotes, prefix lengths and orderings. -/
def columnList (list : List Char) : List String :=
  (((splitWhere (· == ',') list).map listedName).filter (!·.isEmpty)).map String.ofList

/-- A referential action in its normal form: upper case, words joined by underscores. -/
def normalAction (action : List Char) : String :=
  String.ofList (Text.joinWith ['_'] ((words action).map Text.upper))

end EntityDiagram.Sql
