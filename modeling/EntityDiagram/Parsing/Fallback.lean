import EntityDiagram.Parsing.Backend
import EntityDiagram.Parsing.Result
import EntityDiagram.Sql.ClientCommand

/-!
# `EntityDiagram.Parsing.Fallback`: one backend after the other

`parse` removes client commands from a script, settles its dialect and lets the backends read it
in order. The first schema wins; the failures before it become warnings. Where every backend
fails, the result says why each of them did.

Only a backend that reads the dialect is asked at all. The name of the one that answered is noted in
the schema, with the dialect, and stands in the first warning of the result; the warnings of its own
reading follow, and then the failures. A schema without tables counts as an answer unless the script
mentions the definition of a table.
-/

set_option autoImplicit false

namespace EntityDiagram.Parsing

/-- Whether each of the tests holds of one of the words that come next, in order. -/
def startsWithWords : List (String → Bool) → List String → Bool
  | [], _ => true
  | _ :: _, [] => false
  | test :: tests, w :: ws => test w && startsWithWords tests ws

/-- Whether the words say `CREATE TABLE`, possibly with a word like `TEMPORARY` between. -/
def saysCreateTable : List String → Bool
  | [] => false
  | w :: ws =>
    let temporary (w : String) := (Text.dropLead? "TEMP".toList w.toList).isSome
    startsWithWords [(· == "CREATE"), (· == "TABLE")] (w :: ws)
      || startsWithWords [(· == "CREATE"), temporary, (· == "TABLE")] (w :: ws)
      || saysCreateTable ws

/-- Whether the text mentions a table definition, in any letter case and spacing. -/
def mentionsCreateTable (sql : String) : Bool :=
  saysCreateTable ((Text.words sql.toList).map fun w => String.ofList (Text.upper w))

/-- The schema with a note on how it was read. -/
def annotate (s : Schema) (b : Backend) (dialect : Sql.Dialect) : Schema :=
  (s.withNote "parser" b.name).withNote "dialect" dialect.name

/-- Lets the backends read a script in order. `failures` are those so far. -/
def tryInOrder (grammar : Grammar) (dialect : Sql.Dialect) (sql : String)
    (failures : List String) : List Backend → ParseResult
  | [] => .failed "All parsing strategies failed" failures
  | b :: more =>
    if b.supports dialect then
      match b.read grammar dialect sql with
      | .ok (schema, warnings) =>
        -- An empty schema is no success where the script declares a table.
        if schema.tables.isEmpty && mentionsCreateTable sql then
          tryInOrder grammar dialect sql (failures ++ [b.name ++ ": no tables parsed"]) more
        else
          .succeeded (annotate schema b dialect)
            (("Parsed with " ++ b.name) :: warnings ++ failures)
      | .error e => tryInOrder grammar dialect sql (failures ++ [b.name ++ ": " ++ e.message]) more
    -- A backend that does not read the dialect has not failed.
    else tryInOrder grammar dialect sql failures more

/-- Reads a script by the first of the backends that can. `hint` names its dialect. -/
def parse (grammar : Grammar) (backends : List Backend) (sql hint : String) : ParseResult :=
  if Text.isBlank sql.toList then .failed "SQL text is empty" []
  else
    let cleaned := Sql.withoutClientCommands sql
    -- Client commands do not count for the dialect.
    let dialect := (Sql.Dialect.ofHint hint).resolve cleaned
    tryInOrder grammar dialect cleaned [] backends

end EntityDiagram.Parsing
