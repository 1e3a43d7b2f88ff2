import EntityDiagram.Schema.Json

/-!
# `EntityDiagram.Parsing.Result`: what reading a script yields

A `ParseResult` carries a schema if the reading succeeded, notes on the way, and a message for
people. Failure is a result like any other.

There are two ways to make a result, `succeeded` and `failed`; warnings and errors may be added to
either one. As JSON a result has all its members at every time, and a reader takes it back also
where the schema or the lists are left out.
-/

set_option autoImplicit false

namespace EntityDiagram

open Json

/-- What reading a script yields. -/
structure ParseResult where
  success : Bool
  schema : Option Schema := none
  warnings : List String := []
  errors : List String := []
  message : String
deriving DecidableEq, Repr, Inhabited

namespace ParseResult

/-- A result with a schema. -/
def succeeded (schema : Schema) (warnings : List String) : ParseResult where
  success := true
  schema := some schema
  warnings := warnings
  message := "Parse succeeded"

/-- A result without a schema. -/
def failed (message : String) (errors : List String) : ParseResult where
  success := false
  errors := errors
  message := message

/-- The result with one more warning. -/
def addWarning (r : ParseResult) (text : String) : ParseResult :=
  { r with warnings := r.warnings ++ [text] }

/-- The result with one more error. -/
def addError (r : ParseResult) (text : String) : ParseResult :=
  { r with errors := r.errors ++ [text] }

/-- The result as an object. -/
def toJson (r : ParseResult) : Json :=
  .obj [
    ("success", .bool r.success),
    ("database_model", ofOption Schema.toJson r.schema),
    ("warnings", ofStrings r.warnings),
    ("errors", ofStrings r.errors),
    ("message", .str r.message)]

/-- Reads a result. -/
def ofJson? (j : Json) : Option ParseResult := do
  return {
    success := ← j.member "success" bool?
    schema := ← j.memberOpt "database_model" Schema.ofJson?
    warnings := ← j.memberOr "warnings" (list? str?) []
    errors := ← j.memberOr "errors" (list? str?) []
    message := ← j.member "message" str? }

end ParseResult

end EntityDiagram
