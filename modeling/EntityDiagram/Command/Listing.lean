import EntityDiagram.Parsing.Result
import EntityDiagram.Text.Replace

/-!
# `EntityDiagram.Command.Listing`: schemas and relations in lines

The lines in which the program shows a schema and its foreign keys to people.

They are functions of the schema and the warnings alone, in the order of the schema. What is not
known of a foreign key yet, its cardinality, is shown as a question mark. The other outputs of the
program, JSON and diagrams, are written elsewhere.
-/

set_option autoImplicit false

namespace EntityDiagram.Command

open Text (joinTexts)

/-- Lines, each with its end. -/
def unlines (lines : List String) : String := String.join (lines.map (· ++ "\n"))

/-- A title between empty lines. -/
def heading (title : String) : List String :=
  ["", title, String.ofList (List.replicate 60 '='), ""]

/-! ### Schemas -/

/-- The lines of a table. -/
def tableLines (t : Table) : List String :=
  let key := match t.primaryKey with
    | some key => joinTexts ", " key.columns
    | none => "-"
  ("  " ++ t.name ++ " (" ++ toString t.columns.length ++ " columns, PK: " ++ key ++ ", "
      ++ toString t.foreignKeys.length ++ " FKs)")
    :: (t.comment.map ("      " ++ ·)).toList

/-- The lines of the views, if there are any. -/
def viewLines (views : List View) : List String :=
  if views.isEmpty then []
  else ["", "Views: " ++ toString views.length] ++ views.map ("  " ++ ·.name)

/-- The lines of the warnings. The first one only says how the script was read, and is left out. -/
def warningLines (warnings : List String) : List String :=
  match warnings with
  | _ :: second :: more => ["", "Warnings:"] ++ (second :: more).map ("  WARN " ++ ·)
  | _ => []

/-- The lines that summarize a schema. -/
def summaryLines (s : Schema) (warnings : List String) : List String :=
  heading "Schema Summary"
    ++ ["Dialect: " ++ s.dbType]
    ++ ((s.metadata.lookup "parser").map ("Parser: " ++ ·)).toList
    ++ ["Tables: " ++ toString s.tables.length,
        "Foreign keys: " ++ toString s.foreignKeyCount, ""]
    ++ s.tables.flatMap tableLines
    ++ viewLines s.views
    ++ warningLines warnings
    ++ [""]

/-- The lines that say why a script was not read. -/
def failureLines (r : ParseResult) : List String :=
  ("✗ " ++ r.message) :: r.errors.map ("    " ++ ·)

/-! ### Relations -/

/-- The short form of a cardinality. -/
def ratio : Option Cardinality → String
  | some .oneToOne => "1:1"
  | some .oneToMany => "1:N"
  | some .manyToMany => "N:M"
  | none => "?"

/-- The line of a foreign key. -/
def keyLine (k : ForeignKey) : String :=
  "  " ++ ratio k.cardinality ++ "  (" ++ joinTexts ", " k.fromColumns ++ ") -> " ++ k.toTable
    ++ "(" ++ joinTexts ", " k.toColumns ++ ")"

/-- The lines of a table with its foreign keys, if it has any. -/
def relationLinesOf (t : Table) : List String :=
  if t.foreignKeys.isEmpty then []
  else (t.name ++ if t.isJunction then " [junction]" else "") :: t.foreignKeys.map keyLine

/-- The lines that list the foreign keys of a schema. -/
def relationLines (s : Schema) : List String :=
  heading "Relationships"
    ++ (if s.foreignKeyCount == 0 then ["No foreign keys found"]
        else s.tables.flatMap relationLinesOf)
    ++ [""]

end EntityDiagram.Command
