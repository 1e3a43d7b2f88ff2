import EntityDiagram.Diagram.Options
import EntityDiagram.Text.Replace

/-!
# `EntityDiagram.Diagram.Render`: entity-relationship diagrams as text

A diagram is written in the `erDiagram` notation: a line for the layout if it is not the default,
a block for each table with a line for each visible column, and a line for each foreign key.

Which tables, columns and comments are written is decided by `Options`, and in what order by the
schema alone. The types of columns are written as one word each, what is said about a column as one
quoted text at the end of its line. A foreign key is written if the table it starts from is in the
diagram.
-/

set_option autoImplicit false

namespace EntityDiagram.Diagram

open Text (joinTexts)

/-- The type of a column as one word: without white space, with underscores for commas, in lower
case. -/
def typeToken (c : Column) : String :=
  let shown := (c.fullType.toList.filter fun c => !Text.isSpace c).map fun c =>
    if c == ',' then '_' else c
  let token := Text.lower shown
  if token.isEmpty then "unknown" else String.ofList token

/-- A comment as it may stand between double quotes on one line: a double quote becomes a single
one, and a line break a space. -/
def escapeComment (s : List Char) : List Char :=
  let singled := s.map fun c => if c == '"' then '\'' else c
  (Text.replace '\r' ['\n'] [' '] singled).map fun c => if c == '\n' || c == '\r' then ' ' else c

/-- The symbol of a cardinality; a foreign key that has none is shown as one to many. -/
def symbol : Option Cardinality → String
  | some .oneToOne => "||--||"
  | some .manyToMany => "\x7do--o\x7b"
  | some .oneToMany | none => "||--o\x7b"

/-- The part that a column plays in keys. -/
def keyMark (t : Table) (c : Column) : String :=
  if c.inPrimaryKey then " PK" else if t.isForeignKeyColumn c.name then " FK" else ""

/-- The comment of a column as it is shown, unless it is blank. -/
def shownComment (c : Column) : Option String :=
  (c.comment.map fun s => escapeComment s.toList).bind fun s =>
    if Text.isBlank s then none else some (String.ofList s)

/-- What is said about a column between double quotes. -/
def details (c : Column) (showComments : Bool) : List String :=
  (if !c.nullable && !c.inPrimaryKey then ["NOT NULL"] else [])
    ++ (if showComments then (shownComment c).toList else [])

/-- The line of a column of `t`: type, name, part in keys and details. -/
def columnLine (t : Table) (showComments : Bool) (c : Column) : String :=
  let said := details c showComments
  typeToken c ++ " " ++ c.name ++ keyMark t c
    ++ if said.isEmpty then "" else " \"" ++ joinTexts ", " said ++ "\""

/-- Whether the name ends in `suffix`. -/
def endsIn (suffix name : String) : Bool := (Text.dropTail? suffix.toList name.toList).isSome

/-- The columns of `t` that a view mode shows. -/
def visibleColumns (keySuffix : String) (mode : ViewMode) (t : Table) : List Column :=
  match mode with
  | .conceptual => []
  | .logical => t.columns.filter fun c => c.inPrimaryKey || endsIn keySuffix c.name
  | .physical => t.columns

/-- The lines of a table. -/
def tableLines (keySuffix : String) (o : Options) (t : Table) : List String :=
  ["    " ++ t.name ++ " \x7b"]
    ++ (visibleColumns keySuffix o.viewMode t).map (fun c =>
      "        " ++ columnLine t o.showComments c)
    ++ ["    \x7d"]

/-- The line of a foreign key. -/
def keyLine (k : ForeignKey) : String :=
  "    " ++ k.toTable ++ " " ++ symbol k.cardinality ++ " " ++ k.fromTable ++ " : \""
    ++ joinTexts "," k.fromColumns ++ "\""

/-- The lines of the diagram of a schema. -/
def lines (keySuffix : String) (o : Options) (s : Schema) : List String :=
  let tables := s.tables.filter fun t => o.keeps t.name
  ["erDiagram"]
    ++ (if o.direction = .leftToRight then ["    direction LR"] else [])
    ++ tables.flatMap (tableLines keySuffix o)
    ++ tables.flatMap fun t => t.foreignKeys.map keyLine

/-- The diagram of a schema. `keySuffix` is the end of the names that the logical view shows
besides the primary key. -/
def render (keySuffix : String) (o : Options) (s : Schema) : String :=
  String.join ((lines keySuffix o s).map (· ++ "\n"))

end EntityDiagram.Diagram
