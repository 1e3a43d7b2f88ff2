import EntityDiagram.Text.Replace

/-!
# `EntityDiagram.Statement.Basic`: statements of a strictly read script

A strict grammar reads a script as a list of `Statement`s. What defines a schema has a structure;
types, expressions and queries inside are kept as text in a normal form. All other statements
are `other`: they have to fit the grammar, and say nothing about the schema.
-/

set_option autoImplicit false

namespace EntityDiagram.Statement

/-- An identifier and the mark that quotes it, if it is quoted. -/
structure Ident where
  value : String
  quote : Option Char := none
deriving DecidableEq, Repr, Inhabited

/-- A text with every quote mark in it written twice. A mark that is doubled or escaped by a
backslash already is left as it is; `escaped` says whether the last character other than a mark
was a backslash. -/
def doubled (mark : Char) (escaped : Bool) : List Char → List Char
  | [] => []
  | c :: rest =>
    if c == mark then
      if escaped then c :: doubled mark true rest
      else match rest with
        | [] => [c, c]
        | d :: more =>
          if d == mark then c :: c :: doubled mark false more
          else c :: c :: doubled mark false (d :: more)
    else c :: doubled mark (c == '\\') rest

/-- A text between marks that quote it. -/
def quotedBy (mark : Char) (s : String) : String :=
  String.ofList (mark :: doubled mark false s.toList ++ [mark])

/-- The identifier as it is written in a statement. -/
def Ident.text (i : Ident) : String :=
  match i.quote with
  | none => i.value
  | some '[' => "[" ++ i.value ++ "]"
  | some mark => quotedBy mark i.value

/-- A qualified name as its parts. -/
abbrev ObjectName := List Ident

/-- The qualified name as it is written in a statement. -/
def ObjectName.text (name : ObjectName) : String := Text.joinTexts "." (name.map Ident.text)

/-- What a foreign key refers to. -/
structure Reference where
  table : ObjectName
  columns : List Ident
  /-- The words of the action on deletion. -/
  onDelete : Option String := none
  onUpdate : Option String := none
deriving DecidableEq, Repr, Inhabited

/-- An option of a column. -/
inductive ColumnOption where
  | null
  | notNull
  /-- The default value, an expression in normal form. -/
  | default (value : String)
  | comment (text : String)
  | unique
  | primaryKey
  | references (target : Reference)
  /-- A generated value: that of an expression, if it is `computed`, or a running number. -/
  | generated (computed : Bool)
  /-- Words that only some dialects know. -/
  | words (ws : List String)
  | other
deriving DecidableEq, Repr, Inhabited

/-- An option of a column under the name that `CONSTRAINT` gives it. -/
structure NamedOption where
  name : Option Ident := none
  option : ColumnOption
deriving DecidableEq, Repr, Inhabited

/-- The definition of a column. -/
structure ColumnDef where
  name : Ident
  /-- The type in normal form. -/
  type : String
  options : List NamedOption
deriving DecidableEq, Repr, Inhabited

/-- A constraint of a table. -/
inductive TableConstraint where
  | primaryKey (name : Option Ident) (columns : List Ident)
  | unique (name : Option Ident) (columns : List Ident)
  | foreignKey (name : Option Ident) (columns : List Ident) (target : Reference)
  | index (name : Option Ident) (columns : List Ident)
  | fulltext (name : Option Ident) (columns : List Ident)
  | spatial (name : Option Ident) (columns : List Ident)
  | check
deriving DecidableEq, Repr, Inhabited

/-- The definition of a table. -/
structure CreateTable where
  name : ObjectName
  columns : List ColumnDef := []
  constraints : List TableConstraint := []
  comment : Option String := none
deriving DecidableEq, Repr, Inhabited

/-- The definition of an index. -/
structure CreateIndex where
  name : Option ObjectName
  table : ObjectName
  /-- The indexed expressions in normal form. -/
  columns : List String
  unique : Bool
deriving DecidableEq, Repr, Inhabited

end EntityDiagram.Statement

namespace EntityDiagram

open Statement in
/-- A statement of a script. -/
inductive Statement where
  | createTable (table : CreateTable)
  | createIndex (index : CreateIndex)
  /-- The constraints that a statement adds to a table. -/
  | alterTable (name : ObjectName) (added : List TableConstraint)
  /-- A view and its query in normal form. -/
  | createView (name : ObjectName) (query : String)
  | other
deriving DecidableEq, Repr, Inhabited

end EntityDiagram
