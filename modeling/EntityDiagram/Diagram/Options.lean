import EntityDiagram.Json.Basic
import EntityDiagram.Schema.Basic
import EntityDiagram.Text.Casing

/-!
# `EntityDiagram.Diagram.Options`: what a diagram shows

`Options` say which tables and columns a diagram shows and how it is laid out. The sets of table
names are kept as ascending lists without repetition. Some options are reserved: they are read,
kept and written, and change nothing.

There are two sets of defaults, written apart: those of `Options` where nothing is asked for, and
those of a reader that meets options with some members left out (`Options.unwritten`,
`ViewMode.standard`, `Direction.standard`).
-/

set_option autoImplicit false

namespace EntityDiagram.Diagram

open Json

/-- Which columns a diagram shows. -/
inductive ViewMode where
  /-- All columns. -/
  | physical
  /-- The columns of the primary key, and those named like keys. -/
  | logical
  /-- No columns. -/
  | conceptual
deriving DecidableEq, Repr, Inhabited

/-- The way a diagram is laid out. -/
inductive Direction where
  | topToBottom
  | leftToRight
deriving DecidableEq, Repr, Inhabited

/-- The view mode of a reader that is told none. -/
def ViewMode.standard : ViewMode := .physical

/-- The direction of a reader that is told none. -/
def Direction.standard : Direction := .topToBottom

/-- The name of a view mode. -/
def ViewMode.label : ViewMode → String
  | .physical => "PHYSICAL"
  | .logical => "LOGICAL"
  | .conceptual => "CONCEPTUAL"

/-- The view mode of exactly this name. -/
def ViewMode.ofLabel? : String → Option ViewMode
  | "PHYSICAL" => some .physical
  | "LOGICAL" => some .logical
  | "CONCEPTUAL" => some .conceptual
  | _ => none

/-- The name of a direction. -/
def Direction.label : Direction → String
  | .topToBottom => "TB"
  | .leftToRight => "LR"

/-- The direction of exactly this name. -/
def Direction.ofLabel? : String → Option Direction
  | "TB" => some .topToBottom
  | "LR" => some .leftToRight
  | _ => none

/-- A word that names no value of a setting; it is kept in upper case. -/
inductive UnknownWord where
  | viewMode (word : String)
  | direction (word : String)
deriving DecidableEq, Repr

/-- The wording of the error. -/
def UnknownWord.message : UnknownWord → String
  | .viewMode word => "unknown view mode: " ++ word
  | .direction word => "unknown layout direction: " ++ word

/-- The view mode that a word names in any ASCII letter case. -/
def ViewMode.ofWord (word : String) : Except UnknownWord ViewMode :=
  let upper := Text.upperAscii word
  match ofLabel? upper with
  | some mode => .ok mode
  | none => .error (.viewMode upper)

/-- The direction that a word names in any ASCII letter case; `TD` is another name of `TB`. -/
def Direction.ofWord (word : String) : Except UnknownWord Direction :=
  let upper := Text.upperAscii word
  if upper == "TD" then .ok .topToBottom
  else match ofLabel? upper with
    | some direction => .ok direction
    | none => .error (.direction upper)

/-- What a diagram shows. The defaults of the members are those of options that nobody has given;
what a member says that is left out of given options stands apart from them, in
`Options.unwritten`. -/
structure Options where
  viewMode : ViewMode := .physical
  /-- If there are any, exactly these tables are shown. -/
  includeTables : List String := []
  /-- Without tables to include, these are left out. -/
  excludeTables : List String := []
  /-- Reserved: how far from the included tables relations are followed. -/
  relationDepth : Option UInt32 := none
  direction : Direction := .topToBottom
  showComments : Bool := true
  /-- Reserved: tables of one schema stand together. -/
  groupBySchema : Bool := false
  /-- Reserved: tables of one name stem stand together. -/
  tablePrefix : Option String := none
  /-- The dialect of the schema, for information. -/
  dialect : Option String := none
deriving DecidableEq, Repr, Inhabited

namespace Options

/-- The options with further tables to include. -/
def including (o : Options) (names : List String) : Options :=
  { o with includeTables := sortedNames (o.includeTables ++ names) }

/-- The options with further tables to exclude. -/
def excluding (o : Options) (names : List String) : Options :=
  { o with excludeTables := sortedNames (o.excludeTables ++ names) }

/-- Whether a table is shown. -/
def keeps (o : Options) (name : String) : Bool :=
  if o.includeTables.isEmpty then !o.excludeTables.contains name else o.includeTables.contains name

/-- The reserved options that are set. -/
def reservedInUse (o : Options) : List String :=
  (if o.relationDepth.isSome then ["relation_depth"] else [])
    ++ (if o.groupBySchema then ["group_by_schema"] else [])
    ++ (if o.tablePrefix.isSome then ["table_prefix"] else [])

/-- The options as an object. -/
def toJson (o : Options) : Json :=
  .obj [
    ("view_mode", .str o.viewMode.label),
    ("include_tables", ofStrings o.includeTables),
    ("exclude_tables", ofStrings o.excludeTables),
    ("relation_depth", ofOption ofUInt32 o.relationDepth),
    ("direction", .str o.direction.label),
    ("show_comments", .bool o.showComments),
    ("group_by_schema", .bool o.groupBySchema),
    ("table_prefix", ofOption .str o.tablePrefix),
    ("dialect", ofOption .str o.dialect)]

/-- What each member says where it is left out of options that are written down. -/
def unwritten : Options where
  viewMode := .standard
  includeTables := []
  excludeTables := []
  relationDepth := none
  direction := .standard
  showComments := true
  groupBySchema := false
  tablePrefix := none
  dialect := none

/-- Reads options. A member that is absent says what it says in `unwritten`. -/
def ofJson? (j : Json) : Option Options :=
  if j.isOptionalRecord then do
    let u := unwritten
    return {
      viewMode := ← j.memberOr "view_mode" (·.str?.bind ViewMode.ofLabel?) u.viewMode
      includeTables := sortedNames (← j.memberOr "include_tables" (list? str?) u.includeTables)
      excludeTables := sortedNames (← j.memberOr "exclude_tables" (list? str?) u.excludeTables)
      relationDepth := ← j.memberOr "relation_depth" (opt? uint32?) u.relationDepth
      direction := ← j.memberOr "direction" (·.str?.bind Direction.ofLabel?) u.direction
      showComments := ← j.memberOr "show_comments" bool? u.showComments
      groupBySchema := ← j.memberOr "group_by_schema" bool? u.groupBySchema
      tablePrefix := ← j.memberOr "table_prefix" (opt? str?) u.tablePrefix
      dialect := ← j.memberOr "dialect" (opt? str?) u.dialect }
  else none

end Options

end EntityDiagram.Diagram
