import EntityDiagram.Diagram.Options
import EntityDiagram.Relation.Json
import EntityDiagram.Sql.Dialect
import EntityDiagram.Toml.Basic

/-!
# `EntityDiagram.Settings.Basic`: what a user has set

`Settings` are the defaults of a project for reading, inference and diagrams. They are written as
a TOML table with a section for inference and one for diagrams, and every member of it may be left
out, be it a whole section or a single member inside of one.

There are two sets of defaults. Those of the structures hold where there is nothing to be read: for
settings without a file, and for a section that is absent. What a member says that is left out of a
section that is there is kept apart from them (`DiagramSettings.unwritten`,
`Relation.Config.unwritten`), as the reader of each member has a default of its own.
-/

set_option autoImplicit false

namespace EntityDiagram

/-- The dialect of a reader that is told none. -/
def Sql.Dialect.standard : Sql.Dialect := .auto

/-- The dialect of exactly this name. -/
def Sql.Dialect.ofLabel? : String → Option Sql.Dialect
  | "auto" => some .auto
  | "mysql" => some .mySql
  | "postgres" => some .postgres
  | "generic" => some .generic
  | _ => none

/-- What diagrams show unless they are asked for something else. -/
structure DiagramSettings where
  viewMode : Diagram.ViewMode := .standard
  direction : Diagram.Direction := .standard
  showComments : Bool := true
  /-- Tables that are left out of every diagram, as they are written. -/
  excludeTables : List String := []
deriving DecidableEq, Repr, Inhabited

/-- What a user has set. -/
structure Settings where
  dialect : Sql.Dialect := .standard
  diagram : DiagramSettings := {}
  inference : Relation.Config := {}
deriving DecidableEq, Repr, Inhabited

/-! ### Diagrams -/

namespace DiagramSettings

/-- The options of a diagram with these settings. -/
def options (s : DiagramSettings) : Diagram.Options where
  viewMode := s.viewMode
  direction := s.direction
  showComments := s.showComments
  excludeTables := sortedNames s.excludeTables

/-- The entries of the section. -/
def toEntries (s : DiagramSettings) : List (String × Toml) :=
  [("view_mode", .text s.viewMode.label),
   ("direction", .text s.direction.label),
   ("show_comments", .bool s.showComments),
   ("exclude_tables", .array (s.excludeTables.map .text))]

/-- What each member says where it is left out of a section that is there. -/
def unwritten : DiagramSettings where
  viewMode := .standard
  direction := .standard
  showComments := true
  excludeTables := []

/-- Reads the section. A member that is absent says what it says in `unwritten`. -/
def ofToml? (v : Toml) : Option DiagramSettings :=
  if v.isRecord then do
    let u := unwritten
    return {
      viewMode := ← v.memberOr 0 "view_mode" (Toml.choice? Diagram.ViewMode.ofLabel?) u.viewMode
      direction := ← v.memberOr 1 "direction" (Toml.choice? Diagram.Direction.ofLabel?) u.direction
      showComments := ← v.memberOr 2 "show_comments" Toml.bool? u.showComments
      excludeTables := ← v.memberOr 3 "exclude_tables" (Toml.list? Toml.text?) u.excludeTables }
  else none

/-- The section as an object. -/
def toJson (s : DiagramSettings) : Json :=
  .obj [
    ("view_mode", .str s.viewMode.label),
    ("direction", .str s.direction.label),
    ("show_comments", .bool s.showComments),
    ("exclude_tables", Json.ofStrings s.excludeTables)]

end DiagramSettings

/-! ### Inference -/

/-- The entries of the section. -/
def Relation.Config.toEntries (c : Relation.Config) : List (String × Toml) :=
  [("identify_junction_tables", .bool c.junctions),
   ("enable_naming_convention", .bool c.namingConvention),
   ("naming_convention_suffix", .text c.suffix)]

/-- Reads the section. A member that is absent says what it says in `unwritten`. -/
def Relation.Config.ofToml? (v : Toml) : Option Relation.Config :=
  if v.isRecord then do
    let u := unwritten
    return {
      junctions := ← v.memberOr 0 "identify_junction_tables" Toml.bool? u.junctions
      namingConvention := ← v.memberOr 1 "enable_naming_convention" Toml.bool? u.namingConvention
      suffix := ← v.memberOr 2 "naming_convention_suffix" Toml.text? u.suffix }
  else none

/-! ### All settings -/

namespace Settings

/-- The entries of the whole table. -/
def toEntries (s : Settings) : List (String × Toml) :=
  [("dialect", .text s.dialect.name),
   ("render", .table s.diagram.toEntries),
   ("inference", .table s.inference.toEntries)]

/-- Reads settings from a table. A section that is absent is that of settings which nobody has
given, and no member of it is read. -/
def ofToml? (v : Toml) : Option Settings :=
  if v.isRecord then do
    return {
      dialect := ← v.memberOr 0 "dialect" (Toml.choice? Sql.Dialect.ofLabel?) .standard
      diagram := ← v.memberOr 1 "render" DiagramSettings.ofToml? {}
      inference := ← v.memberOr 2 "inference" Relation.Config.ofToml? {} }
  else none

/-- The settings as an object. -/
def toJson (s : Settings) : Json :=
  .obj [
    ("dialect", .str s.dialect.name),
    ("render", s.diagram.toJson),
    ("inference", s.inference.toJson)]

end Settings

end EntityDiagram
