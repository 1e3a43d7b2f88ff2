import EntityDiagram.Json.Basic
import EntityDiagram.Relation.Inference

/-!
# `EntityDiagram.Relation.Json`: inference settings and summaries as JSON

Every member of the settings may be left out. What it says then is written down here
(`Config.unwritten`), apart from the defaults of `Config`, which hold where there are no settings at
all.
-/

set_option autoImplicit false

namespace EntityDiagram.Relation

open Json

/-- The settings as an object. -/
def Config.toJson (c : Config) : Json :=
  .obj [
    ("identify_junction_tables", .bool c.junctions),
    ("enable_naming_convention", .bool c.namingConvention),
    ("naming_convention_suffix", .str c.suffix)]

/-- What each member says where it is left out of settings that are written down, in whatever
notation. -/
def Config.unwritten : Config where
  junctions := true
  namingConvention := false
  suffix := usualSuffix

/-- Reads the settings. A member that is absent says what it says in `unwritten`. -/
def Config.ofJson? (j : Json) : Option Config :=
  if j.isOptionalRecord then do
    let u := unwritten
    return {
      junctions := ← j.memberOr "identify_junction_tables" bool? u.junctions
      namingConvention := ← j.memberOr "enable_naming_convention" bool? u.namingConvention
      suffix := ← j.memberOr "naming_convention_suffix" str? u.suffix }
  else none

/-- A summary as an object. -/
def Summary.toJson (s : Summary) : Json :=
  .obj [
    ("one_to_one", ofNat s.oneToOne),
    ("one_to_many", ofNat s.oneToMany),
    ("many_to_many", ofNat s.manyToMany),
    ("junction_tables", ofNat s.junctionTables),
    ("implicit_foreign_keys", ofNat s.impliedKeys)]

end EntityDiagram.Relation
