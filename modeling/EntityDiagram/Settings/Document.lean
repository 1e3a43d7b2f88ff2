import EntityDiagram.Settings.Basic
import EntityDiagram.Toml.Format

/-!
# `EntityDiagram.Settings.Document`: settings as the text of a file

Settings are read from a TOML document and written as one. The format is a parameter here, as the
grammar is one of the strict backend: what settings mean does not depend on how a document is
spelled.
-/

set_option autoImplicit false

namespace EntityDiagram.Settings

/-- Reads settings from a document. -/
def ofText? (f : Toml.Format) (document : String) : Option Settings :=
  (f.read document).bind ofToml?

/-- The settings as a document. -/
def toText (f : Toml.Format) (s : Settings) : String := f.write s.toEntries

end EntityDiagram.Settings
