import EntityDiagram.Text.CodeRange
import EntityDiagram.Toml.Basic

/-!
# `EntityDiagram.Toml.Format`: what a user of documents relies on

A `Format` reads documents as tables and writes tables as documents. Settings are kept in a file by
way of one, and nothing about them depends on how it spells a document. What they rely on is that a
document which was written is read back as the table that it was written for: `Format.Lawful` says
so of the tables whose entries are simple values, or sections of such.
-/

set_option autoImplicit false

namespace EntityDiagram.Toml

/-- A way to read documents, and to write the entries of a table as one. -/
structure Format where
  /-- The table of a document, unless the document is malformed. -/
  read : String → Option Toml
  /-- The document of a table with these entries. -/
  write : List (String × Toml) → String

/-! ### Documents with a line for each entry -/

/-- A text, a truth value or an array of texts. -/
inductive IsSimple : Toml → Prop where
  | text (s : String) : IsSimple (.text s)
  | bool (b : Bool) : IsSimple (.bool b)
  | texts (items : List String) : IsSimple (.array (items.map .text))

/-- Whether a key may stand without quotes: it is a word of ASCII letters, digits, hyphens and
underscores. -/
def isBareKey (key : String) : Bool :=
  !key.isEmpty && key.toList.all fun c =>
    Text.isAsciiLetter c || Text.isAsciiDigit c || c == '-' || c == '_'

/-- The entries of a table of which each is written on a line of its own: their keys are bare and
differ, and their values are simple. -/
structure IsSimpleTable (entries : List (String × Toml)) : Prop where
  bare : ∀ e ∈ entries, isBareKey e.1 = true
  simple : ∀ e ∈ entries, IsSimple e.2
  nodup : (entries.map Prod.fst).Nodup

/-- Entries and sections that are written with a line for each entry. No section has the name of an
entry or of another section. -/
structure IsSimpleDocument (entries : List (String × Toml))
    (sections : List (String × List (String × Toml))) : Prop where
  table : IsSimpleTable entries
  bare : ∀ s ∈ sections, isBareKey s.1 = true
  inner : ∀ s ∈ sections, IsSimpleTable s.2
  nodup : (entries.map Prod.fst ++ sections.map Prod.fst).Nodup

/-- The entries of a document: its plain entries and then one for each section. -/
def withSections (entries : List (String × Toml))
    (sections : List (String × List (String × Toml))) : List (String × Toml) :=
  entries ++ sections.map fun s => (s.1, .table s.2)

/-- Whether documents are read as they were written. This is all that is asked of a format, and it
is asked only where there is a line for each entry. -/
def Format.Lawful (f : Format) : Prop :=
  ∀ entries sections, IsSimpleDocument entries sections →
    f.read (f.write (withSections entries sections)) = some (.table (withSections entries sections))

end EntityDiagram.Toml
