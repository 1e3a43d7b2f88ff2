import EntityDiagram.Ddl.Column
import EntityDiagram.Proofs.Excerpt.ColumnFront
import EntityDiagram.Proofs.Excerpt.Layout
import EntityDiagram.Proofs.Parsing.HeadWord

/-!
# `EntityDiagram.Proofs.Parsing.BareTable`: tables whose columns have unquoted names

A `BareTable` is a statement that creates a table, each of whose columns is an unquoted word and a
type. The words of its head may be in any letter case, and any white space may stand between all
parts. A name may be any word that does not open a constraint, be it a word of SQL.

`BareTable.schema` is the schema of a table with some of the columns. The two tolerant backends
leave columns out, by two different rules: `BareColumn.isNamed` and `BareColumn.startsConstraint`.

Neither rule is that of the language, in which many of these words may stand as names. What each
backend makes of such a table is told in `EntityDiagram.Proofs.Parsing.BareTable.Vendor` and
`EntityDiagram.Proofs.Parsing.BareTable.Regex`, and compared in
`EntityDiagram.Proofs.Parsing.ColumnNames`. The text of a table is `BareTable.text`: it takes the
white space between the parts as given, so that statements about it hold for every layout.
-/

set_option autoImplicit false

namespace EntityDiagram.Parsing

open Text (isSpace isWordChar eqIgnoreCase)
open Ddl (Gap Keyword PlainName isNameChar)
open Ddl.Token (startsAsciiWord)
open Excerpt (DottedName NamePart constraintWords)

/-! ### Words -/

/-- An unquoted ASCII word. -/
structure AsciiWord where
  first : Char
  rest : List Char
  starts : startsAsciiWord first = true
  isName : ∀ c ∈ rest, isNameChar c = true

namespace AsciiWord

/-- The characters of a word. -/
def chars (w : AsciiWord) : List Char := w.first :: w.rest

/-- The word as a string. -/
def text (w : AsciiWord) : String := String.ofList w.chars

/-- The characters of a word may all stand in a name. -/
theorem isNameChar (w : AsciiWord) : ∀ c ∈ w.chars, Ddl.isNameChar c = true := by
  intro c hc
  rcases List.mem_cons.1 hc with rfl | hc
  · exact Ddl.isNameChar_of_startsAsciiWord w.starts
  · exact w.isName c hc

end AsciiWord

/-! ### Columns -/

/-- A column: a word that does not open a constraint, and a type in upper case. -/
structure BareColumn where
  before : Gap
  name : AsciiWord
  notOpening : ∀ w ∈ constraintWords, eqIgnoreCase name.text w = false
  between : Break
  type : PlainName
  isTypeWord : ∀ c ∈ type.text.toList, isWordChar c = true
  after : Gap

namespace BareColumn

/-- The characters of a column without the white space around it. -/
def part (c : BareColumn) : List Char :=
  c.name.chars ++ (c.between.chars ++ c.type.text.toList)

/-- The characters of a column. -/
def chars (c : BareColumn) : List Char := c.before.chars ++ (c.part ++ c.after.chars)

/-- The column that is declared. -/
def column (c : BareColumn) : Column :=
  Ddl.columnOfType c.name.text (Sql.ColumnType.ofText c.type.text.toList)

/-- Whether the name is no keyword. -/
def isNamed (c : BareColumn) : Bool := (Keyword.ofWord? (Text.upperText c.name.text)).isNone

/-- Whether the name up to its first dollar sign is a word that opens a constraint. -/
def startsConstraint (c : BareColumn) : Bool :=
  constraintWords.any (eqIgnoreCase (String.ofList (c.name.chars.takeWhile isWordChar)))

end BareColumn

/-! ### Tables -/

/-- The words `IF NOT EXISTS`. -/
structure IfNotExists where
  ifWord : HeadWord "IF"
  not : HeadWord "NOT"
  exists_ : HeadWord "EXISTS"

/-- The characters of the words. -/
def IfNotExists.chars (i : IfNotExists) : List Char :=
  i.ifWord.chars ++ (i.not.chars ++ i.exists_.chars)

/-- Whether a part of a name is read as a name: it stands in backticks, or it is an unquoted word
and no keyword. -/
def ReadsAsName (p : NamePart) : Prop :=
  p.ticked = true ∨ (∀ c ∈ p.name.text.toList.head?, startsAsciiWord c = true) ∧
    Keyword.ofWord? (Text.upperText p.name.text) = none

/-- A statement that creates a table. -/
structure BareTable where
  start : Gap
  create : HeadWord "CREATE"
  temporary : Option (HeadWord "TEMPORARY")
  table : HeadWord "TABLE"
  ifNotExists : Option IfNotExists
  name : DottedName
  isName : ∀ p ∈ name.first :: name.more, ReadsAsName p
  afterName : Gap
  columns : List BareColumn
  ending : List Char
  isEnding : ∀ c ∈ ending, isSpace c = true ∨ c = ';'

namespace BareTable

variable (t : BareTable)

/-- The inside of the parentheses. -/
def body : List Char := Text.joinWith [','] (t.columns.map BareColumn.chars)

/-- The statement from the name of the table on. -/
def fromName : List Char :=
  t.name.chars ++ (t.afterName.chars ++ '(' :: (t.body ++ ')' :: t.ending))

/-- The statement from the word `TABLE` on. -/
def fromTable : List Char :=
  t.table.chars ++ (t.ifNotExists.elim [] IfNotExists.chars ++ t.fromName)

/-- The text of the statement. -/
def text : String :=
  String.ofList (t.start.chars ++ (t.create.chars ++
    (t.temporary.elim [] HeadWord.chars ++ t.fromTable)))

/-- The parts of the name of the table. -/
def names : List String := (t.name.first :: t.name.more).map fun p => p.name.text

/-- The schema that consists of the table with these columns. -/
def schema (dialect : Sql.Dialect) (columns : List BareColumn) : Schema where
  dbType := dialect.name
  schemaName := t.names.reverse[1]?
  tables := [{
    name := Ddl.lastPart t.names
    columns := columns.map BareColumn.column
    kind := some .base }]

end BareTable

/-- No column is marked as part of a key. -/
theorem BareColumn.filter_inPrimaryKey (cs : List BareColumn) :
    (cs.map column).filter (·.inPrimaryKey) = [] := by
  rw [List.filter_eq_nil_iff]
  intro column hcolumn
  obtain ⟨c, -, rfl⟩ := List.mem_map.1 hcolumn
  exact Bool.false_ne_true

/-! ### Characters -/

/-- A column consists of white space and characters of names. -/
theorem BareColumn.isNameChar_of_mem_chars (column : BareColumn) :
    ∀ c ∈ column.chars, isSpace c = true ∨ isNameChar c = true := by
  intro c hc
  simp only [chars, part, List.mem_append] at hc
  rcases hc with hc | (hc | hc | hc) | hc
  · exact .inl (column.before.isSpace c hc)
  · exact .inr (column.name.isNameChar c hc)
  · exact .inl (column.between.isSpace c hc)
  · exact .inr (Ddl.isNameChar_of_isPlain (Text.forall_isPlain column.type.isPlain c hc))
  · exact .inl (column.after.isSpace c hc)

namespace BareTable

variable (t : BareTable)

/-- A name consists of characters of names, backticks and dots. -/
theorem isNameChar_of_mem_name : ∀ c ∈ t.name.chars, isNameChar c = true ∨ c ∈ ['`', '.'] := by
  -- A part is its name alone or its name between two marks, and dots stand between the parts.
  have hpart (p : NamePart) : ∀ c ∈ p.chars, isNameChar c = true ∨ c ∈ ['`', '.'] := by
    intro c hc
    rw [NamePart.chars] at hc
    split at hc
    · simp only [List.mem_cons, List.mem_append, List.not_mem_nil, or_false] at hc
      rcases hc with rfl | hc | rfl
      · simp
      · exact .inl (p.name.isNameChar c hc)
      · simp
    · exact .inl (p.name.isNameChar c hc)
  intro c hc
  rw [DottedName.chars, List.mem_append, List.mem_flatMap] at hc
  rcases hc with hc | ⟨p, -, hc⟩
  · exact hpart _ c hc
  · rcases List.mem_cons.1 hc with rfl | hc
    · simp
    · exact hpart p c hc

/-- The inside of the parentheses consists of white space, characters of names and commas. -/
theorem isNameChar_of_mem_body :
    ∀ c ∈ t.body, isSpace c = true ∨ isNameChar c = true ∨ c = ',' := by
  intro c hc
  rcases Text.mem_joinWith hc with hcomma | ⟨x, hx, hc⟩
  · exact .inr (.inr (List.mem_singleton.1 hcomma))
  · obtain ⟨column, -, rfl⟩ := List.mem_map.1 hx
    exact (column.isNameChar_of_mem_chars c hc).imp_right .inl

/-- What a statement consists of. -/
theorem isNameChar_of_mem_text : ∀ c ∈ t.text.toList,
    isSpace c = true ∨ isNameChar c = true ∨ c ∈ ['`', '.', '(', ',', ')', ';'] := by
  intro c hc
  have word {w : String} (h : HeadWord w) (hc : c ∈ h.chars) : isSpace c = true ∨
      isNameChar c = true ∨ c ∈ ['`', '.', '(', ',', ')', ';'] :=
    (h.isNameChar_of_mem_chars c hc).imp_right .inl
  rw [text, String.toList_ofList, fromTable, fromName] at hc
  simp only [List.mem_append, List.mem_cons] at hc
  -- In the order in which the statement is written.
  rcases hc with hc | hc | hc | hc | hc | hc | hc | rfl | hc | rfl | hc
  · exact .inl (t.start.isSpace c hc)
  · exact word _ hc
  · cases htemporary : t.temporary with
    | none => simp [htemporary] at hc
    | some w => exact word w (by simpa [htemporary] using hc)
  · exact word _ hc
  · cases hif : t.ifNotExists with
    | none => simp [hif] at hc
    | some i =>
        rw [hif, Option.elim, IfNotExists.chars, List.mem_append, List.mem_append] at hc
        rcases hc with hc | hc | hc <;> exact word _ hc
  · rcases t.isNameChar_of_mem_name c hc with h | h
    · exact .inr (.inl h)
    · simp only [List.mem_cons, List.not_mem_nil, or_false] at h
      rcases h with rfl | rfl <;> simp
  · exact .inl (t.afterName.isSpace c hc)
  · simp
  · rcases t.isNameChar_of_mem_body c hc with h | h | rfl
    · exact .inl h
    · exact .inr (.inl h)
    · simp
  · simp
  · rcases t.isEnding c hc with h | rfl
    · exact .inl h
    · simp

end BareTable

end EntityDiagram.Parsing
