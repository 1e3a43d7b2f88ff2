import EntityDiagram.Proofs.Parsing.BareTable.Regex
import EntityDiagram.Proofs.Parsing.BareTable.Vendor
import EntityDiagram.Proofs.Parsing.Fallback

/-!
# `EntityDiagram.Proofs.Parsing.ColumnNames`: which columns the tolerant backends keep

Of a table whose columns have unquoted names, the vendor backend keeps the columns whose names are
no keywords, and the regex backend those whose names do not start with a word that opens a
constraint, each in the order in which they are declared: `vendor_read_text`, `regex_read_text`. A
table comes out whole exactly if the rule spares all its columns: `schema_filter_eq_iff`.

The vendor backend hands the name of the table on in double quotes, the regex backend as it is
written. Both name the same table and schema: `objectName_chars`, `schemaPart_quoteParts`.

Both rules depend on the name alone, and not on the type, the place of the column or the other
columns, so that what is left of a table is a filter of its columns. The last part of the module is
a table with a column `view`, of which the vendor backend keeps only the other column, while the
regex backend keeps both: a table of two columns that is read as a table of one.
-/

set_option autoImplicit false

namespace EntityDiagram.Parsing

open Ddl (TableReading)
open Excerpt (DottedName NamePart)

/-! ### Names of tables -/

/-- A name is its parts with dots between them. -/
theorem chars_eq_joinWith (name : DottedName) :
    name.chars = Text.joinWith ['.'] ((name.first :: name.more).map NamePart.chars) := by
  obtain ⟨first, more⟩ := name
  rw [DottedName.chars]
  induction more generalizing first with
  | nil => simp [Text.joinWith_singleton]
  | cons next more ih =>
      rw [List.flatMap_cons, List.map_cons, List.map_cons, Text.joinWith_cons_cons, ← List.map_cons,
        ← ih]
      rfl

/-- A part of a name is one segment and names what it is called. -/
theorem namePart_facts (p : NamePart) : Sql.IsChunk p.chars ∧
    (∀ c ∈ p.chars, Text.isSpace c = false) ∧ Sql.bareName p.chars = p.name.text.toList := by
  have hchars := fun c hc => Ddl.isNameChar_facts (p.name.isNameChar c hc)
  have hmark : '`' ∉ p.name.text.toList := fun hmem => absurd (hchars _ hmem).2.1 (by decide)
  -- A part in quotes is one chunk because of them, and one without quotes because none of its
  -- characters could end it.
  refine ⟨?_, fun c hc => (Excerpt.isQualifiedChar_facts (p.facts.2.2 c hc)).1, ?_⟩
  · rw [NamePart.chars]
    split
    · exact Sql.isChunk_quoted (by decide) hmark
    · refine Sql.isChunk_of_notMem fun c hc hmem => ?_
      have hname := p.name.isNameChar c hc
      simp only [List.mem_cons, List.not_mem_nil, or_false] at hmem
      rcases hmem with rfl | rfl | rfl | rfl <;> exact absurd hname (by decide)
  · rw [NamePart.chars]
    split
    · exact Sql.bareName_quoted (by decide) fun c hc => (hchars c hc).2.1
    · exact Sql.bareName_unquoted fun c hc => ⟨(hchars c hc).1, (hchars c hc).2.1⟩

namespace BareTable

variable (t : BareTable)

/-- The name as it is written names the table and its schema. -/
theorem objectName_chars : Sql.objectName (String.ofList t.name.chars) = Ddl.lastPart t.names ∧
    Sql.schemaPart (String.ofList t.name.chars) = t.names.reverse[1]? := by
  rw [chars_eq_joinWith]
  exact ⟨Sql.objectName_joinWith (by simp) (fun p _ => (namePart_facts p).1)
      (fun p _ => (namePart_facts p).2.1) fun p _ => (namePart_facts p).2.2,
    Sql.schemaPart_joinWith (by simp) (fun p _ => (namePart_facts p).1)
      (fun p _ => (namePart_facts p).2.1) fun p _ => (namePart_facts p).2.2⟩

/-- In double quotes the name names the same schema. -/
theorem schemaPart_quoteParts : Sql.schemaPart (Sql.quoteParts t.names) = t.names.reverse[1]? := by
  refine Sql.schemaPart_quoteParts (by simp [names]) fun n hn c hc => ?_
  obtain ⟨p, -, rfl⟩ := List.mem_map.1 hn
  exact (Ddl.isNameChar_facts (p.name.isNameChar c hc)).2.1

/-! ### Schemas -/

/-- A table with some of its columns is the whole table exactly if these are all of them. -/
theorem schema_filter_eq_iff (dialect : Sql.Dialect) (p : BareColumn → Bool) :
    t.schema dialect (t.columns.filter p) = t.schema dialect t.columns ↔
      ∀ c ∈ t.columns, p c = true := by
  constructor
  · intro h
    have hcolumns :
        (t.columns.filter p).map BareColumn.column = t.columns.map BareColumn.column := by
      simpa [schema] using h
    have hlength := congrArg List.length hcolumns
    rw [List.length_map, List.length_map] at hlength
    exact List.filter_eq_self.1 ((List.filter_sublist).eq_of_length hlength)
  · intro h
    rw [List.filter_eq_self.2 h]

/-- A step that adds the table under one of these names makes its schema. The two backends write the
name differently, which is why it is left open here. -/
theorem assemble_step (dialect : Sql.Dialect) (warnings : List String) {qualified : String}
    (h : Sql.schemaPart qualified = t.names.reverse[1]?) (columns : List BareColumn) :
    assemble dialect (warnings.map .warn ++ [.addTable qualified
      { name := Ddl.lastPart t.names, columns := columns.map BareColumn.column }]) =
        (t.schema dialect columns, warnings) := by
  have hfirst : [qualified].findSome? Sql.schemaPart = t.names.reverse[1]? := by
    rw [List.findSome?_singleton, h]
  have hassemble := assemble_addTables dialect warnings (fun _ => qualified)
    (fun t : BareTable =>
      { name := Ddl.lastPart t.names, columns := columns.map BareColumn.column }) [t]
  rw [List.map_singleton, List.map_singleton, List.map_singleton, hfirst] at hassemble
  exact hassemble

/-- The vendor backend keeps the columns whose names are no keywords. -/
theorem vendor_read_text (grammar : Grammar) (dialect : Sql.Dialect) :
    Backend.vendor.read grammar dialect t.text =
      .ok (t.schema dialect (t.columns.filter (·.isNamed)), []) := by
  have hsteps : Backend.vendor.steps grammar dialect t.text = .ok [t.step] := by
    rw [Backend.steps, t.ddlScript_text]
  -- None of the columns is flagged, so no key is made of them.
  have htable : t.reading.toTable (Ddl.lastPart t.names) =
      { name := Ddl.lastPart t.names
        columns := (t.columns.filter (·.isNamed)).map BareColumn.column } := by
    rw [t.reading_eq, TableReading.toTable, TableReading.key?]
    dsimp only
    rw [BareColumn.filter_inPrimaryKey]
    rfl
  have hassemble := t.assemble_step dialect [] t.schemaPart_quoteParts
    (t.columns.filter (·.isNamed))
  rw [Backend.read_of_steps hsteps (by simp [addedTables, step, Step.table?]), step, htable]
  exact congrArg Except.ok hassemble

/-- The regex backend keeps the columns whose names start with no word that opens a constraint. It
does not know keywords apart from those. -/
theorem regex_read_text (grammar : Grammar) (dialect : Sql.Dialect) :
    Backend.regex.read grammar dialect t.text =
      .ok (t.schema dialect (t.columns.filter (!·.startsConstraint)),
        ["Regex fallback may miss dialect-specific syntax"]) := by
  have hsteps : Backend.regex.steps grammar dialect t.text = .ok (Excerpt.script t.text) := rfl
  rw [t.excerptScript_text] at hsteps
  have hassemble := t.assemble_step dialect ["Regex fallback may miss dialect-specific syntax"]
    t.objectName_chars.2 (t.columns.filter (!·.startsConstraint))
  rw [Backend.read_of_steps hsteps (by simp [addedTables, Step.table?]), t.toTable_raw,
    t.objectName_chars.1]
  exact congrArg Except.ok hassemble

/-- Each backend keeps the columns that its rule spares, in order, so it keeps all of them exactly
if the rule spares them all. -/
theorem read_unquoted_columns (grammar : Grammar) (dialect : Sql.Dialect) :
    let warning := "Regex fallback may miss dialect-specific syntax"
    Backend.vendor.read grammar dialect t.text =
        .ok (t.schema dialect (t.columns.filter (·.isNamed)), []) ∧
      Backend.regex.read grammar dialect t.text =
        .ok (t.schema dialect (t.columns.filter (!·.startsConstraint)), [warning]) ∧
      (Backend.vendor.read grammar dialect t.text = .ok (t.schema dialect t.columns, []) ↔
        ∀ c ∈ t.columns, c.isNamed = true) ∧
      (Backend.regex.read grammar dialect t.text = .ok (t.schema dialect t.columns, [warning]) ↔
        ∀ c ∈ t.columns, c.startsConstraint = false) := by
  have hvendor := t.vendor_read_text grammar dialect
  have hregex := t.regex_read_text grammar dialect
  -- Both answers are known, so each equivalence is one about two lists of columns.
  refine ⟨hvendor, hregex, ?_, ?_⟩
  · rw [hvendor, ← t.schema_filter_eq_iff dialect]
    simp
  · have hspares := t.schema_filter_eq_iff dialect (!·.startsConstraint)
    simp only [Bool.not_eq_true'] at hspares
    rw [hregex, ← hspares]
    simp

end BareTable

/-! ### A column called `view` -/

/-- A single space. -/
def exampleBreak : Break := ⟨⟨[' '], Text.forall_mem_of_all (by decide)⟩, by decide⟩

/-- A column of the type `INT`. -/
def exampleColumn (before : Ddl.Gap) (name : AsciiWord)
    (h : Excerpt.constraintWords.all (fun w => !Text.eqIgnoreCase name.text w) = true) :
    BareColumn where
  before := before
  name := name
  notOpening := fun w hw => Bool.not_eq_true' _ ▸ List.all_eq_true.1 h w hw
  between := exampleBreak
  type := .ofWord "INT" (by decide)
  isTypeWord := Text.forall_mem_of_all (by decide)
  after := .none

/-- `CREATE TABLE t (view INT, b INT);` -/
def exampleTable : BareTable where
  start := .none
  create := { text := "CREATE", spells := by decide, behind := exampleBreak }
  temporary := none
  table := { text := "TABLE", spells := by decide, behind := exampleBreak }
  ifNotExists := none
  name := .ofWord "t" (by decide)
  isName := by
    intro p hp
    obtain rfl := List.mem_singleton.1 hp
    exact .inr ⟨by rintro c ⟨⟩; decide, by decide⟩
  afterName := exampleBreak.toGap
  columns := [
    exampleColumn .none
      ⟨'v', ['i', 'e', 'w'], by decide, Text.forall_mem_of_all (by decide)⟩ (by decide),
    exampleColumn exampleBreak.toGap ⟨'b', [], by decide, List.forall_mem_nil _⟩ (by decide)]
  ending := [';']
  isEnding := List.forall_mem_singleton.2 (.inr rfl)

/-- The names of the columns that a backend reads. -/
def columnsRead (b : Backend) (sql : String) : Option (List String) :=
  (b.read (fun _ _ => .ok []) .mySql sql).toOption.map fun read =>
    read.1.tables.flatMap Table.columnNames

/-- The vendor backend drops a column whose name is a keyword, and the regex backend keeps it. This
is how the two backends differ on the same text. -/
theorem columnsRead_exampleTable :
    exampleTable.text = "CREATE TABLE t (view INT, b INT);" ∧
      columnsRead .vendor exampleTable.text = some ["b"] ∧
      columnsRead .regex exampleTable.text = some ["view", "b"] := by
  decide +kernel

end EntityDiagram.Parsing
