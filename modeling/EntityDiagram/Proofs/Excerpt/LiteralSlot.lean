import EntityDiagram.Parsing.Backend
import EntityDiagram.Proofs.Excerpt.Addition
import EntityDiagram.Proofs.Excerpt.OpenBody
import EntityDiagram.Proofs.Parsing.Fallback

/-!
# `EntityDiagram.Proofs.Excerpt.LiteralSlot`: what a literal holds is the value of its option

A `LiteralSlot` is a script that is left open where the literal of a `COMMENT` or a `DEFAULT` stands
in the definition of a column. `LiteralSlot.exists_read_text` says that whatever text is put there,
the script is read as the same schema but for the value of that option in that column.

The literal has to hide its text, though (`LiteralSlot.Hides`). A search for the value of the other
option looks into it, and so does the search for additions to tables: a comment with the word
`DEFAULT` in it can give its column a default value (`read_text_exampleDefault`), and one with the
words of an `ALTER TABLE` can add a key.

Additions are found statement by statement (`exists_additionsAt`), so those outside of the statement
with the literal are found as they are without it.

* `LiteralSlot.exists_addPart`, `LiteralSlot.exists_toTable`, `LiteralSlot.exists_script`: the
  column, its table and the steps of the script are the same but for the value.
-/

set_option autoImplicit false

namespace EntityDiagram.Excerpt

open Text (isSpace isWordChar Pattern Place Span doubleQuotes)
open Text.Pattern
open Sql (Nesting piecesFrom splitTopLevel)

/-! ### Tables -/

/-- A value of an option means nothing to keys. -/
theorem keyBlind_set (o : ValueOption) (v : String) : KeyBlind (o.set v) := by
  cases o <;> exact ⟨fun _ => rfl, fun _ => rfl, fun _ => rfl⟩

/-- A table that has been read part by part, with its key. -/
def withKey (read : Table × Option PrimaryKey) : Table :=
  let names := (read.1.columns.filter (·.inPrimaryKey)).map (·.name)
  match read.2 with
  | some key => read.1.markPrimaryKey key
  | none => if names.isEmpty then read.1 else read.1.markPrimaryKey { columns := names }

/-- A table that has been cut out is read part by part. -/
theorem toTable_eq_withKey (raw : RawTable) : raw.toTable =
    withKey ((splitTopLevel raw.body.toList).foldl addPart
      ({ name := Sql.objectName raw.qualifiedName, comment := raw.comment }, none)) := rfl

/-- The key is the same if a column differs in what means nothing to keys. -/
theorem withKey_modifyColumn {f : Column → Column} (hf : KeyBlind f) (j : Nat) (t : Table)
    (key : Option PrimaryKey) :
    withKey (t.modifyColumn j f, key) = (withKey (t, key)).modifyColumn j f := by
  cases key with
  | some key => exact hf.markPrimaryKey_modifyColumn j t key
  | none =>
      have hnames : (((t.modifyColumn j f).columns.filter (·.inPrimaryKey)).map (·.name)) =
          (t.columns.filter (·.inPrimaryKey)).map (·.name) := hf.keyNames_modify t.columns j
      rw [withKey, withKey]
      dsimp only
      rw [hnames]
      split
      · rfl
      · exact hf.markPrimaryKey_modifyColumn j t _

/-- The key renames no column. -/
theorem columnNames_withKey (read : Table × Option PrimaryKey) :
    (withKey read).columnNames = read.1.columnNames := by
  obtain ⟨t, _ | key⟩ := read
  · rw [withKey]
    dsimp only
    split
    · rfl
    · exact Table.columnNames_markPrimaryKey t _
  · exact Table.columnNames_markPrimaryKey t key

/-! ### Scripts with a literal -/

/-- A script that is open at a literal: the value of an option of a column in the definition of a
table. -/
structure LiteralSlot where
  option : ValueOption
  /-- The script in front of the literal. -/
  before : List Char
  /-- The script behind it. -/
  after : List Char
  /-- The body of the table up to the literal. -/
  body : List Char
  /-- The column up to the literal. -/
  part : List Char
  /-- The name of the column as it is written. -/
  name : String
  /-- What follows the name up to the literal. -/
  definition : List Char
  /-- What follows the type up to the literal. -/
  options : List Char
  /-- The literal stands in no comment. -/
  code : modeAfter .code before = .code
  /-- The literal ends where it seems to. -/
  ends : after.head? ≠ some '\''
  opens : Opens (.start (stripComments before)) body
  /-- The body is closed behind the literal. -/
  closes : (closeGroup {} (stripComments after)).isSome = true
  splits : (piecesFrom {} body).getLast?.map Text.trimStart = some part
  /-- The column does not start like a constraint. -/
  starts : constraintWord.occursIn part = false
  cuts : (columnHead.matchAt? (.start part)).map (fun m => (m.1.text, Text.trimStart m.2.rest)) =
    some (name, definition)
  types : (cutType? definition).map Prod.snd = some options
  awaits : option.Awaits options
  /-- Nothing is being added to a table in front of the literal. -/
  quiet : addLead.occursIn (lastStatement (stripComments before)) = false

namespace LiteralSlot

/-- The script with a literal that holds `c`. -/
def text (x : LiteralSlot) (c : List Char) : String :=
  String.ofList (x.before ++ (Sql.quoted c ++ x.after))

/-- The literal hides what it holds: it has no mark of the other option, unless a value of that
option stands in front of it, and nothing in it starts an addition to a table. -/
def Hides (x : LiteralSlot) (c : List Char) : Prop :=
  x.option.other.Overlooks x.options c ∧ addLead.occursIn (Sql.quoted c) = false

/-- A search of a pattern can be computed. -/
instance (x : LiteralSlot) (c : List Char) : Decidable (x.Hides c) :=
  inferInstanceAs (Decidable (_ ∧ _))

variable (x : LiteralSlot)

/-- The column is read as it would be without the literal, with the text of the literal as the
value of the option. -/
theorem exists_addPart {q : List Char} (hq : q.head? ≠ some '\'') (table : String) :
    ∃ reading : ColumnReading, reading.column.name = Sql.objectName x.name ∧
      ∀ c, x.option.other.Overlooks x.options c → ∀ t : Table, t.name = table → ∀ key,
        addPart (t, key) (x.part ++ (Sql.quoted c ++ q)) =
          ({ t with
              columns := t.columns ++ [x.option.set (String.ofList c) reading.column]
              indexes := t.indexes ++ reading.index.toList
              foreignKeys := t.foreignKeys ++ reading.foreignKey.toList }, key) := by
  obtain ⟨⟨name, there⟩, hmatch, heq⟩ := Option.map_eq_some_iff.1 x.cuts
  obtain ⟨hname, hdefinition⟩ := Prod.mk.inj heq
  obtain ⟨⟨declared, options⟩, hcut, rfl⟩ := Option.map_eq_some_iff.1 x.types
  have hhead : First columnHead (.start x.part) name there := hmatch
  have hword : Fails constraintWord (.start x.part) := fails_of_occursIn x.starts
  have hend : (Text.trimEnd q).head? ≠ some '\'' := fun h => hq (head?_of_trimEnd _ h)
  obtain ⟨reading, hreading, hcolumn⟩ :=
    exists_column? hcut x.awaits hend table (Sql.objectName x.name)
  refine ⟨reading, hreading, fun c hc t ht key => ?_⟩
  -- What decides about the part stands in front of the literal.
  have hwordQuoted : Fails constraintWord (.start (x.part ++ (Sql.quoted c ++ q))) := by
    rw [quoted_append]
    exact (carries_constraintWord _).fails hword
  obtain ⟨rest, hclause, hrest⟩ : ∃ rest,
      columnClause.find? (x.part ++ (Sql.quoted c ++ q)) =
        some (name.extend (Sql.quoted c ++ q), rest) ∧
      rest.chars = there.rest ++ (Sql.quoted c ++ q) := by
    rw [quoted_append]
    exact find?_columnClause_of_first ((carries_columnHead _).first hhead)
      (by simp [Place.extend])
  have htrim : Text.trim rest.chars = x.definition ++ (Sql.quoted c ++ Text.trimEnd q) := by
    rw [hrest, trim_append_quoted, hdefinition]
  have hname' : nameOf (name.extend (Sql.quoted c ++ q)) = Sql.objectName x.name := by
    rw [nameOf, Span.text, Span.chars_extend, ← hname, Span.text]
  have hread : column? t.name (nameOf (name.extend (Sql.quoted c ++ q))) (Text.trim rest.chars) =
      some { reading with column := x.option.set (String.ofList c) reading.column } := by
    rw [htrim, hname', ht]
    exact hcolumn c hc
  exact addPart_column hwordQuoted hclause hread

/-- The table that is cut out is the one that it would be without the literal, but for the value of
the option. -/
theorem exists_toTable {inside : List Char} (hinside : inside.head? ≠ some '\'')
    (qualified : String) (comment : Option String) :
    ∃ (t : Table) (j : Nat), t.columnNames[j]? = some (Sql.objectName x.name) ∧
      ∀ c, x.option.other.Overlooks x.options c →
        RawTable.toTable ⟨qualified, String.ofList (x.body ++ (Sql.quoted c ++ inside)), comment⟩ =
          t.modifyColumn j (x.option.set (String.ofList c)) := by
  obtain ⟨last, hlast, hpart⟩ := Option.map_eq_some_iff.1 x.splits
  obtain ⟨earlier, later, q, hq, hsplit⟩ :=
    exists_splitTopLevel hlast x.opens.foldl_eq hinside
  rw [hpart] at hsplit
  obtain ⟨reading, hname, hread⟩ := x.exists_addPart hq (Sql.objectName qualified)
  -- The parts in front of the literal are read once and for all.
  obtain ⟨⟨t, key⟩, hfront⟩ : ∃ read, read = earlier.foldl addPart
    ({ name := Sql.objectName qualified, comment := comment }, none) := ⟨_, rfl⟩
  have ht : t.name = Sql.objectName qualified := by
    have hgrows := (foldl_addPart_grows
      ({ name := Sql.objectName qualified, comment := comment }, none) earlier).1
    rwa [← hfront] at hgrows
  let u : Table := { t with
    columns := t.columns ++ [reading.column]
    indexes := t.indexes ++ reading.index.toList
    foreignKeys := t.foreignKeys ++ reading.foreignKey.toList }
  have hlt : t.columns.length < u.columns.length := by simp [u]
  refine ⟨withKey (later.foldl addPart (u, key)), t.columns.length, ?_, fun c hc => ?_⟩
  · obtain ⟨more, hmore⟩ := (foldl_addPart_grows (u, key) later).2
    rw [columnNames_withKey, Table.columnNames, ← hmore]
    simp [u, hname]
  · have hset : { t with
        columns := t.columns ++ [x.option.set (String.ofList c) reading.column]
        indexes := t.indexes ++ reading.index.toList
        foreignKeys := t.foreignKeys ++ reading.foreignKey.toList } =
          u.modifyColumn t.columns.length (x.option.set (String.ofList c)) := by
      rw [Table.modifyColumn, modify_append_length]
    rw [toTable_eq_withKey, String.toList_ofList, hsplit, List.foldl_append, List.foldl_cons,
      ← hfront, hread c hc t ht, hset, foldl_addPart_modifyColumn _ hlt,
      withKey_modifyColumn (keyBlind_set _ _)]

/-- Without comments, the script is the text around the literal without comments. -/
theorem stripComments_text (c : List Char) : stripComments (x.text c).toList =
    stripComments x.before ++ (Sql.quoted c ++ stripComments x.after) := by
  have hquote : ∀ d ∈ (Sql.quoted c ++ x.after).head?, d = '\'' := by
    intro d hd
    rw [quoted_append] at hd
    exact (Option.some.inj hd).symm
  rw [text, String.toList_ofList, stripComments, stripFrom_append fun d _ e he => ?_, x.code,
    stripFrom_quoted]
  · rfl
  · obtain rfl := hquote e he
    exact not_opensComment_of_right (by decide) d

/-- The steps of the script differ in the value of the option alone. -/
theorem exists_script : ∃ (steps more : List Step) (qualified : String) (t : Table) (j : Nat),
    t.columnNames[j]? = some (Sql.objectName x.name) ∧ ∀ c, x.Hides c → script (x.text c) =
      steps ++ .addTable qualified (t.modifyColumn j (x.option.set (String.ofList c))) :: more := by
  obtain ⟨⟨inside, tail⟩, hcloses⟩ := Option.isSome_iff_exists.1 x.closes
  have hback : (stripComments x.after).head? ≠ some '\'' := by
    intro h
    rcases mem_head?_stripFrom h with h | h
    · exact x.ends h
    · exact absurd h (by decide)
  have hinside : inside.head? ≠ some '\'' := by
    intro h
    obtain ⟨s, rfl⟩ := List.head?_eq_some_iff.1 h
    rw [eq_of_closeGroup hcloses] at hback
    exact hback rfl
  -- The tables in front of this one and behind it are cut out alike, whatever the literal holds.
  obtain ⟨earlier, qualified, hscan⟩ := x.opens.exists_scanAt
  obtain ⟨t, j, hj, ht⟩ := x.exists_toTable hinside qualified (commentIn tail)
  obtain ⟨added, hadded⟩ := exists_additionsAt x.quiet (stripComments x.after)
  have hclosed (c : List Char) : closeGroup {} (Sql.quoted c ++ stripComments x.after) =
      some (Sql.quoted c ++ inside, tail) := by
    rw [((inert_quoted c).staysOpen 0).closeGroup_append, hcloses]
    rfl
  have hfound (c : List Char) := hscan (Sql.quoted c ++ stripComments x.after) _ tail
    (by rw [quoted_append]; rfl) (hclosed c)
  refine ⟨.warn "Regex fallback may miss dialect-specific syntax" ::
      earlier.map fun raw => .addTable raw.qualifiedName raw.toTable,
    ((scanAt ⟨some ')', tail⟩).tables.map fun raw => .addTable raw.qualifiedName raw.toTable) ++
      ((scanAt ⟨some ')', tail⟩).unterminated.map fun name =>
        .warn ("Unterminated CREATE TABLE " ++ name ++ " skipped")) ++ added,
    qualified, t, j, hj, fun c hc => ?_⟩
  have hscan' : scan (x.text c) = scanAt (Place.extend (Sql.quoted c ++ stripComments x.after)
      (.start (stripComments x.before))) := by
    rw [scan_eq_scanAt, x.stripComments_text]
    rfl
  rw [script, hscan', hfound c, additions_eq, x.stripComments_text, hadded c hc.2]
  dsimp only
  rw [List.map_append, List.map_cons, ht c hc.1]
  simp

/-- What a literal holds is the value of its option and nothing else: scripts with different
literals make the same schema, but for the value of the option in one column, and give the same
warnings. -/
theorem exists_read_text (grammar : Parsing.Grammar) (dialect : Sql.Dialect) :
    ∃ (schema : Schema) (warnings : List String) (i j : Nat),
      (∃ t column, schema.tables[i]? = some t ∧ t.columns[j]? = some column ∧
        column.name = Sql.objectName x.name) ∧
      ∀ c, x.Hides c → Parsing.Backend.regex.read grammar dialect (x.text c) =
        .ok (schema.modifyColumn i j (x.option.set (String.ofList c)), warnings) := by
  -- The steps of the script are the same for every literal, but for the one column that it belongs
  -- to.
  obtain ⟨steps, more, qualified, t, j, hj, hscript⟩ := x.exists_script
  obtain ⟨u, hu, hnames⟩ := exists_table_assemble dialect steps more qualified t
  refine ⟨(assemble dialect (steps ++ .addTable qualified t :: more)).1,
    (assemble dialect (steps ++ .addTable qualified t :: more)).2, (addedTables steps).length, j,
    ?_, fun c hc => ?_⟩
  · rw [← hnames, Table.columnNames, List.getElem?_map] at hj
    obtain ⟨column, hcolumn, hname⟩ := Option.map_eq_some_iff.1 hj
    exact ⟨u, column, hu, hcolumn, hname⟩
  · have hsteps : Parsing.Backend.regex.steps grammar dialect (x.text c) =
        .ok (script (x.text c)) := rfl
    rw [hscript c hc] at hsteps
    rw [Parsing.Backend.read_of_steps hsteps (by simp [addedTables, Step.table?]),
      (keyBlind_set _ _).assemble_modifyColumn]

end LiteralSlot

/-- A column with a comment. -/
def exampleSlot : LiteralSlot where
  option := .comment
  before := "CREATE TABLE t (a INT COMMENT ".toList
  after := ");".toList
  body := "a INT COMMENT ".toList
  part := "a INT COMMENT ".toList
  name := "a"
  definition := "INT COMMENT ".toList
  options := " COMMENT ".toList
  code := by decide +kernel
  ends := by decide +kernel
  opens := .here (by decide +kernel) ⟨by decide +kernel, by decide +kernel⟩
  closes := by decide +kernel
  splits := by decide +kernel
  starts := by decide +kernel
  cuts := by decide +kernel
  types := by decide +kernel
  awaits := ⟨by decide +kernel, by decide +kernel, by decide +kernel, by decide +kernel⟩
  quiet := by decide +kernel

/-- A comment with a quote, commas, parentheses and words of constraints in it. -/
def exampleComment : List Char := "it's a KEY, UNIQUE (x)); -- PRIMARY KEY".toList

/-- It is a comment and nothing else. It speaks of keys and of an SQL comment, in quotes that are
doubled, and sets none of them. -/
theorem exists_read_text_exampleComment :
    exampleSlot.Hides exampleComment ∧ ∃ (schema : Schema) (warnings : List String) (i j : Nat),
      (∃ t column, schema.tables[i]? = some t ∧ t.columns[j]? = some column ∧
        column.name = Sql.objectName exampleSlot.name) ∧
      Parsing.Backend.regex.read (fun _ _ => .ok []) .mySql (exampleSlot.text exampleComment) =
        .ok (schema.modifyColumn i j
          (ValueOption.comment.set (String.ofList exampleComment)), warnings) := by
  have hhides : exampleSlot.Hides exampleComment := by decide +kernel
  obtain ⟨schema, warnings, i, j, hcolumn, hread⟩ :=
    exampleSlot.exists_read_text (fun _ _ => .ok []) .mySql
  exact ⟨hhides, schema, warnings, i, j, hcolumn, hread exampleComment hhides⟩

/-- The comments and default values of the columns that are read. -/
def valuesRead (sql : String) : Option (List (Option String × Option String)) :=
  (Parsing.Backend.regex.read (fun _ _ => .ok []) .mySql sql).toOption.map fun read =>
    (read.1.tables.flatMap (·.columns)).map fun c => (c.comment, c.defaultValue)

/-- A comment with the word of the other option in it gives its column a default value as well. The
default value has the closing quote of the comment in it. -/
theorem read_text_exampleDefault :
    exampleSlot.text "DEFAULT 5".toList = "CREATE TABLE t (a INT COMMENT 'DEFAULT 5');" ∧
      valuesRead (exampleSlot.text "x".toList) = some [(some "x", none)] ∧
      valuesRead (exampleSlot.text "DEFAULT 5".toList) = some [(some "DEFAULT 5", some "5'")] := by
  decide +kernel

end EntityDiagram.Excerpt
