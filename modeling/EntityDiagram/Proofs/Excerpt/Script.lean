import EntityDiagram.Excerpt.Script
import EntityDiagram.Proofs.Excerpt.Addition
import EntityDiagram.Proofs.Excerpt.Column

/-!
# `EntityDiagram.Proofs.Excerpt.Script`: scripts in plain notation

The parts of a table are read one after the other, each as the element that it spells
(`addPart_spaced`), so a table that has been cut out is the table that is declared
(`CutOut.toTable_eq`). No lexeme of a table starts an addition to one (`additions_spaced`). A
script in plain notation thus makes the steps of its tables, in order (`script_spaced`).

The module is the end of a chain on plain notation for the reader by patterns, as
`EntityDiagram.Proofs.Ddl.PlainTable` is for the reader of tokens:
`EntityDiagram.Proofs.Excerpt.Scan` cuts tables out of the script,
`EntityDiagram.Proofs.Excerpt.Column` and `EntityDiagram.Proofs.Excerpt.Clause` read their parts,
and here these are put together. The induction over the parts of a table carries the table made so
far and the key that was met, since a later key takes the place of an earlier one; that over the
tables of a script carries nothing, as each of them is cut out on its own.
-/

set_option autoImplicit false

namespace EntityDiagram.Excerpt

open Text (isSpace isWordChar Pattern Span)
open Text.Pattern
open Ddl (Keyword PlainLexeme PlainElement PlainTable TableReading Spaced)

/-! ### Tables -/

/-- The table of what has been read of its body, without a primary key. -/
def unkeyed (name : String) (r : TableReading) : Table where
  name := name
  columns := r.columns
  foreignKeys := r.foreignKeys
  indexes := r.indexes

/-- A part of a body is read as the element that it spells. The primary key is kept apart from the
table while the parts are read, and joins it at the end. -/
theorem addPart_spaced (name : String) (r : TableReading) {e : PlainElement} {part : List Char}
    (h : Spaced e.lexemes part) (hpart : ∀ c ∈ part.head?, isSpace c = false) :
    addPart (unkeyed name r, r.primaryKey) part =
      (unkeyed name (e.extend name r), (e.extend name r).primaryKey) := by
  cases e with
  | primaryKey constraint columns =>
      rw [addPart, primaryKey?_spaced h hpart]
      rfl
  | foreignKey constraint columns ref =>
      have hprimary := primaryKey?_eq_none h hpart
      have hforeign := foreignKey?_spaced (unkeyed name r).name h hpart
      rw [addPart, hprimary]
      dsimp only
      rw [hforeign]
      rfl
  | column c =>
      obtain ⟨definition, rest, hclause, hname, hrest⟩ := find?_columnClause h hpart
      obtain ⟨hspaced, hhead⟩ := hrest.trim
      have hcolumn := column?_spaced (unkeyed name r).name hspaced hhead
      obtain ⟨t, rfl, -, -⟩ := h.exists_cons_of_head hpart
      -- A backtick starts no clause, so the part can only be a column.
      have hquote : (PlainLexeme.name c.name).chars ++ t =
          '`' :: (c.name.text.toList ++ '`' :: t) := by
        simp [PlainLexeme.chars]
      rw [hquote] at hclause ⊢
      rw [addPart, primaryKey?_quote]
      dsimp only
      rw [foreignKey?_quote]
      dsimp only
      rw [index?_quote]
      dsimp only
      rw [constraintWord_quote, hclause, Option.bind_some, hname, hcolumn]
      simp [unkeyed, PlainElement.extend]

/-- The parts of a body are read one after the other. It goes by induction on the elements and the
parts that spell them. -/
theorem foldl_addPart (name : String) {es : List PlainElement} {parts : List (List Char)}
    (h : List.Forall₂ (fun (e : PlainElement) part => Spaced e.lexemes part ∧
      ∀ c ∈ part.head?, isSpace c = false) es parts) (r : TableReading) :
    parts.foldl addPart (unkeyed name r, r.primaryKey) =
      (unkeyed name (es.foldl (PlainElement.extend name) r),
        (es.foldl (PlainElement.extend name) r).primaryKey) := by
  induction h generalizing r with
  | nil => rfl
  | @cons e part es parts hpart _ ih =>
      rw [List.foldl_cons, addPart_spaced name r hpart.1 hpart.2, ih, List.foldl_cons]

/-- A table that has been cut out is read as the table that is declared. -/
theorem CutOut.toTable_eq {t : PlainTable} {raw : RawTable} (h : CutOut t raw) :
    raw.toTable = t.body.toTable t.name.text := by
  have hmarks : ∀ c ∈ t.name.text.toList, Sql.isQuoteMark c = false :=
    fun c hc => (Ddl.isNameChar_facts (t.name.isNameChar c hc)).2.1
  have hname : Sql.objectName raw.qualifiedName = t.name.text := by
    rw [h.qualifiedName]
    exact (Sql.objectName_quoted (by decide) hmarks).trans String.ofList_toList
  have hread : (Sql.splitTopLevel raw.body.toList).foldl addPart
      ({ name := Sql.objectName raw.qualifiedName, comment := raw.comment }, none) =
      (unkeyed t.name.text t.body, t.body.primaryKey) := by
    rw [hname, h.comment]
    exact foldl_addPart t.name.text (splitTopLevel_body h.body) {}
  rw [RawTable.toTable, hread, TableReading.toTable, TableReading.key?]
  dsimp only
  -- If no clause gave a key, the columns that are flagged make one, and both sides look at the same
  -- columns.
  cases t.body.primaryKey with
  | some key => rfl
  | none =>
      cases hnames : ((t.body.columns.filter (·.inPrimaryKey)).map (·.name)).isEmpty <;>
        simp [unkeyed, hnames]

/-! ### Additions -/

/-- The arguments of a type hold no keyword. -/
theorem ne_keyword_of_mem_argumentLexemes {k : Keyword} (ns : List Ddl.Numeral) :
    ∀ l ∈ Ddl.PlainType.argumentLexemes ns, l ≠ .keyword k := by
  cases ns with
  | nil => simp [Ddl.PlainType.argumentLexemes]
  | cons n ns =>
      have hinner : ∀ l ∈ PlainLexeme.separated ((n :: ns).map fun n => [.numeral n]),
          l ≠ .keyword k := PlainLexeme.ne_keyword_of_mem_separated (by simp)
      rw [Ddl.PlainType.argumentLexemes, List.forall_mem_append, List.forall_mem_cons]
      exact ⟨⟨by simp, hinner⟩, by simp⟩

/-- No element of a table alters anything. -/
theorem ne_alter_of_mem_element (e : PlainElement) : ∀ l ∈ e.lexemes, l ≠ .keyword .alter := by
  have hconstraint (n : Option Ddl.QuotedName) :
      ∀ l ∈ PlainLexeme.constraintClause n, l ≠ .keyword .alter :=
    PlainLexeme.ne_keyword_of_mem_constraintClause (by decide)
  have hnames (ns : List Ddl.QuotedName) : ∀ l ∈ PlainLexeme.nameList ns, l ≠ .keyword .alter :=
    PlainLexeme.ne_keyword_of_mem_nameList
  -- A list of names holds no keyword, and the other parts hold fixed ones.
  cases e with
  | column c =>
      have hoptions : ∀ l ∈ c.options.flatMap Ddl.PlainOption.lexemes, l ≠ .keyword .alter := by
        have option (o : Ddl.PlainOption) : ∀ l ∈ o.lexemes, l ≠ .keyword .alter := by
          cases o <;> decide
        intro l hl
        obtain ⟨o, -, hl⟩ := List.mem_flatMap.1 hl
        exact option o l hl
      simp only [PlainElement.lexemes, Ddl.PlainColumn.lexemes, Ddl.PlainType.lexemes,
        List.forall_mem_append, List.forall_mem_cons]
      exact ⟨⟨by simp, by simp, ne_keyword_of_mem_argumentLexemes _⟩, hoptions⟩
  | primaryKey constraint columns =>
      simp only [PlainElement.lexemes, List.forall_mem_append, List.forall_mem_cons]
      exact ⟨hconstraint _, by decide, by decide, hnames _⟩
  | foreignKey constraint columns r =>
      have hactions : ∀ l ∈ Ddl.ReferenceAction.plainClauses r.updateFirst r.onDelete r.onUpdate,
          l ≠ .keyword .alter := by
        have clause (event : Ddl.KeyEvent) (a : Ddl.ReferenceAction) :
            ∀ l ∈ Ddl.ReferenceAction.plainClause event (some a), l ≠ .keyword .alter := by
          cases a <;> cases event <;> decide
        intro l hl
        obtain ⟨event, a, hl⟩ := Ddl.ReferenceAction.mem_plainClauses hl
        exact clause event a l hl
      simp only [PlainElement.lexemes, Ddl.PlainReference.lexemes, List.forall_mem_append,
        List.forall_mem_cons]
      exact ⟨hconstraint _, by decide, by decide, hnames _, by decide, by simp, hnames _, hactions⟩

/-- Nor does a statement that creates a table. -/
theorem ne_alter_of_mem_table (t : PlainTable) : ∀ l ∈ t.lexemes, l ≠ .keyword .alter := by
  have helements : ∀ l ∈ PlainLexeme.separated (t.elements.map PlainElement.lexemes),
      l ≠ .keyword .alter := by
    refine PlainLexeme.ne_keyword_of_mem_separated fun part hpart => ?_
    obtain ⟨e, -, rfl⟩ := List.mem_map.1 hpart
    exact ne_alter_of_mem_element e
  simp only [PlainTable.lexemes, List.forall_mem_append, List.forall_mem_cons]
  exact ⟨⟨by decide, by decide, by simp, by simp, by simp⟩, helements, by simp, by simp, by simp⟩

/-- A script in plain notation adds nothing to tables. -/
theorem additions_spaced {ts : List PlainTable} {sql : String}
    (h : Spaced (ts.flatMap PlainTable.lexemes) sql.toList) : additions sql = [] := by
  have hspace : NeedsSpace addClause :=
    NeedsSpace.of_word (w := "ALTER") (by decide) (by decide) (StartsSpace.spaces1_bind _)
  have hsteps : ∀ l ∈ ts.flatMap PlainTable.lexemes,
      StepsOver [Keyword.alter.word] addClause l := by
    intro l hl
    obtain ⟨t, -, hl⟩ := List.mem_flatMap.1 hl
    exact .of_ne_keyword hspace (ne_alter_of_mem_table t l hl)
  have hnone : addClause.search (.start sql.toList) = none :=
    searchFrom_eq_none keyed_addClause hsteps h (.start _)
  have hmatches : addClause.allMatches sql.toList = [] := by
    rw [allMatches, matchesUpTo, hnone]
  rw [additions, stripComments_spaced h, hmatches]
  rfl

/-! ### Scripts -/

/-- What a statement that creates a table does to the schema. -/
def tableStep (t : PlainTable) : Step :=
  .addTable (String.ofList (PlainLexeme.name t.name).chars) (t.body.toTable t.name.text)

/-- A script in plain notation makes the steps of its tables, in order, and warns as always. -/
theorem script_spaced {ts : List PlainTable} {sql : String}
    (h : Spaced (ts.flatMap PlainTable.lexemes) sql.toList) :
    script sql = .warn "Regex fallback may miss dialect-specific syntax" :: ts.map tableStep := by
  have steps {ts : List PlainTable} {raws : List RawTable} (hcut : List.Forall₂ CutOut ts raws) :
      raws.map (fun raw => Step.addTable raw.qualifiedName raw.toTable) = ts.map tableStep := by
    induction hcut with
    | nil => rfl
    | @cons t raw ts raws hcut _ ih =>
        rw [List.map_cons, List.map_cons, ih, hcut.toTable_eq, hcut.qualifiedName]
        rfl
  obtain ⟨htables, hunterminated⟩ := scan_spaced h
  rw [script, hunterminated, additions_spaced h, steps htables]
  simp

end EntityDiagram.Excerpt
