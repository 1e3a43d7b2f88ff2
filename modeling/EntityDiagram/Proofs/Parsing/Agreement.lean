import EntityDiagram.Parsing.Backend
import EntityDiagram.Proofs.Ddl.Placement
import EntityDiagram.Proofs.Excerpt.Script
import EntityDiagram.Proofs.Schema.Assembly

/-!
# `EntityDiagram.Proofs.Parsing.Agreement`: two backends read the same

The vendor backend reads tokens, the regex backend cuts tables out of a text by patterns. On a
script in plain notation both take the same steps, up to how they write the names of the tables
and to the warning that the regex backend always gives: `Ddl.PlainTable.script_spaced` and
`Excerpt.script_spaced`. Tables under names without a schema make the same schema, however these
names are written (`assemble_tables`), so the backends agree (`vendor_regex_agree`).

The proof is one equation for each backend and a third one that joins them. On both sides the steps
are put together by `assemble`, so that it is enough to compare lists of steps: of the same length,
adding the same tables in the same order, under names that have the same last segment. The one
difference that is left is a warning in the result, and the schema does not hold it.
-/

set_option autoImplicit false

namespace EntityDiagram.Parsing

open Ddl (PlainTable PlainType PlainLexeme Spaced)

/-- Tables make the schema that consists of them, under whatever names without a schema they are
added. They come without waiting changes, so each table stays as it is. -/
theorem assemble_tables (dialect : Sql.Dialect) (warnings : List String)
    {qualified : PlainTable → String} (hqualified : ∀ t, Sql.schemaPart (qualified t) = none)
    (ts : List PlainTable) :
    assemble dialect (warnings.map .warn ++
        ts.map fun t => .addTable (qualified t) (t.body.toTable t.name.text)) =
      ({ dbType := dialect.name, tables := ts.map PlainTable.table }, warnings) := by
  have hkind (t : PlainTable) : (t.body.toTable t.name.text).kind = none :=
    (Ddl.toTable_fields t.body t.name.text).2.2
  have hnone : (ts.map qualified).findSome? Sql.schemaPart = none := by
    simpa [List.findSome?_eq_none_iff] using fun t _ => hqualified t
  rw [assemble_addTables, hnone]
  simp [hkind, PlainTable.table]

/-- The vendor backend and the regex backend agree on plain data definitions. Only the warning that
the second one always gives tells them apart. -/
theorem vendor_regex_agree (grammar : Grammar) (dialect : Sql.Dialect) {ts : List PlainTable}
    (hts : ts ≠ []) {sql : String} (hsql : Spaced (ts.flatMap PlainTable.lexemes) sql.toList) :
    Backend.vendor.read grammar dialect sql =
        .ok ({ dbType := dialect.name, tables := ts.map PlainTable.table }, []) ∧
      Backend.regex.read grammar dialect sql =
        .ok ({ dbType := dialect.name, tables := ts.map PlainTable.table },
          ["Regex fallback may miss dialect-specific syntax"]) := by
  have hmark (t : PlainTable) {mark : Char} (hmark : Sql.isQuoteMark mark = true) :
      mark ∉ t.name.text.toList := by
    intro hmem
    rw [(Ddl.isNameChar_facts (t.name.isNameChar mark hmem)).2.1] at hmark
    cases hmark
  -- Neither backend finds a schema in the name of a table.
  have hvendor (t : PlainTable) : Sql.schemaPart (Sql.quoteParts [t.name.text]) = none := by
    rw [Sql.quoteParts_singleton]
    exact Sql.schemaPart_quoted (by decide) (hmark t (by decide))
  have hregex (t : PlainTable) :
      Sql.schemaPart (String.ofList (PlainLexeme.name t.name).chars) = none :=
    Sql.schemaPart_quoted (by decide) (hmark t (by decide))
  -- There is a table among the steps.
  have hadds {f : PlainTable → Step} (hf : ∀ t, Backend.addsTable (f t) = true)
      (steps : List Step) : (steps ++ ts.map f).any Backend.addsTable = true := by
    obtain ⟨t, ht⟩ := List.exists_mem_of_ne_nil ts hts
    exact List.any_eq_true.2 ⟨f t, by simp [List.mem_map_of_mem ht], hf t⟩
  constructor
  · have hsteps : Ddl.script sql = .ok (([] : List String).map .warn ++ ts.map PlainTable.step) :=
      PlainTable.script_spaced hsql
    have hany := hadds (f := PlainTable.step) (fun _ => rfl) (([] : List String).map .warn)
    rw [Backend.read, Backend.steps, hsteps]
    show Backend.schemaOf dialect _ = _
    rw [Backend.schemaOf, if_pos hany]
    exact congrArg Except.ok (assemble_tables dialect [] hvendor ts)
  · have hsteps : Excerpt.script sql =
        ["Regex fallback may miss dialect-specific syntax"].map .warn ++
          ts.map Excerpt.tableStep := Excerpt.script_spaced hsql
    have hany := hadds (f := Excerpt.tableStep) (fun _ => rfl)
      (["Regex fallback may miss dialect-specific syntax"].map .warn)
    rw [Backend.read, Backend.steps, hsteps]
    show Backend.schemaOf dialect _ = _
    rw [Backend.schemaOf, if_pos hany]
    exact congrArg Except.ok (assemble_tables dialect _ hregex ts)

/-- A type without arguments. -/
def exampleBigInt : PlainType := ⟨⟨"BIGINT", by decide, by decide⟩, by decide, []⟩

/-- A type with two arguments. -/
def exampleNumeric : PlainType :=
  ⟨⟨"NUMERIC", by decide, by decide⟩, by decide,
    [⟨['1', '0'], by decide, by decide⟩, ⟨['2'], by decide, by decide⟩]⟩

/-- Two tables, the second of which refers to the first; the name of its key is a word that clauses
start with. -/
def examplePlainTables : List PlainTable := [
  { name := ⟨"users", by decide, by decide⟩
    elements := [
      .column {
        name := ⟨"id", by decide, by decide⟩
        type := exampleBigInt
        options := [.autoIncrement, .primaryKey] }] },
  { name := ⟨"orders$", by decide, by decide⟩
    elements := [
      .column {
        name := ⟨"user", by decide, by decide⟩
        type := exampleBigInt
        options := [.notNull] },
      .column {
        name := ⟨"total", by decide, by decide⟩
        type := exampleNumeric
        options := [] },
      .primaryKey none ⟨[⟨"user", by decide, by decide⟩], by decide⟩,
      .foreignKey (some ⟨"PRIMARY", by decide, by decide⟩)
        ⟨[⟨"user", by decide, by decide⟩], by decide⟩
        { toTable := ⟨"users", by decide, by decide⟩
          toColumns := ⟨[⟨"id", by decide, by decide⟩], by decide⟩
          onDelete := some .cascade
          onUpdate := some .setNull
          updateFirst := true }] }]

/-- The tables as a script, with a space after each lexeme:
``CREATE TABLE `users` ( `id` BIGINT …``. -/
def examplePlainText : String :=
  String.ofList ((examplePlainTables.flatMap PlainTable.lexemes).flatMap fun l => l.chars ++ [' '])

/-- The backends agree on this script. It has two tables with a foreign key between them, and a
blank behind every lexeme. -/
theorem vendor_regex_agree_examplePlainText :
    examplePlainTables ≠ [] ∧
      Spaced (examplePlainTables.flatMap PlainTable.lexemes) examplePlainText.toList ∧
      Backend.vendor.read (fun _ _ => .error "") .mySql examplePlainText =
        .ok ({ dbType := "mysql", tables := examplePlainTables.map PlainTable.table }, []) ∧
      Backend.regex.read (fun _ _ => .error "") .mySql examplePlainText =
        .ok ({ dbType := "mysql", tables := examplePlainTables.map PlainTable.table },
          ["Regex fallback may miss dialect-specific syntax"]) := by
  have hspaced : Spaced (examplePlainTables.flatMap PlainTable.lexemes)
      examplePlainText.toList := by
    rw [examplePlainText, String.toList_ofList]
    exact Spaced.of_flatMap _
  exact ⟨by simp [examplePlainTables], hspaced,
    vendor_regex_agree _ .mySql (by simp [examplePlainTables]) hspaced⟩

end EntityDiagram.Parsing
