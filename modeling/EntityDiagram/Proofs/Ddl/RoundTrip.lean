import EntityDiagram.Parsing.Backend
import EntityDiagram.Proofs.Ddl.Statement
import EntityDiagram.Proofs.Schema.Assembly
import EntityDiagram.Proofs.Sql.Name

/-!
# `EntityDiagram.Proofs.Ddl.RoundTrip`: reading back what was written

A dump is a list of table definitions with other statements before, between and after them.
`Written ts s` says that the text `s` is a dump of the tables `ts`, with any layout and any other
statements that define nothing. `read_written` is the round trip: the tolerant reader gets exactly
the tables out of the dump, in order, whatever their names, literals and sizes are.

The induction is on the derivation of `Written`: a table makes one step and every other statement
none (`statements_written`), so that `assemble` is left with one step for each table.

What the other statements may be is a condition on their tokens, `AddsNothing`: they neither create
a table, an index or a view nor alter a table. Comments and directives are text without tokens. A
dump may have any number of tables, each with any layout that spells its lexemes, and the tables may
refer to one another in any order, since keys are only put together afterwards.

`read_exampleDump` is the dump of one table with a `SET` statement in front of it.
-/

set_option autoImplicit false

namespace EntityDiagram.Ddl

open Token (tokens)
open Parsing (Backend Grammar)

/-! ### Dumps -/

/-- The text is a dump of the tables. -/
inductive Written : List TableDefinition → List Char → Prop where
  /-- Nothing but white space, comments and signs without a meaning is left. -/
  | done {s : List Char} (h : tokens s = [.eof]) : Written [] s
  /-- A table is spelled next. -/
  | table {t : TableDefinition} {ts : List TableDefinition} {s rest : List Char}
      (h : Spelled rest t.lexemes s) (hrest : Written ts rest) : Written (t :: ts) s
  /-- A statement of another kind stands next, with its semicolon. -/
  | other {ts : List TableDefinition} {w rest : List Char} {skipped : List Token}
      (h : tokens (w ++ ';' :: rest) = skipped ++ .semicolon :: tokens rest)
      (hsemicolon : Token.semicolon ∉ skipped) (hskipped : AddsNothing skipped)
      (hrest : Written ts rest) : Written ts (w ++ ';' :: rest)

/-- A statement of another kind is stepped over. The hypotheses say that it is read up to its
semicolon and begins in no way that the reader knows. -/
theorem statements_other {w rest : List Char} {skipped : List Token}
    (h : tokens (w ++ ';' :: rest) = skipped ++ .semicolon :: tokens rest)
    (hsemicolon : Token.semicolon ∉ skipped) (hskipped : AddsNothing skipped) :
    statements (tokens (w ++ ';' :: rest)) = statements (tokens rest) := by
  -- The end of the script stands only behind the last token, so not in this statement.
  have heof : Token.eof ∉ skipped := by
    obtain ⟨us, hus, hnot⟩ := Token.tokens_eq_append_eof (w ++ ';' :: rest)
    obtain ⟨vs, hvs, -⟩ := Token.tokens_eq_append_eof rest
    have heq : us = skipped ++ .semicolon :: vs := by
      have happ : us ++ [.eof] = (skipped ++ .semicolon :: vs) ++ [.eof] := by
        rw [← hus, h, hvs]
        simp
      exact List.append_cancel_right happ
    intro hmem
    exact hnot (heq ▸ List.mem_append_left _ hmem)
  rw [h, statements_addsNothing hsemicolon heof hskipped]

/-- The statements of a dump make one step for each table, in order. -/
theorem statements_written {ts : List TableDefinition} {s : List Char} (h : Written ts s) :
    statements (tokens s) = .ok (ts.map TableDefinition.step) := by
  induction h with
  | done h =>
      rw [h, statements, if_pos (by decide)]
      rfl
  | table h hrest ih =>
      rw [h.tokens_eq, TableDefinition.statements_lexemes, ih]
      rfl
  | other h hsemicolon hskipped hrest ih => rw [statements_other h hsemicolon hskipped, ih]

/-! ### Schemas -/

/-- The name that the schema takes from a list of tables: the first one that the name of a table
seems to hold. -/
def schemaName (ts : List TableDefinition) : Option String :=
  ts.findSome? fun t => Sql.schemaPart (Sql.quoteParts [t.name])

/-- The schema takes no name from tables whose names hold no double quotes. -/
theorem schemaName_eq_none {ts : List TableDefinition} (h : ∀ t ∈ ts, '"' ∉ t.name.toList) :
    schemaName ts = none := by
  rw [schemaName, List.findSome?_eq_none_iff]
  intro t ht
  rw [Sql.quoteParts_singleton, Sql.schemaPart_quoted (by decide) (h t ht)]

/-- The steps of the tables alone make the schema that consists of them. -/
theorem assemble_steps (dialect : Sql.Dialect) (ts : List TableDefinition) :
    assemble dialect (ts.map TableDefinition.step) =
      ({ dbType := dialect.name
         schemaName := schemaName ts
         tables := ts.map TableDefinition.table }, []) := by
  -- A table is added without a kind and gets that of a base table.
  have hadd := assemble_addTables dialect [] (fun t => Sql.quoteParts [t.name])
    (fun t => { TableDefinition.table t with kind := none }) ts
  rw [List.map_nil, List.nil_append, List.findSome?_map] at hadd
  exact hadd

/-- A dump of at least one table is read as exactly its tables, in order and without warnings. The
grammar is not asked for anything, so it may be any function. -/
theorem read_written (grammar : Grammar) (dialect : Sql.Dialect) {ts : List TableDefinition}
    {sql : String} (hts : ts ≠ []) (h : Written ts sql.toList) :
    Backend.vendor.read grammar dialect sql =
      .ok ({ dbType := dialect.name
             schemaName := schemaName ts
             tables := ts.map TableDefinition.table }, []) := by
  have hscript : script sql = .ok (ts.map TableDefinition.step) := statements_written h
  have hsteps : Backend.vendor.steps grammar dialect sql = .ok (ts.map TableDefinition.step) := by
    rw [Backend.steps, hscript]
  -- A script that adds no table would be refused.
  have hany : (ts.map TableDefinition.step).any Backend.addsTable = true := by
    cases ts with
    | nil => exact absurd rfl hts
    | cons t ts => simp [TableDefinition.step, Backend.addsTable]
  rw [Backend.read, hsteps]
  show Backend.schemaOf dialect _ = _
  rw [Backend.schemaOf, if_pos hany, assemble_steps]

/-- A table whose names and literals need every kind of escape. -/
def exampleTable : TableDefinition where
  name := "a``;b"
  columns := [
    { name := "primary"
      type := ⟨⟨"INT", by decide, by decide⟩, .length 11, by decide, by decide, by decide⟩
      options := [.autoIncrement, .notNull] },
    { name := "fulltext"
      type := ⟨⟨"DECIMAL", by decide, by decide⟩, .precision 10 2, by decide, by decide, by decide⟩
      options := [.default "it's (\\n);", .comment ""] }]
  key := some { name := none, columns := ["primary"] }
  foreignKeys := [
    { name := some "fk"
      columns := ["fulltext"]
      toTable := "a``;b"
      toColumns := ["primary"]
      onDelete := some .setNull
      onUpdate := some .noAction }]
  comment := some "\\"
  distinct := by decide
  declared := by decide

/-- A dump of the table, with another statement before it. -/
def exampleDump : List Char :=
  spell [.word .set, .quoted "names"] ++ ';' :: spell exampleTable.lexemes

/-- The text is a dump of the table. -/
theorem written_exampleDump : Written [exampleTable] exampleDump := by
  have hempty : Spelled [] [] [] := .done
  have htable := hempty.spell_append exampleTable.lexemes
  rw [List.append_nil, List.append_nil] at htable
  have hend : Spelled (spell exampleTable.lexemes) [.semicolon]
      (';' :: spell exampleTable.lexemes) := .lexeme trivial .done
  have htokens : tokens exampleDump = [.name "SET", .name "names"] ++
      .semicolon :: tokens (spell exampleTable.lexemes) :=
    (hend.spell_append [.word .set, .quoted "names"]).tokens_eq
  exact .other htokens (by decide) trivial (.table htable (.done Token.tokens_nil))

/-- The dump is read as its table. The names, texts and options of the example are those that need
their quotes. -/
theorem read_exampleDump :
    [exampleTable] ≠ [] ∧ Written [exampleTable] exampleDump ∧
      Backend.vendor.read (fun _ _ => .error "") .mySql (String.ofList exampleDump) =
        .ok ({ dbType := "mysql", tables := [exampleTable.table] }, []) := by
  have hname : schemaName [exampleTable] = none := schemaName_eq_none (by decide)
  refine ⟨by simp, written_exampleDump, ?_⟩
  rw [← hname]
  exact read_written _ _ (by simp) (by rw [String.toList_ofList]; exact written_exampleDump)

end EntityDiagram.Ddl
