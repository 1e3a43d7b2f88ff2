import EntityDiagram.Proofs.Ddl.RoundTrip
import EntityDiagram.Proofs.Schema.Assembly

/-!
# `EntityDiagram.Proofs.Ddl.Placement`: a key counts wherever it is declared

Keys are read on three ways: as items of a column, as clauses of a table body, and from alterations,
which wait until every table is known. `Scripted ds s` says that the text `s` is a script of the
declarations `ds`, which put each key at one of the three places, and this module follows the script
to its schema.

* `statements_scripted`: a script makes the steps of its declarations.
* `TableLayout.markKeys_toTable`: the body and the keys that are added make up the same table
  wherever the primary key is declared.
* `LaysOut.read_scripted`: the schema that is read, in which every table has its added keys.
* `Declares.perm_foreignKeys_iff`: the foreign keys of a table are those that are declared, unless
  a column has two of them declared on it.
* `read_laidOut`: what the reader gets out of any script of the tables.

The exception is real. A reading of a column holds one foreign key, so a second `REFERENCES` on the
same column takes the place of the first: `not_sameForeignKeys_exampleTwoReferences`.
-/

set_option autoImplicit false

namespace EntityDiagram

/-! ### The order of foreign keys -/

/-- The schema apart from its foreign keys. -/
def Schema.withoutForeignKeys (s : Schema) : Schema :=
  { s with tables := s.tables.map fun t => { t with foreignKeys := [] } }

/-- Table by table, the foreign keys of the schemas are the same in some order. -/
def Schema.SameForeignKeys (s s' : Schema) : Prop :=
  List.Forall₂ (fun t t' : Table => t.foreignKeys.Perm t'.foreignKeys) s.tables s'.tables

namespace Ddl

open Token (tokens)
open Parsing (Backend Grammar)

/-! ### Scripts of declarations -/

/-- The text is a script of the declarations, with any layout and with other statements before,
between and after them. -/
inductive Scripted : List Declaration → List Char → Prop where
  /-- Nothing but white space, comments and signs without a meaning is left. -/
  | done {s : List Char} (h : tokens s = [.eof]) : Scripted [] s
  /-- A declaration is spelled next. -/
  | declaration {d : Declaration} {ds : List Declaration} {s rest : List Char}
      (h : Spelled rest d.lexemes s) (hrest : Scripted ds rest) : Scripted (d :: ds) s
  /-- A statement of another kind stands next, with its semicolon. -/
  | other {ds : List Declaration} {w rest : List Char} {skipped : List Token}
      (h : tokens (w ++ ';' :: rest) = skipped ++ .semicolon :: tokens rest)
      (hsemicolon : Token.semicolon ∉ skipped) (hskipped : AddsNothing skipped)
      (hrest : Scripted ds rest) : Scripted ds (w ++ ';' :: rest)

/-- Every list of declarations has a script. -/
theorem scripted_spell (ds : List Declaration) :
    Scripted ds (spell (ds.flatMap Declaration.lexemes)) := by
  induction ds with
  | nil => exact .done Token.tokens_nil
  | cons d ds ih =>
      have hnone : Spelled (spell (ds.flatMap Declaration.lexemes)) []
          (spell (ds.flatMap Declaration.lexemes)) := .done
      have hspelled := hnone.spell_append d.lexemes
      rw [List.append_nil] at hspelled
      rw [List.flatMap_cons, spell, List.flatMap_append]
      exact .declaration hspelled ih

/-- The statements of a script make the steps of its declarations, in order. -/
theorem statements_scripted {ds : List Declaration} {s : List Char} (h : Scripted ds s)
    (hds : ∀ table cs, .alter table cs ∈ ds → Text.eqIgnoreCase table "ONLY" = false) :
    statements (tokens s) = .ok (ds.flatMap Declaration.steps) := by
  induction h with
  | done h =>
      rw [h, statements, if_pos (by decide)]
      rfl
  | @declaration d ds s rest h hrest ih =>
      have hd : ∀ table cs, d = .alter table cs → Text.eqIgnoreCase table "ONLY" = false :=
        fun table cs heq => hds table cs (heq ▸ List.mem_cons_self)
      rw [h.tokens_eq, d.statements_lexemes hd, ih fun table cs hmem =>
        hds table cs (List.mem_cons_of_mem _ hmem)]
      rfl
  | other h hsemicolon hskipped hrest ih => rw [statements_other h hsemicolon hskipped, ih hds]

/-! ### What alterations add -/

namespace KeyClause

/-- The change to the table of this name that adding the key leaves waiting. -/
def change (table : String) : KeyClause → Change
  | .primary k => .primaryKey table k.primaryKey
  | .foreign name columns r => .foreignKey ((r.foreignKey name columns).foreignKey table)

/-- A change is one to the table that is altered. -/
@[simp] theorem table_change (table : String) (c : KeyClause) : (c.change table).table = table := by
  cases c <;> rfl

/-- The step of an alteration leaves its change waiting, if the name of the table can be read off
its quoted form. -/
theorem change?_step {table : String} (h : ∀ c ∈ table.toList, Sql.isQuoteMark c = false)
    (c : KeyClause) : (c.step table).change? = some (c.change table) := by
  cases c with
  | primary k =>
      have hname : Sql.objectName (Sql.quoteParts [table]) = table := by
        rw [Sql.quoteParts_singleton, Sql.objectName_quoted (by decide) h, String.ofList_toList]
      rw [step, Step.change?, hname, change]
  | foreign name columns r => rfl

end KeyClause

/-- The table with its primary key marked, if one is given. -/
def markKeys (ks : List KeyDefinition) (t : Table) : Table :=
  ks.foldl (fun t k => t.markPrimaryKey k.primaryKey) t

/-- Marking keys commutes with any change to other fields than the columns and the key. -/
theorem markKeys_comm {f : Table → Table}
    (hf : ∀ (t : Table) (key : PrimaryKey), (f t).markPrimaryKey key = f (t.markPrimaryKey key))
    (ks : List KeyDefinition) (t : Table) : markKeys ks (f t) = f (markKeys ks t) := by
  induction ks generalizing t with
  | nil => rfl
  | cons k ks ih =>
      show markKeys ks ((f t).markPrimaryKey k.primaryKey) = _
      rw [hf, ih]
      rfl

/-- Keys that are added to a table: primary keys are marked, and foreign keys come last. It does not
matter how the two kinds of keys are mixed. -/
theorem foldl_apply_change (cs : List KeyClause) (table : String) (t : Table) :
    (cs.map (KeyClause.change table)).foldl Change.apply t =
      { markKeys (cs.filterMap KeyClause.key?) t with
        foreignKeys := t.foreignKeys ++ (cs.filterMap KeyClause.foreignKey?).map
          (ForeignKeyDefinition.foreignKey table) } := by
  induction cs generalizing t with
  | nil => simp [markKeys]
  | cons c cs ih =>
      rw [List.map_cons, List.foldl_cons, ih]
      cases c with
      | primary k => rfl
      | foreign name columns r =>
          -- Marking a primary key touches no foreign key, so the two kinds of changes may be taken
          -- apart.
          have hmark := markKeys_comm
            (f := fun t' => { t' with foreignKeys := t.foreignKeys ++
              [(r.foreignKey name columns).foreignKey table] }) (fun _ _ => rfl)
            (cs.filterMap KeyClause.key?) t
          rw [show Change.apply t (KeyClause.change table (.foreign name columns r)) =
            { t with foreignKeys := t.foreignKeys ++
              [(r.foreignKey name columns).foreignKey table] } from rfl, hmark]
          simp [List.filterMap_cons, KeyClause.key?, KeyClause.foreignKey?]

/-- What an option holds is not preceded or followed by anything in the list of it. -/
theorem eq_of_append_cons_eq_toList {α : Type} {as bs : List α} {a : α} {o : Option α}
    (h : as ++ a :: bs = o.toList) : as = [] ∧ o = some a ∧ bs = [] := by
  cases o with
  | none => simp at h
  | some b =>
      rcases List.append_eq_singleton_iff.1 h with ⟨rfl, h⟩ | ⟨-, h⟩
      · obtain ⟨rfl, rfl⟩ := List.cons.inj h
        exact ⟨rfl, rfl, rfl⟩
      · cases h

/-! ### Tables -/

/-- A body makes a table of its name, and leaves the comment and the kind open. -/
theorem toTable_fields (r : TableReading) (name : String) :
    (r.toTable name).name = name ∧ (r.toTable name).foreignKeys = r.foreignKeys ∧
      (r.toTable name).kind = none := by
  rw [TableReading.toTable]
  cases r.key? <;> exact ⟨rfl, rfl, rfl⟩

namespace TableLayout

/-- The table as it is added, before any key of an alteration. -/
def added (l : TableLayout) : Table :=
  { l.body.toTable l.name with comment := l.comment, kind := some .base }

/-- The table with the keys that the declarations add to it. -/
def altered (ds : List Declaration) (l : TableLayout) : Table :=
  ((addedKeys ds l.name).map (KeyClause.change l.name)).foldl Change.apply l.added

/-- The body makes the table with the primary keys that are added marked, wherever the key is
declared, apart from comment, kind and foreign keys. -/
theorem markKeys_toTable {l : TableLayout} {t : TableDefinition} {ks : List KeyDefinition}
    (hname : l.name = t.name) (hcolumns : l.columns.map ColumnLayout.definition = t.columns)
    (hkeys : l.keys ++ ks = t.key.toList) :
    markKeys ks (l.body.toTable l.name) =
      { t.table with
        comment := none
        kind := none
        foreignKeys := l.keptForeignKeys.map (ForeignKeyDefinition.foreignKey t.name) } := by
  cases ks with
  | nil =>
      rw [List.append_nil] at hkeys
      exact toTable_body hname hcolumns hkeys
  | cons k ks =>
      -- There is only one key, and it is added: the body has none.
      obtain ⟨hnone, hkey, rfl⟩ := eq_of_append_cons_eq_toList hkeys
      have hbody : l.body.key? = none := by
        have hempty : l.keys = (none : Option KeyDefinition).toList := hnone
        exact key?_body hempty
      have hnames : l.body.columns.map (·.name) = t.columns.map (·.name) := by
        rw [← hcolumns, body, List.map_map, List.map_map]
        rfl
      have hflagged : Table.flagged k.columns (l.columns.map ColumnLayout.column) =
          l.columns.map (·.definition.column k.columns) := by
        refine flagged_columns fun c hc hc' => ?_
        have hmem := mem_keys hc hc'
        rw [hnone] at hmem
        cases hmem
      have hdeclared : k.primaryKey.columns ⊆ l.body.columns.map (·.name) := by
        rw [hnames]
        exact t.declared k hkey
      rw [TableReading.toTable, hbody]
      show Table.markPrimaryKey _ k.primaryKey = _
      rw [Table.markPrimaryKey_declared _ (hnames ▸ t.distinct) hdeclared]
      simp [body, hflagged, TableDefinition.table, TableDefinition.keyColumns,
        KeyDefinition.primaryKey, hkey, ← hcolumns, hname]

end TableLayout

/-- A table is read as it is declared, except that a column keeps only the last foreign key that
is declared on it. -/
theorem Declares.altered_eq {ds : List Declaration} {l : TableLayout} {t : TableDefinition}
    (h : Declares ds l t) :
    l.altered ds =
      { t.table with
        foreignKeys := (l.keptForeignKeys ++
          (addedKeys ds l.name).filterMap KeyClause.foreignKey?).map
            (ForeignKeyDefinition.foreignKey t.name) } := by
  have hmark := markKeys_comm
    (f := fun t' => { t' with comment := l.comment, kind := some .base }) (fun _ _ => rfl)
    ((addedKeys ds l.name).filterMap KeyClause.key?) (l.body.toTable l.name)
  rw [TableLayout.altered, foldl_apply_change, TableLayout.added, hmark,
    TableLayout.markKeys_toTable h.name h.columns h.keys, (toTable_fields _ _).2.1]
  simp [TableLayout.body, TableDefinition.table, h.comment, h.name]

/-! ### Schemas -/

/-- The tables that the declarations create, in order. -/
def layouts (ds : List Declaration) : List TableLayout := ds.filterMap Declaration.layout?

/-- Only the statements that create tables add tables. -/
theorem addedTables_steps (ds : List Declaration) :
    addedTables (ds.flatMap Declaration.steps) = (layouts ds).map TableLayout.added := by
  induction ds with
  | nil => rfl
  | cons d ds ih =>
      rw [List.flatMap_cons, addedTables_append, ih, addedTables]
      cases d with
      | create l =>
          have htable : l.step.table? = some l.added := by
            simp [TableLayout.step, Step.table?, TableLayout.added, (toTable_fields _ _).2.2]
          simp [Declaration.steps, layouts, Declaration.layout?, htable]
      | alter table cs =>
          -- An `ALTER TABLE` adds no table, only keys to one that is there.
          have hnone : (cs.map (KeyClause.step table)).filterMap Step.table? = [] := by
            rw [List.filterMap_eq_nil_iff]
            intro step hstep
            obtain ⟨c, -, rfl⟩ := List.mem_map.1 hstep
            cases c <;> rfl
          simp [Declaration.steps, layouts, List.filterMap_cons, Declaration.layout?, hnone]

/-- The changes to the table of a name are the keys that alterations of this name add. The name is
compared with the name that the statement gives, from which quote marks would have been removed, so
it must not hold any. -/
theorem filter_waitingChanges {ds : List Declaration}
    (h : ∀ table cs, .alter table cs ∈ ds → ∀ c ∈ table.toList, Sql.isQuoteMark c = false)
    (name : String) :
    (waitingChanges (ds.flatMap Declaration.steps)).filter (·.table == name) =
      (addedKeys ds name).map (KeyClause.change name) := by
  induction ds with
  | nil => rfl
  | cons d ds ih =>
      rw [List.flatMap_cons, waitingChanges_append, List.filter_append,
        ih fun table cs hmem => h table cs (List.mem_cons_of_mem _ hmem), waitingChanges,
        addedKeys, addedKeys, List.flatMap_cons, List.map_append]
      refine congrArg (· ++ _) ?_
      cases d with
      | create l => rfl
      | alter table cs =>
          have hchanges : (cs.map (KeyClause.step table)).filterMap Step.change? =
              cs.map (KeyClause.change table) := by
            have hstep : Step.change? ∘ KeyClause.step table = some ∘ KeyClause.change table :=
              funext (KeyClause.change?_step (h table cs List.mem_cons_self))
            rw [List.filterMap_map, hstep, List.filterMap_eq_map]
          rw [Declaration.steps, hchanges, List.filter_map]
          -- The changes of one statement all go to one table, so they are kept or left out
          -- together.
          by_cases hname : table = name
          · subst hname
            simp [Declaration.addedTo, Function.comp_def]
          · simp [Declaration.addedTo, Function.comp_def, hname]

/-- A step of a declaration adds a table or a key. So no view and no warning comes from a
declaration. -/
theorem mem_steps {ds : List Declaration} {step : Step}
    (h : step ∈ ds.flatMap Declaration.steps) :
    (∃ l ∈ layouts ds, step = l.step) ∨
      ∃ table cs, .alter table cs ∈ ds ∧ ∃ c : KeyClause, step = c.step table := by
  obtain ⟨d, hd, hstep⟩ := List.mem_flatMap.1 h
  cases d with
  | create l => exact .inl ⟨l, List.mem_filterMap.2 ⟨_, hd, rfl⟩, List.mem_singleton.1 hstep⟩
  | alter table cs =>
      obtain ⟨c, -, rfl⟩ := List.mem_map.1 hstep
      exact .inr ⟨table, cs, hd, c, rfl⟩

namespace LaysOut

variable {ds : List Declaration} {ts : List TableDefinition}

/-- The tables are created under the names of their definitions. -/
theorem map_name_layouts (h : LaysOut ds ts) :
    (layouts ds).map (·.name) = ts.map (·.name) := by
  have key {ls : List TableLayout} {us : List TableDefinition}
      (hls : List.Forall₂ (Declares ds) ls us) : ls.map (·.name) = us.map (·.name) := by
    induction hls with
    | nil => rfl
    | cons hl _ ih => rw [List.map_cons, List.map_cons, hl.name, ih]
  exact key h.creates

/-- A name that is altered is that of a table. -/
theorem isBareName_of_alter (h : LaysOut ds ts) {table : String} {cs : List KeyClause}
    (hmem : .alter table cs ∈ ds) : IsBareName table := by
  obtain ⟨t, ht, rfl⟩ := List.mem_map.1 (h.altered table cs hmem)
  exact h.bare t ht

/-- The names of the tables that are created have no quotation marks in them. -/
theorem isBareName_of_mem (h : LaysOut ds ts) {l : TableLayout} (hl : l ∈ layouts ds) :
    IsBareName l.name := by
  have hmem : l.name ∈ ts.map (·.name) := h.map_name_layouts ▸ List.mem_map_of_mem hl
  obtain ⟨t, ht, hname⟩ := List.mem_map.1 hmem
  exact hname ▸ h.bare t ht

/-- The names of the tables name no schema. -/
theorem findSome?_schemaPart_steps (h : LaysOut ds ts) :
    ((ds.flatMap Declaration.steps).filterMap Step.qualified?).findSome? Sql.schemaPart = none := by
  rw [List.findSome?_eq_none_iff]
  intro qualified hmem
  obtain ⟨step, hstep, hqualified⟩ := List.mem_filterMap.1 hmem
  rcases mem_steps hstep with ⟨l, hl, rfl⟩ | ⟨table, cs, -, c, rfl⟩
  · obtain rfl : Sql.quoteParts [l.name] = qualified := Option.some.inj hqualified
    rw [Sql.quoteParts_singleton, Sql.schemaPart_quoted (by decide)
      (Sql.notMem_of_isQuoteMark (by decide) (h.isBareName_of_mem hl).1)]
  · cases c <;> cases hqualified

/-- The tables that are added have the names of the definitions. -/
theorem map_name_addedTables (h : LaysOut ds ts) :
    (addedTables (ds.flatMap Declaration.steps)).map (·.name) = ts.map (·.name) := by
  rw [addedTables_steps, List.map_map, ← h.map_name_layouts]
  exact List.map_congr_left fun l _ => (toTable_fields _ _).1

/-- Every change finds its table. -/
theorem filter_unknown_waitingChanges (h : LaysOut ds ts) :
    (waitingChanges (ds.flatMap Declaration.steps)).filter
      (·.table ∉ (addedTables (ds.flatMap Declaration.steps)).map (·.name)) = [] := by
  rw [List.filter_eq_nil_iff, h.map_name_addedTables]
  intro change hmem
  obtain ⟨step, hstep, hchange⟩ := List.mem_filterMap.1 hmem
  rcases mem_steps hstep with ⟨l, -, rfl⟩ | ⟨table, cs, halter, c, rfl⟩
  · cases hchange
  · rw [KeyClause.change?_step (h.isBareName_of_alter halter).1] at hchange
    obtain rfl := Option.some.inj hchange
    simpa using h.altered table cs halter

/-- Each table gets the keys that are added to its name. -/
theorem settle_steps (h : LaysOut ds ts) :
    settle (waitingChanges (ds.flatMap Declaration.steps))
      (addedTables (ds.flatMap Declaration.steps)) = (layouts ds).map (·.altered ds) := by
  rw [settle_of_nodup _ (h.map_name_addedTables ▸ h.nodup), addedTables_steps, List.map_map]
  refine List.map_congr_left fun l _ => ?_
  show l.added.withChanges _ = _
  have hname : l.added.name = l.name := (toTable_fields _ _).1
  rw [Table.withChanges, hname, filter_waitingChanges
    (fun table cs hmem => (h.isBareName_of_alter hmem).1), TableLayout.altered]

/-- The declarations make a schema of their tables, each with the keys that are added to it, and
nothing is left to warn about. -/
theorem assemble_steps (h : LaysOut ds ts) (dialect : Sql.Dialect) :
    assemble dialect (ds.flatMap Declaration.steps) =
      ({ dbType := dialect.name, tables := (layouts ds).map (·.altered ds) }, []) := by
  -- Neither kind of declaration gives a view or a warning, so that tables and their changes are all
  -- there is.
  have hviews : (ds.flatMap Declaration.steps).filterMap Step.view? = [] := by
    rw [List.filterMap_eq_nil_iff]
    intro step hstep
    rcases mem_steps hstep with ⟨l, -, rfl⟩ | ⟨table, cs, -, c, rfl⟩
    · rfl
    · cases c <;> rfl
  have hwarnings : (ds.flatMap Declaration.steps).filterMap Step.warning? = [] := by
    rw [List.filterMap_eq_nil_iff]
    intro step hstep
    rcases mem_steps hstep with ⟨l, -, rfl⟩ | ⟨table, cs, -, c, rfl⟩
    · rfl
    · cases c <;> rfl
  rw [assemble_eq, h.findSome?_schemaPart_steps, hviews, hwarnings,
    h.filter_unknown_waitingChanges, h.settle_steps]
  rfl

/-- A script of the declarations is read as their tables, without warnings. The tables are given
here as they are altered, and compared with their definitions afterwards. -/
theorem read_scripted (h : LaysOut ds ts) (hts : ts ≠ []) (grammar : Grammar)
    (dialect : Sql.Dialect) {sql : String} (hsql : Scripted ds sql.toList) :
    Backend.vendor.read grammar dialect sql =
      .ok ({ dbType := dialect.name, tables := (layouts ds).map (·.altered ds) }, []) := by
  have hscript : script sql = .ok (ds.flatMap Declaration.steps) :=
    statements_scripted hsql fun table cs hmem => (h.isBareName_of_alter hmem).2
  have hsteps : Backend.vendor.steps grammar dialect sql =
      .ok (ds.flatMap Declaration.steps) := by
    rw [Backend.steps, hscript]
  -- There is a table, so there is a step that adds one.
  have hany : (ds.flatMap Declaration.steps).any Backend.addsTable = true := by
    cases hls : layouts ds with
    | nil =>
        have hnames := h.map_name_layouts
        rw [hls] at hnames
        exact absurd (List.map_eq_nil_iff.1 hnames.symm) hts
    | cons l ls =>
        have hl : l ∈ layouts ds := hls ▸ List.mem_cons_self
        obtain ⟨d, hd, hlayout⟩ := List.mem_filterMap.1 hl
        cases d with
        | create l' =>
            exact List.any_eq_true.2
              ⟨l'.step, List.mem_flatMap.2 ⟨_, hd, List.mem_singleton_self _⟩, rfl⟩
        | alter table cs => cases hlayout
  rw [Backend.read, hsteps]
  show Backend.schemaOf dialect _ = _
  rw [Backend.schemaOf, if_pos hany, h.assemble_steps]

end LaysOut

/-! ### Foreign keys on columns -/

namespace Element

/-- Of one element, all foreign keys are kept exactly if it is no column with two of them. The three
parts make a statement about lengths, which adds up over the elements of a body. -/
theorem keptForeignKeys_eq_iff (e : Element) :
    (e.keptForeignKeys.length ≤ e.foreignKeys.length) ∧
      ((∀ c ∈ e.column?, c.foreignKeys.length ≤ 1) → e.keptForeignKeys = e.foreignKeys) ∧
      (e.keptForeignKeys.length = e.foreignKeys.length →
        ∀ c ∈ e.column?, c.foreignKeys.length ≤ 1) := by
  cases e with
  | clause c => simp [keptForeignKeys, foreignKeys, column?]
  | column c =>
      simp only [keptForeignKeys, foreignKeys, column?, Option.mem_some_iff, forall_eq']
      cases hkeys : c.foreignKeys with
      | nil => simp
      | cons f fs =>
          cases fs with
          | nil => simp
          | cons f' fs => simp [List.getLast?_cons]

/-- The foreign keys of a body are all kept exactly if no column has two of them; otherwise fewer
are kept. -/
theorem flatMap_keptForeignKeys (es : List Element) :
    (es.flatMap keptForeignKeys).length ≤ (es.flatMap foreignKeys).length ∧
      ((∀ c ∈ es.filterMap column?, c.foreignKeys.length ≤ 1) →
        es.flatMap keptForeignKeys = es.flatMap foreignKeys) ∧
      ((es.flatMap keptForeignKeys).length = (es.flatMap foreignKeys).length →
        ∀ c ∈ es.filterMap column?, c.foreignKeys.length ≤ 1) := by
  induction es with
  | nil => simp
  | cons e es ih =>
      obtain ⟨hle, heq, hlength⟩ := e.keptForeignKeys_eq_iff
      obtain ⟨ihle, iheq, ihlength⟩ := ih
      have hmem (c : ColumnLayout) :
          c ∈ (e :: es).filterMap column? ↔ c ∈ e.column? ∨ c ∈ es.filterMap column? := by
        cases hcolumn : e.column? <;> simp [hcolumn, eq_comm]
      simp only [List.flatMap_cons, List.length_append, hmem]
      refine ⟨Nat.add_le_add hle ihle, fun h => ?_, fun h c hc => ?_⟩
      · rw [heq fun c hc => h c (.inl hc), iheq fun c hc => h c (.inr hc)]
      · -- Neither part is longer than it was, so both have kept their length.
        have hhead : e.keptForeignKeys.length = e.foreignKeys.length := by omega
        have htail : (es.flatMap keptForeignKeys).length =
            (es.flatMap foreignKeys).length := by omega
        exact hc.elim (hlength hhead c) (ihlength htail c)

end Element

/-- The foreign keys that are read of a table are those that are declared, in some order, exactly if
no column has two declared on it. -/
theorem Declares.perm_foreignKeys_iff {ds : List Declaration} {l : TableLayout}
    {t : TableDefinition} (h : Declares ds l t) :
    (l.altered ds).foreignKeys.Perm t.table.foreignKeys ↔
      ∀ c ∈ l.columns, c.foreignKeys.length ≤ 1 := by
  obtain ⟨-, heq, hlength⟩ := Element.flatMap_keptForeignKeys l.elements
  rw [h.altered_eq]
  constructor
  · intro hperm
    refine hlength ?_
    -- As many foreign keys are read as are declared, and the added ones are the same.
    have hread := hperm.length_eq
    have hdeclared := h.foreignKeys.length_eq
    simp only [TableDefinition.table, List.length_map, List.length_append] at hread hdeclared
    simp only [TableLayout.keptForeignKeys, TableLayout.foreignKeys] at hread hdeclared
    omega
  · intro hone
    have hkept : l.keptForeignKeys = l.foreignKeys := heq hone
    rw [hkept]
    exact h.foreignKeys.map _

/-- Table by table, everything but the foreign keys is read as it is declared, and the foreign keys
are exactly if no column has two. -/
theorem forall₂_declares {ds : List Declaration} {ls : List TableLayout}
    {ts : List TableDefinition} (h : List.Forall₂ (Declares ds) ls ts) :
    ((ls.map (·.altered ds)).map fun t => { t with foreignKeys := [] }) =
        ((ts.map TableDefinition.table).map fun t => { t with foreignKeys := [] }) ∧
      (List.Forall₂ (fun t t' : Table => t.foreignKeys.Perm t'.foreignKeys)
          (ls.map (·.altered ds)) (ts.map TableDefinition.table) ↔
        ∀ l ∈ ls, ∀ c ∈ l.columns, c.foreignKeys.length ≤ 1) := by
  induction h with
  | nil => simp
  | cons hl hls ih =>
      obtain ⟨htables, hperm⟩ := ih
      simp only [List.map_cons, List.forall₂_cons, List.forall_mem_cons, hperm,
        hl.perm_foreignKeys_iff, htables, and_true]
      rw [hl.altered_eq]

/-- A key counts wherever it is declared. However the primary and foreign keys of some tables are
spread over columns, clauses and alterations, the tolerant reader gets the same tables out of the
script, without warnings and apart from the foreign keys. The foreign keys of each table are those
that are declared, in some order, exactly if no column has two of them declared on it; of those,
only the last one is read. -/
theorem read_laidOut (grammar : Grammar) (dialect : Sql.Dialect) {ds : List Declaration}
    {ts : List TableDefinition} {sql : String} (hts : ts ≠ []) (hlaid : LaysOut ds ts)
    (hsql : Scripted ds sql.toList) :
    ∃ s, Backend.vendor.read grammar dialect sql = .ok (s, []) ∧
      s.withoutForeignKeys = Schema.withoutForeignKeys
        { dbType := dialect.name, tables := ts.map TableDefinition.table } ∧
      (s.SameForeignKeys { dbType := dialect.name, tables := ts.map TableDefinition.table } ↔
        ∀ l ∈ layouts ds, ∀ c ∈ l.columns, c.foreignKeys.length ≤ 1) := by
  obtain ⟨htables, hperm⟩ := forall₂_declares hlaid.creates
  refine ⟨_, hlaid.read_scripted hts grammar dialect hsql, ?_, hperm⟩
  rw [Schema.withoutForeignKeys, Schema.withoutForeignKeys]
  exact congrArg (fun tables => ({ dbType := dialect.name, tables } : Schema)) htables

/-- The word of a type. -/
def exampleTypeWord : String := "INT"

/-- A type without arguments. -/
def exampleType : DeclaredType :=
  ⟨⟨exampleTypeWord, by decide, by decide⟩, .none, by decide, by decide, by decide⟩

/-- Two tables, the second of which refers to the first. -/
def exampleTables : List TableDefinition := [
  { name := "user"
    columns := [{ name := "id", type := exampleType, options := [.autoIncrement] }]
    key := some { name := none, columns := ["id"] }
    foreignKeys := []
    comment := none
    distinct := by decide
    declared := by decide },
  { name := "order"
    columns := [
      { name := "id", type := exampleType, options := [] },
      { name := "user", type := exampleType, options := [.notNull] }]
    key := some { name := some "pk", columns := ["user", "id"] }
    foreignKeys := [
      { name := some "fk", columns := ["id"], toTable := "user", toColumns := ["id"]
        onDelete := none, onUpdate := none },
      { name := none, columns := ["user"], toTable := "user", toColumns := ["id"]
        onDelete := some .cascade, onUpdate := some .setNull }]
    comment := some "orders"
    distinct := by decide
    declared := by decide }]

/-- The tables with keys at all three places: an alteration comes before its table. -/
def exampleDeclarations : List Declaration := [
  .alter "order" [
    .foreign (some "fk") ["id"]
      { toTable := "user", toColumns := ["id"], onDelete := none, onUpdate := none
        updateFirst := false },
    .primary { name := some "pk", columns := ["user", "id"] }],
  .create {
    name := "user"
    elements := [.column
      { name := "id", type := exampleType, items := [.primaryKey, .option .autoIncrement] }]
    comment := none },
  .create {
    name := "order"
    elements := [
      .column { name := "id", type := exampleType, items := [] },
      .column {
        name := "user"
        type := exampleType
        items := [
          .references
            { toTable := "user", toColumns := ["id"], onDelete := some .cascade
              onUpdate := some .setNull, updateFirst := true },
          .option .notNull] }]
    comment := some "orders" }]

/-- The declarations declare the tables. -/
theorem laysOut_exampleDeclarations : LaysOut exampleDeclarations exampleTables where
  creates := .cons ⟨rfl, rfl, rfl, rfl, by decide⟩ (.cons ⟨rfl, rfl, rfl, rfl, by decide⟩ .nil)
  nodup := by decide
  bare := by decide
  altered := by
    intro table cs h
    simp [exampleDeclarations] at h
    rw [h.1]
    decide

/-- The text of the declarations. -/
def exampleDeclarationText : String :=
  String.ofList (spell (exampleDeclarations.flatMap Declaration.lexemes))

/-- The tables are read out of the text. The keys of the second table are given by an alteration in
front of it and on one of its columns. -/
theorem read_exampleDeclarations :
    exampleTables ≠ [] ∧ LaysOut exampleDeclarations exampleTables ∧
      Scripted exampleDeclarations exampleDeclarationText.toList ∧
      ∃ s, Backend.vendor.read (fun _ _ => .error "") .mySql exampleDeclarationText = .ok (s, []) ∧
        s.withoutForeignKeys = Schema.withoutForeignKeys
          { dbType := "mysql", tables := exampleTables.map TableDefinition.table } ∧
        (s.SameForeignKeys
            { dbType := "mysql", tables := exampleTables.map TableDefinition.table } ↔
          ∀ l ∈ layouts exampleDeclarations, ∀ c ∈ l.columns, c.foreignKeys.length ≤ 1) := by
  have hscripted : Scripted exampleDeclarations exampleDeclarationText.toList := by
    rw [exampleDeclarationText, String.toList_ofList]
    exact scripted_spell _
  exact ⟨by simp [exampleTables], laysOut_exampleDeclarations, hscripted,
    read_laidOut _ .mySql (by simp [exampleTables]) laysOut_exampleDeclarations hscripted⟩

/-- A table whose only column refers to two tables. -/
def exampleTwoKeys : TableDefinition where
  name := "t"
  columns := [{ name := "a", type := exampleType, options := [] }]
  key := none
  foreignKeys := [
    { name := none, columns := ["a"], toTable := "x", toColumns := ["id"], onDelete := none
      onUpdate := none },
    { name := none, columns := ["a"], toTable := "y", toColumns := ["id"], onDelete := none
      onUpdate := none }]
  comment := none
  distinct := by decide
  declared := by decide

/-- The table with both keys declared on the column. -/
def exampleTwoReferences : List Declaration := [
  .create {
    name := "t"
    elements := [.column {
      name := "a"
      type := exampleType
      items := [
        .references
          { toTable := "x", toColumns := ["id"], onDelete := none, onUpdate := none
            updateFirst := false },
        .references
          { toTable := "y", toColumns := ["id"], onDelete := none, onUpdate := none
            updateFirst := false }] }]
    comment := none }]

/-- Of two foreign keys that are declared on one column, the first is lost. Both of them are in the
definition, and the grammar of the data definition language allows it. -/
theorem not_sameForeignKeys_exampleTwoReferences :
    LaysOut exampleTwoReferences [exampleTwoKeys] ∧
      Scripted exampleTwoReferences (spell (exampleTwoReferences.flatMap Declaration.lexemes)) ∧
      ∃ s, Backend.vendor.read (fun _ _ => .error "") .mySql
          (String.ofList (spell (exampleTwoReferences.flatMap Declaration.lexemes))) =
            .ok (s, []) ∧
        ¬ s.SameForeignKeys { dbType := "mysql", tables := [exampleTwoKeys.table] } := by
  have hlaid : LaysOut exampleTwoReferences [exampleTwoKeys] :=
    { creates := .cons ⟨rfl, rfl, rfl, rfl, by decide⟩ .nil
      nodup := by decide
      bare := by decide
      altered := by
        intro table cs h
        simp [exampleTwoReferences] at h }
  have hscripted := scripted_spell exampleTwoReferences
  refine ⟨hlaid, hscripted, _, hlaid.read_scripted (by simp) _ _
    (by rw [String.toList_ofList]; exact hscripted), fun hsame => ?_⟩
  -- The criterion asks for at most one reference with each column, and the example has two with
  -- one.
  have hone := (forall₂_declares hlaid.creates).2.1 hsame
  exact absurd hone (by decide)

end Ddl

end EntityDiagram
