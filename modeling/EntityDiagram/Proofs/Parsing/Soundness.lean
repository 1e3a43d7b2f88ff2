import EntityDiagram.Proofs.Ddl.Soundness
import EntityDiagram.Proofs.Parsing.Fallback

/-!
# `EntityDiagram.Proofs.Parsing.Soundness`: every backend that answers makes sound tables

Each backend builds its tables in its own way: the grammar applies the constraints of a definition
one after the other, the vendor reader goes through tokens, and the regex reader through the parts
of a body. For each of them one definition preserves what soundness needs, hence all definitions of
a table do, and hence all steps of a script are sound (`sound_steps`). What a backend answers with
is put together from these steps alone.

The reader of tokens has a module of its own, `EntityDiagram.Proofs.Ddl.Soundness`. The parts here
are the other two, and then the three together: `Backend.sound_steps` is by cases on the backend,
and nothing behind it asks again which one it was. The statement about results does not assume that
the text is well formed, or that the grammar is right; a grammar is any function that takes a text
apart into statements, and even what it makes up gives sound tables.
-/

set_option autoImplicit false

namespace EntityDiagram

/-! ### Excerpts -/

namespace Excerpt

/-- A foreign key that an excerpt finds is given the table that it was looked for in. -/
theorem startsFrom_foreignKey? (table : String) (s : List Char) :
    ∀ key ∈ foreignKey? table s, key.StartsFrom table := by
  intro key hkey
  obtain ⟨clause, _, rfl⟩ := Option.map_eq_some_iff.1 hkey
  exact ⟨rfl, rfl⟩

/-- So is one that stands in the definition of a column. -/
theorem startsFrom_column? {table name : String} {definition : List Char} {c : ColumnReading}
    (h : column? table name definition = some c) : ∀ key ∈ c.foreignKey, key.StartsFrom table := by
  obtain ⟨cut, _, rfl⟩ := Option.map_eq_some_iff.1 h
  intro key hkey
  obtain ⟨clause, _, rfl⟩ := Option.map_eq_some_iff.1 hkey
  exact ⟨rfl, rfl⟩

/-- A table whose parts are still being added: it has no key and no kind yet, and the foreign keys
are its own. -/
structure Unfinished (t : Table) : Prop where
  primaryKey : t.primaryKey = none
  kind : t.kind = none
  foreignKeys : ∀ key ∈ t.foreignKeys, key.StartsFrom t.name

/-- Foreign keys of the table, columns and indexes leave it unfinished. -/
theorem Unfinished.append {t : Table} (h : Unfinished t) (columns : List Column)
    (indexes : List Index) {keys : List ForeignKey} (hkeys : ∀ key ∈ keys, key.StartsFrom t.name) :
    Unfinished { t with columns, indexes, foreignKeys := t.foreignKeys ++ keys } := by
  refine ⟨h.primaryKey, h.kind, fun key hkey => ?_⟩
  rcases List.mem_append.1 hkey with hkey | hkey
  · exact h.foreignKeys key hkey
  · exact hkeys key hkey

/-- A part of the body leaves the table unfinished. -/
theorem Unfinished.addPart {read : Table × Option PrimaryKey} (h : Unfinished read.1)
    (part : List Char) : Unfinished (addPart read part).1 := by
  obtain ⟨t, key⟩ := read
  -- The kinds of clauses are tried in the order of the program. Only two of them add a foreign key.
  unfold Excerpt.addPart
  dsimp only
  split
  · exact h
  · split
    · rename_i foreign hforeign
      refine h.append t.columns t.indexes fun key hkey => ?_
      rw [List.mem_singleton.1 hkey]
      exact startsFrom_foreignKey? _ _ _ hforeign
    · split
      · exact ⟨h.primaryKey, h.kind, h.foreignKeys⟩
      · split
        · exact h
        · split
          · rename_i c hc
            obtain ⟨clause, _, hcolumn⟩ := Option.bind_eq_some_iff.1 hc
            exact h.append _ _ fun key hkey =>
              startsFrom_column? hcolumn key (Option.mem_toList.1 hkey)
          · exact h

/-- So do all parts of the body. -/
theorem Unfinished.addParts {read : Table × Option PrimaryKey} (h : Unfinished read.1)
    (parts : List (List Char)) : Unfinished (parts.foldl Excerpt.addPart read).1 := by
  induction parts generalizing read with
  | nil => exact h
  | cons part parts ih => exact ih (h.addPart part)

/-- A key finishes the table. -/
theorem Unfinished.finish {t : Table} (h : Unfinished t) (key : Option PrimaryKey) :
    let finished := match key with
      | some key => t.markPrimaryKey key
      | none => t
    finished.Sound ∧ finished.kind = none := by
  cases key with
  | some key => exact ⟨Table.sound_markPrimaryKey h.foreignKeys key, h.kind⟩
  | none => exact ⟨.of_primaryKey_eq_none h.primaryKey h.foreignKeys, h.kind⟩

/-- A table that is made of a raw one is sound: its parts are added to a table without keys, and the
primary key is marked last. -/
theorem sound_toTable (raw : RawTable) : raw.toTable.Sound ∧ raw.toTable.kind = none := by
  let start : Table × Option PrimaryKey :=
    ({ name := Sql.objectName raw.qualifiedName, comment := raw.comment }, none)
  have hstart : Unfinished start.1 := ⟨rfl, rfl, fun _ hkey => by cases hkey⟩
  have h := hstart.addParts (Sql.splitTopLevel raw.body.toList)
  unfold RawTable.toTable
  dsimp only
  split
  · exact h.finish (some _)
  · split
    · exact h.finish none
    · exact h.finish (some _)

/-- What later statements add is a foreign key of the table they name, or a primary key. -/
theorem sound_additions (sql : String) : ∀ s ∈ additions sql, s.Sound := by
  intro s hs
  obtain ⟨found, _, hs⟩ := List.mem_filterMap.1 hs
  unfold addition at hs
  dsimp only at hs
  split at hs
  · rename_i key hkey
    obtain rfl := Option.some.inj hs
    exact (startsFrom_foreignKey? _ _ key hkey).cardinality
  · obtain ⟨key, _, rfl⟩ := Option.map_eq_some_iff.1 hs
    trivial

/-- The steps that excerpts of a script make are sound. -/
theorem sound_script (sql : String) : ∀ s ∈ script sql, s.Sound := by
  intro s hs
  simp only [script, List.mem_append, List.mem_singleton, List.mem_map] at hs
  obtain ((rfl | ⟨raw, _, rfl⟩) | ⟨name, _, rfl⟩) | hadded := hs
  · trivial
  · exact sound_toTable raw
  · trivial
  · exact sound_additions sql s hadded

end Excerpt

/-! ### Statements of a grammar -/

namespace Statement

/-- The references among the options of a column are foreign keys of its table. -/
theorem startsFrom_columnKeys (table : String) (d : ColumnDef) :
    ∀ key ∈ columnKeys table d, key.StartsFrom table := by
  intro key hkey
  obtain ⟨o, _, hkey⟩ := List.mem_filterMap.1 hkey
  split at hkey
  · obtain rfl := Option.some.inj hkey
    exact ⟨rfl, rfl⟩
  · cases hkey

/-- A constraint of its definition leaves a table sound. -/
theorem sound_applyConstraint {t : Table} (h : t.Sound) (c : TableConstraint) :
    (applyConstraint t c).Sound := by
  cases c with
  | primaryKey => exact Table.sound_markPrimaryKey h.foreignKeys _
  | foreignKey => exact h.withForeignKey ⟨rfl, rfl⟩
  | _ => exact ⟨h.foreignKeys, h.primaryKey⟩

/-- No constraint says what kind of table it is. -/
theorem kind_applyConstraint (t : Table) (c : TableConstraint) :
    (applyConstraint t c).kind = t.kind := by
  cases c <;> rfl

/-- So do all constraints, which do not give it a kind either. -/
theorem sound_applyConstraints {t : Table} (h : t.Sound) (constraints : List TableConstraint) :
    (constraints.foldl applyConstraint t).Sound ∧
      (constraints.foldl applyConstraint t).kind = t.kind := by
  induction constraints generalizing t with
  | nil => exact ⟨h, rfl⟩
  | cons c constraints ih =>
      obtain ⟨hsound, hkind⟩ := ih (sound_applyConstraint h c)
      exact ⟨hsound, hkind.trans (kind_applyConstraint t c)⟩

/-- A table that a grammar has read is sound. The references of its columns come first, then its
constraints in turn, and the primary key is marked last where columns alone declare it. -/
theorem sound_tableOf (create : CreateTable) :
    (tableOf create).Sound ∧ (tableOf create).kind = none := by
  unfold tableOf
  extract_lets name columns declared t keys
  have hdeclared : declared.Sound := by
    refine .of_primaryKey_eq_none rfl fun key hkey => ?_
    obtain ⟨d, _, hkey⟩ := List.mem_flatMap.1 hkey
    exact startsFrom_columnKeys name d key hkey
  obtain ⟨hsound, hkind⟩ := sound_applyConstraints hdeclared create.constraints
  split
  · exact ⟨Table.sound_markPrimaryKey hsound.foreignKeys _, hkind⟩
  · exact ⟨hsound, hkind⟩

/-- A table definition makes a step that adds it, and perhaps a warning before. -/
theorem sound_tableSteps (comments : List (String × String)) (create : CreateTable) :
    ∀ s ∈ tableSteps comments create, s.Sound := by
  intro s hs
  rcases List.mem_append.1 hs with hs | hs
  · split at hs
    · obtain rfl := List.mem_singleton.1 hs
      trivial
    · cases hs
  · obtain rfl := List.mem_singleton.1 hs
    obtain ⟨hsound, hkind⟩ := sound_tableOf create
    -- The comment is none of the parts that soundness is about.
    exact ⟨⟨hsound.foreignKeys, hsound.primaryKey⟩, hkind⟩

/-- Whatever statement the grammar has read, its steps are sound. -/
theorem sound_stepsOf (comments : List (String × String)) (statement : Statement) :
    ∀ s ∈ stepsOf comments statement, s.Sound := by
  intro s hs
  cases statement with
  | createTable create => exact sound_tableSteps comments create s hs
  | alterTable name added =>
      obtain ⟨c, _, hs⟩ := List.mem_filterMap.1 hs
      cases c with
      | foreignKey => obtain rfl := Option.some.inj hs; exact rfl
      | primaryKey | unique => obtain rfl := Option.some.inj hs; trivial
      | _ => cases hs
  | createIndex | createView => obtain rfl := List.mem_singleton.1 hs; trivial
  | other => cases hs

end Statement

/-! ### Backends -/

namespace Parsing.Backend

/-- Whatever a script is, each backend reads it as sound steps. -/
theorem sound_steps {grammar : Grammar} {b : Backend} {dialect : Sql.Dialect} {sql : String}
    {steps : List Step} (h : b.steps grammar dialect sql = .ok steps) :
    ∀ s ∈ steps, s.Sound := by
  -- Each backend has its own reader, whose steps are sound for reasons of its own.
  cases b with
  | grammar =>
      simp only [Backend.steps] at h
      split at h
      · cases h
        intro s hs
        obtain ⟨statement, _, hs⟩ := List.mem_flatMap.1 hs
        exact Statement.sound_stepsOf _ statement s hs
      · cases h
  | vendor =>
      simp only [Backend.steps] at h
      split at h
      · rename_i found hfound
        cases h
        exact Ddl.sound_statements hfound
      · cases h
  | regex =>
      cases h
      exact Excerpt.sound_script sql

/-- **A backend that answers does so with tables that are well formed.** There is a table at least.
In every table the foreign keys start from it and are not classified yet, the kind is that of a
base table, and a name in the primary key is that of a key column that is NOT NULL, or else that of
no column, in whatever case its letters are. -/
theorem sound_tables_of_read {grammar : Grammar} {b : Backend} {dialect : Sql.Dialect}
    {sql : String} {s : Schema} {warnings : List String}
    (h : b.read grammar dialect sql = .ok (s, warnings)) :
    s.tables ≠ [] ∧ ∀ t ∈ s.tables,
      (∀ key ∈ t.foreignKeys, key.fromTable = t.name ∧ key.cardinality = none) ∧
        t.kind = some .base ∧
        ∀ name ∈ t.keyColumns,
          (∃ c ∈ t.columns, c.name = name ∧ c.inPrimaryKey = true ∧ c.nullable = false) ∨
            ∀ c ∈ t.columns, Text.eqIgnoreCase c.name name = false := by
  refine ⟨tables_ne_nil_of_read h, ?_⟩
  rw [Backend.read] at h
  -- No schema comes without steps, and what is known of the steps is handed to the tables.
  cases hsteps : b.steps grammar dialect sql with
  | error e => rw [hsteps] at h; cases h
  | ok steps =>
      rw [hsteps] at h
      change schemaOf dialect steps = _ at h
      rw [schemaOf] at h
      split at h
      · have hs : s = (assemble dialect steps).1 := by
          rw [Except.ok.inj h]
        intro t ht
        rw [hs] at ht
        obtain ⟨hsound, hkind⟩ := sound_assemble dialect (sound_steps hsteps) t ht
        exact ⟨fun key hkey => ⟨(hsound.foreignKeys key hkey).fromTable,
          (hsound.foreignKeys key hkey).cardinality⟩, hkind, hsound.primaryKey⟩
      · cases h

/-- A script with a key that names its column in other letters, a foreign key, and a key that comes
later and names a column which does not exist. -/
def ordersScript : String :=
  "CREATE TABLE users (id INT, PRIMARY KEY (ID));
  CREATE TABLE orders (user_id INT, FOREIGN KEY (user_id) REFERENCES users (id));
  ALTER TABLE orders ADD PRIMARY KEY (user_id, line)"

set_option maxRecDepth 2000 in
/-- The vendor reader answers on that script, with these keys and foreign keys. -/
theorem sound_tables_of_read_ordersScript :
    ∃ s warnings,
      Backend.vendor.read (fun _ _ => .error "") .mySql ordersScript = .ok (s, warnings) ∧
      s.tables.map (fun t => (t.keyColumns, t.foreignKeys.map (·.fromTable))) =
        [(["id"], []), (["user_id", "line"], ["orders"])] ∧
      s.tables ≠ [] ∧ ∀ t ∈ s.tables,
        (∀ key ∈ t.foreignKeys, key.fromTable = t.name ∧ key.cardinality = none) ∧
          t.kind = some .base ∧
          ∀ name ∈ t.keyColumns,
            (∃ c ∈ t.columns, c.name = name ∧ c.inPrimaryKey = true ∧ c.nullable = false) ∨
              ∀ c ∈ t.columns, Text.eqIgnoreCase c.name name = false := by
  have hkeys : (Backend.vendor.read (fun _ _ => .error "") .mySql ordersScript).toOption.map
      (fun answer => answer.1.tables.map fun t => (t.keyColumns, t.foreignKeys.map (·.fromTable))) =
        some [(["id"], []), (["user_id", "line"], ["orders"])] := by
    -- The literal is opened by a lemma, since to decode it would take the kernel long.
    have hchars : ordersScript.toList = _ := String.toList_ofList
    rw [Backend.read, Backend.steps, Ddl.script, hchars]
    decide +kernel
  cases h : Backend.vendor.read (fun _ _ => .error "") .mySql ordersScript with
  | error e => rw [h] at hkeys; cases hkeys
  | ok answer =>
      rw [h] at hkeys
      exact ⟨answer.1, answer.2, rfl, Option.some.inj hkeys, sound_tables_of_read h⟩

end Parsing.Backend

end EntityDiagram
