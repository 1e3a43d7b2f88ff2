import EntityDiagram.Proofs.Schema.Change

/-!
# `EntityDiagram.Proofs.Schema.Assembly`: where the waiting changes go

`assemble` lets keys and indexes wait until every table is known and then applies them one after
the other, each to the first table of its name. This module turns the order around: `settle` goes
through the tables once, and the first table of a name takes all the changes to that name.

* `foldl_applyChange`: applying the changes settles them, and those of an unknown table warn.
* `settle_of_nodup`: among tables of different names, each takes the changes to its name.
* `assemble_eq`: the schema and the warnings that any steps make.
* `assemble_applies_to_first`: the table at each position with what it has taken up, and the changes
  that are left out.

A name under which a change waits has lost its schema. So the changes to `b.users` go to the table
`users` that was added first, and `assemble_twoSchemas` is a script in which that is `a.users`.
-/

set_option autoImplicit false

namespace EntityDiagram

/-! ### What a step contributes -/

namespace Step

/-- The table that a step adds, as it is added. A table that is added without a kind is a base
table. -/
def table? : Step → Option Table
  | .addTable _ t => some { t with kind := some (t.kind.getD .base) }
  | _ => none

/-- The qualified name under which a step adds a table. -/
def qualified? : Step → Option String
  | .addTable qualified _ => some qualified
  | _ => none

/-- The view that a step adds. -/
def view? : Step → Option View
  | .addView view => some view
  | _ => none

/-- The change that a step leaves waiting. It names its table by the last segment alone. The schema
in front of that segment is lost here. -/
def change? : Step → Option Change
  | .addForeignKey key => some (.foreignKey key)
  | .setPrimaryKey qualified key => some (.primaryKey (Sql.objectName qualified) key)
  | .addIndex qualified index => some (.index (Sql.objectName qualified) index)
  | _ => none

/-- The warning that a step gives. -/
def warning? : Step → Option String
  | .warn text => some text
  | _ => none

end Step

/-- The tables that the steps add, in order. This is what an assembly has, before any change is
applied. -/
def addedTables (steps : List Step) : List Table := steps.filterMap Step.table?

/-- The changes that the steps leave waiting, in order. They are applied when all tables are there,
so that a change may come before its table. -/
def waitingChanges (steps : List Step) : List Change := steps.filterMap Step.change?

/-- Steps add their tables one after the other. -/
theorem addedTables_append (steps more : List Step) :
    addedTables (steps ++ more) = addedTables steps ++ addedTables more := List.filterMap_append

/-- Changes wait in the order of their steps. -/
theorem waitingChanges_append (steps more : List Step) :
    waitingChanges (steps ++ more) = waitingChanges steps ++ waitingChanges more :=
  List.filterMap_append

/-! ### Settling -/

/-- The table with the changes to its name, in order. Changes to other names are passed over, so the
whole list can be handed to every table. -/
def Table.withChanges (changes : List Change) (t : Table) : Table :=
  (changes.filter (·.table == t.name)).foldl Change.apply t

/-- The tables with the changes to them: the first table of a name takes all changes to it. A later
table of the name meets none of them, since they have been used up. -/
def settle (changes : List Change) : List Table → List Table
  | [] => []
  | t :: ts => t.withChanges changes :: settle (changes.filter (·.table != t.name)) ts

/-- No change renames its table. So a change never makes another one find a different table. -/
theorem Change.name_apply (t : Table) (c : Change) : (c.apply t).name = t.name := by
  cases c <;> rfl

/-- A change to the table comes before the later ones, and any other change is nothing to it. This
is the step for inductions on the changes. -/
theorem Table.withChanges_cons (c : Change) (changes : List Change) (t : Table) :
    t.withChanges (c :: changes) =
      if c.table = t.name then (c.apply t).withChanges changes else t.withChanges changes := by
  by_cases hc : c.table = t.name
  · rw [if_pos hc, withChanges, withChanges, c.name_apply,
      List.filter_cons_of_pos (by simpa using hc), List.foldl_cons]
  · rw [if_neg hc, withChanges, withChanges, List.filter_cons_of_neg (by simpa using hc)]

/-- Changes keep the name of the table. -/
theorem Table.name_withChanges (changes : List Change) (t : Table) :
    (t.withChanges changes).name = t.name := by
  induction changes generalizing t with
  | nil => rfl
  | cons c changes ih =>
      rw [withChanges_cons]
      split
      · rw [ih, c.name_apply]
      · exact ih t

/-- Without changes the tables stay as they are. -/
theorem settle_nil (ts : List Table) : settle [] ts = ts := by
  induction ts with
  | nil => rfl
  | cons t ts ih => exact congrArg (t :: ·) ih

/-- A single change goes to the first table of its name. -/
theorem settle_singleton (c : Change) (t : Table) (ts : List Table) :
    settle [c] (t :: ts) =
      if c.table = t.name then c.apply t :: ts else t :: settle [c] ts := by
  rw [settle, Table.withChanges_cons]
  by_cases hc : c.table = t.name
  · rw [if_pos hc, if_pos hc, List.filter_cons_of_neg (by simp [hc]), List.filter_nil, settle_nil]
    rfl
  · rw [if_neg hc, if_neg hc, List.filter_cons_of_pos (by simp [hc]), List.filter_nil]
    rfl

/-- One change at a time, or all of them at once. The program applies them one after the other, and
looks for the table of each. -/
theorem settle_cons (c : Change) (changes : List Change) (ts : List Table) :
    settle (c :: changes) ts = settle changes (settle [c] ts) := by
  induction ts generalizing changes with
  | nil => rfl
  | cons t ts ih =>
      rw [settle_singleton, settle, Table.withChanges_cons]
      by_cases hc : c.table = t.name
      · -- The change is used up by this table, which is still called what the later ones name.
        rw [if_pos hc, if_pos hc, List.filter_cons_of_neg (by simp [hc]), settle, c.name_apply]
      · rw [if_neg hc, if_neg hc, List.filter_cons_of_pos (by simp [hc]), ih, settle]

/-- A change to none of the tables leaves them as they are. A warning is all that comes of it. -/
theorem settle_of_unknown {c : Change} {ts : List Table} (h : c.table ∉ ts.map (·.name)) :
    settle [c] ts = ts := by
  induction ts with
  | nil => rfl
  | cons t ts ih =>
      rw [List.map_cons, List.mem_cons, not_or] at h
      rw [settle_singleton, if_neg h.1, ih h.2]

/-- A change finds its table unless no table has the name. The lookup and the update are one
function in the program. -/
theorem updateTable?_eq (c : Change) (ts : List Table) :
    Schema.updateTable? c.table c.apply ts =
      if c.table ∈ ts.map (·.name) then some (settle [c] ts) else none := by
  induction ts with
  | nil => rfl
  | cons t ts ih =>
      rw [Schema.updateTable?, settle_singleton]
      by_cases hc : c.table = t.name
      · rw [if_pos (by simp [hc]), if_pos (by simp [hc]), if_pos hc]
      · rw [if_neg (by simpa using Ne.symm hc), if_neg hc, ih, List.map_cons]
        by_cases hmem : c.table ∈ ts.map (·.name)
        · rw [if_pos hmem, if_pos (List.mem_cons_of_mem _ hmem), Option.map_some]
        · rw [if_neg hmem, if_neg (by simp only [List.mem_cons, hc, hmem, or_self, not_false_iff]),
            Option.map_none]

/-- Settled tables keep their names. Their number and order are kept with that. -/
theorem map_name_settle (changes : List Change) (ts : List Table) :
    (settle changes ts).map (·.name) = ts.map (·.name) := by
  induction ts generalizing changes with
  | nil => rfl
  | cons t ts ih => rw [settle, List.map_cons, Table.name_withChanges, ih, List.map_cons]

/-- A single change is settled if its table is known, and gives a warning if not. -/
theorem applyChange_eq (c : Change) (s : Schema) (warnings : List String) :
    Assembly.applyChange (s, warnings) c =
      if c.table ∈ s.tableNames then ({ s with tables := settle [c] s.tables }, warnings)
      else (s, warnings ++ [c.unknownTable]) := by
  rw [Assembly.applyChange, updateTable?_eq, Schema.tableNames]
  split <;> rename_i heq <;> split at heq <;> cases heq <;> simp_all

/-- Applying the changes one after the other settles those whose tables are known. The others give
a warning each. The tables keep their names, so it does not matter when a change asks for its
table. -/
theorem foldl_applyChange (changes : List Change) (s : Schema) (warnings : List String) :
    changes.foldl Assembly.applyChange (s, warnings) =
      ({ s with tables := settle changes s.tables },
       warnings ++ (changes.filter (·.table ∉ s.tableNames)).map Change.unknownTable) := by
  induction changes generalizing s warnings with
  | nil => simp [settle_nil]
  | cons c changes ih =>
      rw [List.foldl_cons, applyChange_eq, settle_cons c changes]
      by_cases hc : c.table ∈ s.tableNames
      · -- The names stay, so the later changes find what they would have found before.
        have hnames : Schema.tableNames { s with tables := settle [c] s.tables } = s.tableNames :=
          map_name_settle [c] s.tables
        rw [if_pos hc, ih, hnames, List.filter_cons_of_neg (by simpa using hc)]
      · rw [if_neg hc, ih, settle_of_unknown hc, List.filter_cons_of_pos (by simpa using hc)]
        simp

/-- Once the changes to a name have been used up, the tables of that name take none. A table of
another name has lost none. -/
theorem Table.withChanges_filter (changes : List Change) (name : String) (t : Table) :
    t.withChanges (changes.filter (·.table != name)) =
      if t.name = name then t else t.withChanges changes := by
  rw [withChanges, List.filter_filter]
  by_cases hname : t.name = name
  · have hnone : changes.filter (fun c => c.table == t.name && c.table != name) = [] := by
      simp [hname]
    rw [if_pos hname, hnone, List.foldl_nil]
  · have hall : changes.filter (fun c => c.table == t.name && c.table != name) =
        changes.filter (·.table == t.name) := by
      refine List.filter_congr fun c _ => ?_
      by_cases hc : c.table = t.name <;> simp [hc, hname]
    rw [if_neg hname, hall, withChanges]

/-- Settled tables by position: only the first table of a name takes changes. This is the form for
statements about a table at a place. -/
theorem settle_eq_mapIdx (changes : List Change) (ts : List Table) :
    settle changes ts = ts.mapIdx fun i t =>
      if t.name ∈ (ts.take i).map (·.name) then t else t.withChanges changes := by
  induction ts generalizing changes with
  | nil => rfl
  | cons t ts ih =>
      rw [settle, ih, List.mapIdx_cons]
      refine congrArg _ (List.mapIdx_eq_mapIdx_iff.2 fun i hi => ?_)
      simp only [List.take_succ_cons, List.map_cons, List.mem_cons, Table.withChanges_filter]
      by_cases hname : ts[i].name = t.name
      · simp [hname]
      · simp [hname]

/-- Among tables of different names, each takes the changes to its name. This is the case of scripts
that define each table once. -/
theorem settle_of_nodup (changes : List Change) {ts : List Table}
    (h : (ts.map (·.name)).Nodup) : settle changes ts = ts.map (·.withChanges changes) := by
  induction ts generalizing changes with
  | nil => rfl
  | cons t ts ih =>
      rw [List.map_cons, List.nodup_cons] at h
      obtain ⟨hnot, hnodup⟩ := h
      rw [settle, ih _ hnodup, List.map_cons]
      refine congrArg _ (List.map_congr_left fun u hu => ?_)
      have hne : u.name ≠ t.name := by
        intro heq
        rw [← heq] at hnot
        exact hnot (List.mem_map.2 ⟨u, hu, rfl⟩)
      rw [Table.withChanges_filter, if_neg hne]

/-! ### Schemas -/

/-- What the steps leave behind before any change is applied. Each part is made of the steps of one
kind, in order. -/
theorem foldl_step_eq (steps : List Step) (a : Assembly) :
    steps.foldl Assembly.step a =
      { schema := { a.schema with
          schemaName := a.schema.schemaName.or
            ((steps.filterMap Step.qualified?).findSome? Sql.schemaPart)
          tables := a.schema.tables ++ addedTables steps
          views := a.schema.views ++ steps.filterMap Step.view? }
        changes := a.changes ++ waitingChanges steps
        warnings := a.warnings ++ steps.filterMap Step.warning? } := by
  induction steps generalizing a with
  | nil => simp [addedTables, waitingChanges]
  | cons step steps ih =>
      rw [List.foldl_cons, ih]
      cases step with
      | addTable qualified t =>
          -- The first table that names a schema decides, and later ones are not asked.
          cases hname : a.schema.schemaName <;> cases hpart : Sql.schemaPart qualified <;>
            simp [Assembly.step, Assembly.addTable, addedTables, waitingChanges, Step.table?,
              Step.qualified?, Step.change?, Step.view?, Step.warning?, List.filterMap_cons, hname,
              hpart]
      | _ =>
          simp [Assembly.step, addedTables, waitingChanges, Step.table?, Step.qualified?,
            Step.change?, Step.view?, Step.warning?, List.filterMap_cons]

/-- The schema and the warnings that the steps make: tables and views in order, with the changes
settled. The warnings of the steps stand in front of those for changes without a table. -/
theorem assemble_eq (dialect : Sql.Dialect) (steps : List Step) :
    assemble dialect steps =
      ({ dbType := dialect.name
         schemaName := (steps.filterMap Step.qualified?).findSome? Sql.schemaPart
         tables := settle (waitingChanges steps) (addedTables steps)
         views := steps.filterMap Step.view? },
       steps.filterMap Step.warning? ++
         ((waitingChanges steps).filter
           (·.table ∉ (addedTables steps).map (·.name))).map Change.unknownTable) := by
  rw [assemble, foldl_step_eq, Assembly.finish, foldl_applyChange]
  simp [Assembly.start, Schema.tableNames]

/-- Tables alone make the schema that consists of them, under the first schema that one of their
qualified names names. This is what a script of plain definitions comes to, whichever backend reads
it. -/
theorem assemble_addTables {α : Type} (dialect : Sql.Dialect) (warnings : List String)
    (qualified : α → String) (table : α → Table) (as : List α) :
    assemble dialect (warnings.map .warn ++ as.map fun a => .addTable (qualified a) (table a)) =
      ({ dbType := dialect.name
         schemaName := (as.map qualified).findSome? Sql.schemaPart
         tables := as.map fun a => { table a with kind := some ((table a).kind.getD .base) } },
        warnings) := by
  -- There is nothing to wait for, and the tables are the added ones.
  have hchanges : waitingChanges
      (warnings.map .warn ++ as.map fun a => .addTable (qualified a) (table a)) = [] := by
    simp [waitingChanges, List.filterMap_map, Function.comp_def, Step.change?]
  have htables : addedTables
      (warnings.map .warn ++ as.map fun a => .addTable (qualified a) (table a)) =
        as.map fun a => { table a with kind := some ((table a).kind.getD .base) } := by
    simp [addedTables, List.filterMap_map, Function.comp_def, Step.table?]
  have hqualified : List.filterMap Step.qualified?
      (warnings.map .warn ++ as.map fun a => .addTable (qualified a) (table a)) =
        as.map qualified := by
    simp [List.filterMap_map, Function.comp_def, Step.qualified?]
  rw [assemble_eq, hchanges, settle_nil, htables, hqualified]
  simp [List.filterMap_map, Function.comp_def, Step.view?, Step.warning?]

/-- A key or index that waits under a qualified name is applied, in its turn, to the table that was
added first under the last segment of the name, and to no other: of the tables of one name, the
first takes up all the changes to it and the later ones stay as they were added. What taking them up
means is said part by part: foreign keys and indexes come behind those of the table, and the last
primary key replaces the one that was there. A change whose last segment names no table is left out,
and a warning says so. -/
theorem assemble_applies_to_first (dialect : Sql.Dialect) (steps : List Step) :
    (assemble dialect steps).1.tables =
        (addedTables steps).mapIdx (fun i t =>
          if t.name ∈ ((addedTables steps).take i).map (·.name) then t
          else t.withChanges (waitingChanges steps)) ∧
      (∀ t : Table,
        t.TakesUp ((waitingChanges steps).filter (·.table == t.name))
          (t.withChanges (waitingChanges steps))) ∧
      (assemble dialect steps).2 =
        steps.filterMap Step.warning? ++
          ((waitingChanges steps).filter
            (·.table ∉ (addedTables steps).map (·.name))).map Change.unknownTable := by
  rw [assemble_eq]
  -- What the changes do to one table is said by `Table.TakesUp`, without the program's way of
  -- applying them.
  refine ⟨settle_eq_mapIdx _ _, ?_, rfl⟩
  intro t
  exact t.takesUp_foldl _

/-- A table of the name `users` with one column. It has no key of its own. -/
def exampleUsers : Table where
  name := "users"
  columns := [.ofType "id" "INT"]
  kind := some .base

/-- Tables of one name in two schemas, and a key for the second of them. Their qualified names
differ in the schema alone. -/
def twoSchemas : List Step :=
  [.addTable "a.users" exampleUsers, .addTable "b.users" exampleUsers,
   .setPrimaryKey "b.users" { columns := ["id"] }]

/-- The key for the table `users` of the schema `b` ends up on that of the schema `a`, and the table
that was added under the very name of the key stays without one. -/
theorem assemble_twoSchemas :
    Step.addTable "b.users" exampleUsers ∈ twoSchemas ∧
      Step.setPrimaryKey "b.users" { columns := ["id"] } ∈ twoSchemas ∧
      Sql.schemaPart "a.users" = some "a" ∧ Sql.schemaPart "b.users" = some "b" ∧
      (assemble .postgres twoSchemas).1.tables =
        [exampleUsers.markPrimaryKey { columns := ["id"] }, exampleUsers] ∧
      exampleUsers.primaryKey = none := by
  decide

end EntityDiagram
