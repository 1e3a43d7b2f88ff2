import EntityDiagram.Proofs.Schema.Assembly
import EntityDiagram.Proofs.Schema.KeyFlags

/-!
# `EntityDiagram.Proofs.Schema.ColumnEdit`: one column that is different

Two scripts that differ in one property of one column make schemas that differ in that property
alone. For this the property must mean nothing to keys: `KeyBlind f` says that the change `f` of a
column keeps its name and its membership in the key, and does not care whether the column becomes
a member later.

* `KeyBlind.markPrimaryKey_modifyColumn`: a primary key is given in the same way.
* `KeyBlind.settle_modify`: the waiting changes go where they went.
* `KeyBlind.assemble_modifyColumn`: the schema that the steps make differs in the same column, and
  the warnings are the same.
* `exists_table_assemble`: which table of the schema it is, and that it has its columns.
-/

set_option autoImplicit false

namespace EntityDiagram

/-- The table with one of its columns changed. Nothing happens where there is no column at the
position. -/
def Table.modifyColumn (j : Nat) (f : Column → Column) (t : Table) : Table :=
  { t with columns := t.columns.modify j f }

/-- The schema with one column of one of its tables changed. It is given by the position of its
table and its own. -/
def Schema.modifyColumn (i j : Nat) (f : Column → Column) (s : Schema) : Schema :=
  { s with tables := s.tables.modify i (Table.modifyColumn j f) }

/-- The element behind a list is the one at the position that its length gives. -/
theorem modify_append_length {α : Type} (g : α → α) (as bs : List α) (a : α) :
    (as ++ a :: bs).modify as.length g = as ++ g a :: bs := by
  induction as with
  | nil => rfl
  | cons b as ih => rw [List.cons_append, List.length_cons, List.modify_succ_cons, ih]; rfl

/-- A position in a list is one in the list with more behind it. -/
theorem modify_append_of_lt {α : Type} (g : α → α) {as : List α} {i : Nat} (hi : i < as.length)
    (bs : List α) : (as ++ bs).modify i g = as.modify i g ++ bs := by
  induction as generalizing i with
  | nil => cases hi
  | cons a as ih =>
      cases i with
      | zero => rfl
      | succ i =>
          rw [List.cons_append, List.modify_succ_cons, ih (Nat.lt_of_succ_lt_succ hi),
            List.modify_succ_cons, List.cons_append]

/-- A change to a column that means nothing to keys. A change of the type, of the default value or
of the comment is one, since a key reads and writes neither. -/
structure KeyBlind (f : Column → Column) : Prop where
  name_eq : ∀ c, (f c).name = c.name
  inPrimaryKey_eq : ∀ c, (f c).inPrimaryKey = c.inPrimaryKey
  asKey_eq : ∀ c, (f c).asKey = f c.asKey

namespace KeyBlind

variable {f : Column → Column}

/-! ### Columns -/

/-- The same column becomes a member of the key. The condition has to be blind to the change as
well, as a comparison of names is. -/
theorem flagFirst_modify (hf : KeyBlind f) {p : Column → Bool} (hp : ∀ c, p (f c) = p c)
    (columns : List Column) (j : Nat) :
    Table.flagFirst p (columns.modify j f) = (Table.flagFirst p columns).modify j f := by
  induction columns generalizing j with
  | nil => cases j <;> rfl
  | cons c columns ih =>
      -- The edited column is the first one or stands further on, and in both cases the test sees no
      -- difference.
      cases j with
      | zero =>
          rw [List.modify_zero_cons, Table.flagFirst, Table.flagFirst, hp]
          split
          · rw [List.modify_zero_cons, hf.asKey_eq]
          · rw [List.modify_zero_cons]
      | succ j =>
          rw [List.modify_succ_cons, Table.flagFirst, Table.flagFirst]
          split
          · rw [List.modify_succ_cons]
          · rw [List.modify_succ_cons, ih]

/-- The same name is found. -/
theorem find?_modify (hf : KeyBlind f) {p : Column → Bool} (hp : ∀ c, p (f c) = p c)
    (columns : List Column) (j : Nat) :
    ((columns.modify j f).find? p).map (·.name) = (columns.find? p).map (·.name) := by
  induction columns generalizing j with
  | nil => cases j <;> rfl
  | cons c columns ih =>
      -- The test does not see the edit, so the same column is found, and under the same name.
      cases j with
      | zero =>
          rw [List.modify_zero_cons, List.find?_cons, List.find?_cons, hp]
          split
          · rw [Option.map_some, Option.map_some, hf.name_eq]
          · rfl
      | succ j =>
          rw [List.modify_succ_cons, List.find?_cons, List.find?_cons]
          split
          · rfl
          · exact ih j

/-- A key is resolved in the same way. Only names are looked up, and only flags are raised. -/
theorem resolveKey_modify (hf : KeyBlind f) (names : List String) (columns : List Column)
    (j : Nat) : Table.resolveKey names (columns.modify j f) =
      ((Table.resolveKey names columns).1, (Table.resolveKey names columns).2.modify j f) := by
  induction names generalizing columns with
  | nil => rfl
  | cons name names ih =>
      have hhit : ∀ c, Text.eqIgnoreCase (f c).name name = Text.eqIgnoreCase c.name name :=
        fun c => by rw [hf.name_eq]
      rw [Table.resolveKey, Table.resolveKey]
      dsimp only
      rw [hf.flagFirst_modify hhit, hf.find?_modify hhit, ih]

/-- The names of the columns that carry the flag of the key. -/
theorem keyNames_modify (hf : KeyBlind f) (columns : List Column) (j : Nat) :
    ((columns.modify j f).filter (·.inPrimaryKey)).map (·.name) =
      (columns.filter (·.inPrimaryKey)).map (·.name) := by
  induction columns generalizing j with
  | nil => cases j <;> rfl
  | cons c columns ih =>
      -- Neither the flag nor the name of the edited column has changed.
      cases j with
      | zero =>
          rw [List.modify_zero_cons, List.filter_cons, List.filter_cons, hf.inPrimaryKey_eq]
          split
          · rw [List.map_cons, List.map_cons, hf.name_eq]
          · rfl
      | succ j =>
          rw [List.modify_succ_cons, List.filter_cons, List.filter_cons]
          split
          · rw [List.map_cons, List.map_cons, ih]
          · exact ih j

/-! ### Tables -/

/-- A primary key is given in the same way. Changing a column and giving a key can be done in either
order. -/
theorem markPrimaryKey_modifyColumn (hf : KeyBlind f) (j : Nat) (t : Table) (key : PrimaryKey) :
    (t.modifyColumn j f).markPrimaryKey key = (t.markPrimaryKey key).modifyColumn j f := by
  rw [Table.markPrimaryKey, Table.modifyColumn, hf.resolveKey_modify]
  rfl

/-- Any change that waits is applied in the same way. Foreign keys and indexes do not touch columns
at all. -/
theorem apply_modifyColumn (hf : KeyBlind f) (j : Nat) (t : Table) (c : Change) :
    c.apply (t.modifyColumn j f) = (c.apply t).modifyColumn j f := by
  cases c with
  | foreignKey key => rfl
  | primaryKey table key => exact hf.markPrimaryKey_modifyColumn j t key
  | index table added => rfl

/-- So are all changes to a table. -/
theorem withChanges_modifyColumn (hf : KeyBlind f) (j : Nat) (changes : List Change) (t : Table) :
    (t.modifyColumn j f).withChanges changes = (t.withChanges changes).modifyColumn j f := by
  have key (changes : List Change) (t : Table) :
      changes.foldl Change.apply (t.modifyColumn j f) =
        (changes.foldl Change.apply t).modifyColumn j f := by
    induction changes generalizing t with
    | nil => rfl
    | cons c changes ih => rw [List.foldl_cons, hf.apply_modifyColumn, ih, List.foldl_cons]
  exact key _ t

/-- The waiting changes go where they went. Which table takes a change depends on names of tables
alone. -/
theorem settle_modify (hf : KeyBlind f) (i j : Nat) (changes : List Change) (ts : List Table) :
    settle changes (ts.modify i (Table.modifyColumn j f)) =
      (settle changes ts).modify i (Table.modifyColumn j f) := by
  induction ts generalizing changes i with
  | nil => cases i <;> rfl
  | cons t ts ih =>
      cases i with
      | zero =>
          rw [List.modify_zero_cons, settle, settle, List.modify_zero_cons,
            hf.withChanges_modifyColumn]
          rfl
      | succ i => rw [List.modify_succ_cons, settle, settle, List.modify_succ_cons, ih]

/-! ### Schemas -/

/-- Steps that differ in a column of one table make schemas that differ in that column. The table
stands behind those that were added before it, and this gives its position in the schema. -/
theorem assemble_modifyColumn (hf : KeyBlind f) (dialect : Sql.Dialect) (steps more : List Step)
    (qualified : String) (t : Table) (j : Nat) :
    assemble dialect (steps ++ .addTable qualified (t.modifyColumn j f) :: more) =
      ((assemble dialect (steps ++ .addTable qualified t :: more)).1.modifyColumn
          (addedTables steps).length j f,
        (assemble dialect (steps ++ .addTable qualified t :: more)).2) := by
  have hadded (u : Table) : addedTables (steps ++ .addTable qualified u :: more) =
      addedTables steps ++ { u with kind := some (u.kind.getD .base) } :: addedTables more :=
    addedTables_append _ _
  have hwaiting (u : Table) : waitingChanges (steps ++ .addTable qualified u :: more) =
      waitingChanges steps ++ waitingChanges more := waitingChanges_append _ _
  have hviews (u : Table) : (steps ++ .addTable qualified u :: more).filterMap Step.view? =
      steps.filterMap Step.view? ++ more.filterMap Step.view? := List.filterMap_append
  have hwarnings (u : Table) : (steps ++ .addTable qualified u :: more).filterMap Step.warning? =
      steps.filterMap Step.warning? ++ more.filterMap Step.warning? := List.filterMap_append
  have hnames (u : Table) : (steps ++ .addTable qualified u :: more).filterMap Step.qualified? =
      steps.filterMap Step.qualified? ++ qualified :: more.filterMap Step.qualified? :=
    List.filterMap_append
  -- The table comes behind those that the earlier steps add, and changes go around the edit.
  have hsettle := hf.settle_modify (addedTables steps).length j
    (waitingChanges steps ++ waitingChanges more)
    (addedTables steps ++ { t with kind := some (t.kind.getD .base) } :: addedTables more)
  rw [modify_append_length] at hsettle
  simp only [assemble_eq, hadded, hwaiting, hviews, hwarnings, hnames, List.map_append,
    List.map_cons, Schema.modifyColumn, ← hsettle]
  rfl

end KeyBlind

/-! ### Positions -/

/-- No change that waits renames, adds or removes a column. So a position of a column means the same
before and after it. -/
theorem Change.columnNames_apply (t : Table) (c : Change) :
    (c.apply t).columnNames = t.columnNames := by
  cases c with
  | foreignKey key => rfl
  | primaryKey table key => exact Table.columnNames_markPrimaryKey t key
  | index table added => rfl

/-- Nor do several changes. -/
theorem Table.columnNames_withChanges (changes : List Change) (t : Table) :
    (t.withChanges changes).columnNames = t.columnNames := by
  induction changes generalizing t with
  | nil => rfl
  | cons c changes ih =>
      rw [withChanges_cons]
      split
      · rw [ih, c.columnNames_apply]
      · exact ih t

/-- Tables keep their columns when the changes are settled. Their number and order are kept as
well. -/
theorem map_columnNames_settle (changes : List Change) (ts : List Table) :
    (settle changes ts).map Table.columnNames = ts.map Table.columnNames := by
  induction ts generalizing changes with
  | nil => rfl
  | cons t ts ih => rw [settle, List.map_cons, Table.columnNames_withChanges, ih, List.map_cons]

/-- A table that is added stands in the schema behind those that were added before, with its
columns. The changes may have given it keys and indexes. -/
theorem exists_table_assemble (dialect : Sql.Dialect) (steps more : List Step) (qualified : String)
    (t : Table) : ∃ u,
      (assemble dialect (steps ++ .addTable qualified t :: more)).1.tables[
        (addedTables steps).length]? = some u ∧ u.columnNames = t.columnNames := by
  have hadded : addedTables (steps ++ .addTable qualified t :: more) =
      addedTables steps ++ { t with kind := some (t.kind.getD .base) } :: addedTables more :=
    addedTables_append _ _
  have hnames := map_columnNames_settle (waitingChanges (steps ++ .addTable qualified t :: more))
    (addedTables (steps ++ .addTable qualified t :: more))
  have hat := congrArg (·[(addedTables steps).length]?) hnames
  rw [List.getElem?_map, List.getElem?_map, hadded, List.getElem?_append_right (Nat.le_refl _),
    Nat.sub_self, List.getElem?_cons_zero, Option.map_some, ← hadded] at hat
  rw [assemble_eq]
  exact Option.map_eq_some_iff.1 hat

end EntityDiagram
