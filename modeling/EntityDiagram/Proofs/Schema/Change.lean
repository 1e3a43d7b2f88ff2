import EntityDiagram.Schema.Assembly
import EntityDiagram.Proofs.Schema.KeyFlags
import Mathlib.Data.List.Induction

/-!
# `EntityDiagram.Proofs.Schema.Change`: what a table has after changes to it

A change that waits adds a foreign key or an index to its table, or sets the primary key. The
program applies such changes one after the other with `Change.apply`, and the table that comes out
is a fold over them. `Table.TakesUp` says what that table has to be without the fold: each part of
it is a function of the changes of one kind, in their order.

The three kinds treat the table differently. Foreign keys and indexes come behind those that the
table has, so all of them stay. A primary key replaces the one that was there, so the last one
counts, and it is stored under the names of the columns that it finds. But the flags of columns are
only ever raised: each primary key flags the columns that it finds, and the flags of a key that a
later one replaces remain. Everything else about the table is as it was, its name and its comment
among it.

* `Table.TakesUp.apply`: the step lemma, one case for each kind of change.
* `Table.takesUp_foldl`: the run lemma, for any changes in any order.

Where the waiting changes go, and in which order each table gets its own, is the subject of
`EntityDiagram.Proofs.Schema.Assembly`.
-/

set_option autoImplicit false

namespace EntityDiagram

/-! ### Changes by kind -/

namespace Change

/-- The foreign key that a change adds. A foreign key stands in the table that it starts from. -/
def foreignKey? : Change → Option ForeignKey
  | .foreignKey key => some key
  | _ => none

/-- The primary key that a change sets. -/
def primaryKey? : Change → Option PrimaryKey
  | .primaryKey _ key => some key
  | _ => none

/-- The index that a change adds. -/
def index? : Change → Option Index
  | .index _ added => some added
  | _ => none

end Change

/-! ### One table -/

namespace Table

/-- The primary key as the table stores it. Its names are spelled as the columns are. -/
def stored (t : Table) (key : PrimaryKey) : PrimaryKey := { key with columns := t.storedKey key }

/-- Whether `after` is the table `before` with these changes to it. The changes are taken to be
those of this table: which table a change names is not asked here. Every part of the table is said,
so that this determines `after`. -/
structure TakesUp (changes : List Change) (before after : Table) : Prop where
  /-- New foreign keys come behind the table's own, in the order of the changes. -/
  foreignKeys : after.foreignKeys = before.foreignKeys ++ changes.filterMap Change.foreignKey?
  /-- So do new indexes. -/
  indexes : after.indexes = before.indexes ++ changes.filterMap Change.index?
  /-- The last primary key replaces the one that was there. -/
  primaryKey : after.primaryKey =
    ((changes.filterMap Change.primaryKey?).getLast?.map before.stored).or before.primaryKey
  /-- Each primary key flags the columns that it finds. -/
  columns : after.columns = before.columns.mapIdx fun i c =>
    if Finds ((changes.filterMap Change.primaryKey?).flatMap (·.columns)) before.columns i c
    then c.asKey else c
  /-- Nothing else is different. -/
  rest : { after with
      foreignKeys := before.foreignKeys
      indexes := before.indexes
      primaryKey := before.primaryKey
      columns := before.columns } = before

/-- The names of two keys are looked up one after the other. The second key meets the columns as the
first one has flagged them. -/
theorem resolveKey_append (names more : List String) (columns : List Column) :
    (resolveKey (names ++ more) columns).2 = (resolveKey more (resolveKey names columns).2).2 := by
  induction names generalizing columns with
  | nil => rfl
  | cons name names ih => exact ih _

/-- Two keys flag what the names of both together find. A flag does not change what a name finds, so
the second key finds in the flagged columns what it would have found in the first ones. -/
theorem columns_markPrimaryKey_flagged {t u : Table} {names : List String} (key : PrimaryKey)
    (h : u.columns = t.columns.mapIdx fun i c => if Finds names t.columns i c then c.asKey else c) :
    (u.markPrimaryKey key).columns = t.columns.mapIdx fun i c =>
      if Finds (names ++ key.columns) t.columns i c then c.asKey else c := by
  have hfirst : u.columns = (resolveKey names t.columns).2 := by rw [h, resolveKey_eq]
  have hboth := resolveKey_append names key.columns t.columns
  rw [← hfirst, resolveKey_eq] at hboth
  exact hboth.symm

/-- Without changes a table stays as it is. This is where the induction on the changes starts. -/
theorem takesUp_nil (t : Table) : TakesUp [] t t where
  foreignKeys := (List.append_nil _).symm
  indexes := (List.append_nil _).symm
  primaryKey := rfl
  columns := by
    refine List.ext_getElem (by simp) fun i _ _ => ?_
    simp [Finds]
  rest := rfl

/-- **One more change.** The table that has taken up some changes takes up the next one. A primary
key is stored as the first table would have stored it, since changes rename no column. The lists
grow at their ends, while a primary key replaces the one before it. -/
theorem TakesUp.apply {changes : List Change} {before after : Table}
    (h : TakesUp changes before after) (c : Change) :
    TakesUp (changes ++ [c]) before (c.apply after) := by
  have hnames : after.columnNames = before.columnNames := by
    rw [columnNames, h.columns, map_name_mapIdx_asKey]
    rfl
  -- Each kind of change touches one part, and its projection is empty on the other two kinds.
  cases c with
  | foreignKey key =>
      exact
        { foreignKeys := by simp [Change.apply, Change.foreignKey?, h.foreignKeys]
          indexes := by simp [Change.apply, Change.index?, h.indexes]
          primaryKey := by simp [Change.apply, Change.primaryKey?, h.primaryKey]
          columns := by
            simpa [Change.apply, Change.primaryKey?, List.filterMap_cons] using h.columns
          rest := h.rest }
  | primaryKey table key =>
      refine
        { foreignKeys := by simp [Change.apply, markPrimaryKey, Change.foreignKey?, h.foreignKeys]
          indexes := by simp [Change.apply, markPrimaryKey, Change.index?, h.indexes]
          primaryKey := ?_
          columns := ?_
          rest := h.rest }
      · -- The names of the columns are still the same, so the key is stored as it would have been.
        have hstored : after.storedKey key = before.storedKey key := storedKey_congr hnames key
        show (after.markPrimaryKey key).primaryKey = _
        rw [primaryKey_markPrimaryKey, hstored, List.filterMap_append]
        simp [Change.primaryKey?, stored]
      · have hflagged := columns_markPrimaryKey_flagged key h.columns
        simpa [Change.primaryKey?, Change.apply] using hflagged
  | index table added =>
      exact
        { foreignKeys := by simp [Change.apply, Change.foreignKey?, h.foreignKeys]
          indexes := by simp [Change.apply, Change.index?, h.indexes]
          primaryKey := by simp [Change.apply, Change.primaryKey?, h.primaryKey]
          columns := by
            simpa [Change.apply, Change.primaryKey?, List.filterMap_cons] using h.columns
          rest := h.rest }

/-- **What a table has after changes to it.** However many changes there are, and in whichever order
their kinds come, the table has taken up all of them. -/
theorem takesUp_foldl (t : Table) (changes : List Change) :
    TakesUp changes t (changes.foldl Change.apply t) := by
  induction changes using List.reverseRecOn with
  | nil => exact takesUp_nil t
  | append_singleton changes c ih =>
      rw [List.foldl_append]
      exact ih.apply c

end Table

end EntityDiagram
