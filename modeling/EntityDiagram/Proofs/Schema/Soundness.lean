import EntityDiagram.Proofs.Schema.Assembly
import EntityDiagram.Proofs.Schema.KeyFlags

/-!
# `EntityDiagram.Proofs.Schema.Soundness`: what holds of every table that is put together

A table is sound if its foreign keys start from itself and have no cardinality yet, and if every
name in its primary key is either that of a declared key column or belongs to no column at all.
Giving a table a key establishes the second part, whatever key it had before, and no change to a
table breaks either part. So the tables that `assemble` makes are sound if those that the steps add
are (`sound_assemble`), in whatever order the steps come.

Soundness is an invariant of one table under one change (`Table.Sound.apply`), and a schema is put
together by changes to one table at a time; so the statement about schemas is by induction on the
changes, and no order of the steps has to be considered. That a key is stored under the names of the
columns it finds is what makes the second part hold of any key: a name that finds no column is kept
as it is, and is then none of a column's.
-/

set_option autoImplicit false

namespace EntityDiagram

open Text (eqIgnoreCase)

/-! ### Tables -/

/-- Whether the foreign key belongs to the table of this name and has not been classified yet. A
cardinality is only given by inference, which comes later. -/
structure ForeignKey.StartsFrom (table : String) (key : ForeignKey) : Prop where
  fromTable : key.fromTable = table
  cardinality : key.cardinality = none

namespace Table

/-- Whether a name in the primary key is, as it is written, that of a column which is flagged and
NOT NULL, or else that of no column, not even with letters of another case. The spelling of a name
in the key is thus the one of its column. -/
def Resolved (t : Table) (name : String) : Prop :=
  (∃ c ∈ t.columns, c.name = name ∧ c.inPrimaryKey = true ∧ c.nullable = false) ∨
    ∀ c ∈ t.columns, eqIgnoreCase c.name name = false

/-- Whether the keys of the table fit the table. This is what a schema promises of each of its
tables as soon as a backend has read it. -/
structure Sound (t : Table) : Prop where
  foreignKeys : ∀ key ∈ t.foreignKeys, key.StartsFrom t.name
  primaryKey : ∀ name ∈ t.keyColumns, t.Resolved name

/-- A table without a primary key is sound if its foreign keys are its own. There are no names in a
key to look at. -/
theorem Sound.of_primaryKey_eq_none {t : Table} (hkey : t.primaryKey = none)
    (h : ∀ key ∈ t.foreignKeys, key.StartsFrom t.name) : t.Sound :=
  ⟨h, fun name hname => by simp [keyColumns, hkey] at hname⟩

/-- Every name of a new key is resolved. A name that a column has is stored in the spelling of that
column, which is flagged. Any other name is no column's. -/
theorem resolved_markPrimaryKey (t : Table) (key : PrimaryKey) :
    ∀ name ∈ (t.markPrimaryKey key).keyColumns, (t.markPrimaryKey key).Resolved name := by
  intro stored hstored
  rw [keyColumns_markPrimaryKey] at hstored
  obtain ⟨name, hname, rfl⟩ := List.mem_map.1 hstored
  rw [Resolved, columns_markPrimaryKey]
  rcases storedName_cases t.columns name with ⟨j, hj, hfound, heq, hfirst⟩ | ⟨hself, hno⟩
  · have hfinds : Finds key.columns t.columns j t.columns[j] := ⟨⟨name, hname, heq⟩, hfirst⟩
    refine .inl ⟨t.columns[j].asKey, List.mem_mapIdx.2 ⟨j, hj, if_pos hfinds⟩, hfound, rfl, rfl⟩
  · refine .inr fun c hc => ?_
    obtain ⟨i, hi, rfl⟩ := List.mem_mapIdx.1 hc
    have hsame : (if Finds key.columns t.columns i t.columns[i] then t.columns[i].asKey
        else t.columns[i]).name = t.columns[i].name := by split <;> rfl
    rw [hsame, hself]
    exact hno _ (List.getElem_mem hi)

/-- A key makes a table sound whose foreign keys are its own. The key before it does not matter,
since the new one replaces it. -/
theorem sound_markPrimaryKey {t : Table} (h : ∀ key ∈ t.foreignKeys, key.StartsFrom t.name)
    (key : PrimaryKey) : (t.markPrimaryKey key).Sound :=
  ⟨h, t.resolved_markPrimaryKey key⟩

/-- A further foreign key keeps a table sound if it is one of the table. -/
theorem Sound.withForeignKey {t : Table} (h : t.Sound) {key : ForeignKey}
    (hkey : key.StartsFrom t.name) :
    Sound { t with foreignKeys := t.foreignKeys ++ [key] } := by
  refine ⟨fun other hother => ?_, h.primaryKey⟩
  rcases List.mem_append.1 hother with hother | hother
  · exact h.foreignKeys other hother
  · rw [List.mem_singleton.1 hother]
    exact hkey

end Table

/-! ### Changes -/

/-- Whether a change adds no classified foreign key. The other two kinds of changes cannot break
anything. -/
def Change.Sound : Change → Prop
  | .foreignKey key => key.cardinality = none
  | .primaryKey .. | .index .. => True

/-- A change to a sound table leaves it sound. It has to be a change to this table, as a foreign key
is taken to start from the table that it names. -/
theorem Table.Sound.apply {t : Table} (h : t.Sound) {c : Change} (hc : c.Sound)
    (htable : c.table = t.name) : (c.apply t).Sound := by
  cases c with
  | foreignKey key => exact h.withForeignKey ⟨htable, hc⟩
  | primaryKey _ key => exact sound_markPrimaryKey h.foreignKeys key
  | index _ added => exact ⟨h.foreignKeys, h.primaryKey⟩

/-- No change turns a table into one of another kind. -/
theorem Change.kind_apply (t : Table) (c : Change) : (c.apply t).kind = t.kind := by
  cases c <;> rfl

/-- Nor do many changes. -/
theorem Table.kind_withChanges (changes : List Change) (t : Table) :
    (t.withChanges changes).kind = t.kind := by
  induction changes generalizing t with
  | nil => rfl
  | cons c changes ih =>
      rw [withChanges_cons]
      split
      · rw [ih, c.kind_apply]
      · exact ih t

/-- The changes to a sound table leave it sound. Changes to other tables are left out on the way. -/
theorem Table.Sound.withChanges {t : Table} (h : t.Sound) {changes : List Change}
    (hchanges : ∀ c ∈ changes, c.Sound) : (t.withChanges changes).Sound := by
  induction changes generalizing t with
  | nil => exact h
  | cons c changes ih =>
      obtain ⟨hc, hrest⟩ := List.forall_mem_cons.1 hchanges
      rw [withChanges_cons]
      split
      · rename_i htable
        exact ih (h.apply hc htable) hrest
      · exact ih h hrest

/-! ### Schemas -/

/-- Whether a step adds nothing but sound tables without a kind and unclassified foreign keys. A
backend keeps this by construction, one kind of definition at a time. -/
def Step.Sound : Step → Prop
  | .addTable _ t => t.Sound ∧ t.kind = none
  | .addForeignKey key => key.cardinality = none
  | .addView _ | .setPrimaryKey .. | .addIndex .. | .warn _ => True

/-- **Sound steps make sound base tables.** The changes cannot undo what the definitions have given,
in whichever order they come. -/
theorem sound_assemble (dialect : Sql.Dialect) {steps : List Step} (h : ∀ s ∈ steps, s.Sound) :
    ∀ t ∈ (assemble dialect steps).1.tables, t.Sound ∧ t.kind = some .base := by
  -- First the tables as they are added, then the changes, and then both together.
  have hadded : ∀ t ∈ addedTables steps, t.Sound ∧ t.kind = some .base := by
    intro t ht
    obtain ⟨s, hs, htable⟩ := List.mem_filterMap.1 ht
    cases s with
    | addTable _ u =>
        obtain ⟨hsound, hkind⟩ := h _ hs
        obtain rfl := Option.some.inj htable
        exact ⟨⟨hsound.foreignKeys, hsound.primaryKey⟩, by rw [hkind]; rfl⟩
    | _ => cases htable
  have hchanges : ∀ c ∈ waitingChanges steps, c.Sound := by
    intro c hc
    obtain ⟨s, hs, hchange⟩ := List.mem_filterMap.1 hc
    have hsound := h _ hs
    cases s with
    | addTable | addView | warn => cases hchange
    | addForeignKey key => obtain rfl := Option.some.inj hchange; exact hsound
    | setPrimaryKey | addIndex => obtain rfl := Option.some.inj hchange; trivial
  intro t ht
  rw [assemble_eq, settle_eq_mapIdx] at ht
  obtain ⟨i, hi, rfl⟩ := List.mem_mapIdx.1 ht
  obtain ⟨hsound, hkind⟩ := hadded _ (List.getElem_mem hi)
  -- Only the first table of a name takes up the changes.
  split
  · exact ⟨hsound, hkind⟩
  · exact ⟨hsound.withChanges hchanges, by rw [Table.kind_withChanges, hkind]⟩

end EntityDiagram
