import EntityDiagram.Proofs.Schema.Assembly

/-!
# `EntityDiagram.Proofs.Schema.Interleaving`: steps of different kinds do not interfere

The steps of a script add tables, views, waiting changes and warnings, and readers report them as
they come. What is assembled from them depends on the steps of each kind in their order, and not on
how the kinds interleave. Beside this stands what becomes of each step: every table has a place, and
every waiting change is applied once or leaves one warning.

`Assembled` states the second part field by field: the tables with the changes that each has taken
up (`Table.TakesUp`), the views, the name of the schema and the warnings. `SameByKind` states the
hypothesis of the first part. The foreign keys and the indexes are counted over all tables as well,
as permutations, so that a key which is lost or applied twice would show even where two tables share
a name.

* `flatMap_settle_perm`: over all tables, nothing that waits is lost or applied twice, also where
  tables share a name.
* `assembled_assemble`: the tables, views, warnings and the name of the schema.
* `assemble_interleaved`: the same, and the independence from the interleaving.
-/

set_option autoImplicit false

namespace EntityDiagram

/-! ### All tables -/

section Conservation
variable {α : Type} {own : Table → List α} {added? : Change → Option α}
  (hown : ∀ (t : Table) (changes : List Change),
    own (changes.foldl Change.apply t) = own t ++ changes.filterMap added?)
include hown

/-- **Nothing that waits is lost or applied twice.** All tables together have their own ones and
those of the changes to known tables. The order differs, since changes are sorted by their tables.
It is stated for anything that tables have in a list and changes add to, such as foreign keys and
indexes. -/
theorem flatMap_settle_perm (changes : List Change) (ts : List Table) :
    ((settle changes ts).flatMap own).Perm
      (ts.flatMap own ++
        (changes.filter (·.table ∈ ts.map (·.name))).filterMap added?) := by
  induction ts generalizing changes with
  | nil => simp [settle]
  | cons t ts ih =>
      -- The changes to known tables are those to the first table and those to the later ones.
      have hfirst : (changes.filter (·.table ∈ (t :: ts).map (·.name))).filter (·.table == t.name) =
          changes.filter (·.table == t.name) := by
        rw [List.filter_filter]
        refine List.filter_congr fun c _ => ?_
        by_cases hc : c.table = t.name <;> simp [hc]
      have hlater : (changes.filter (·.table ∈ (t :: ts).map (·.name))).filter
            (fun c => !(c.table == t.name)) =
          (changes.filter (·.table != t.name)).filter (·.table ∈ ts.map (·.name)) := by
        rw [List.filter_filter, List.filter_filter]
        refine List.filter_congr fun c _ => ?_
        by_cases hc : c.table = t.name
        · simp [hc]
        · simp [hc, bne, Bool.and_comm]
      have hsplit := (List.filter_append_perm (·.table == t.name)
        (changes.filter (·.table ∈ (t :: ts).map (·.name)))).filterMap added?
      rw [hfirst, hlater, List.filterMap_append] at hsplit
      have hrest := ih (changes.filter (·.table != t.name))
      rw [settle, List.flatMap_cons, List.flatMap_cons, Table.withChanges, hown, List.append_assoc,
        List.append_assoc]
      refine List.Perm.append_left (own t) ?_
      refine (hrest.append_left _).trans ((List.perm_append_comm_assoc _ _ _).trans ?_)
      exact hsplit.append_left _

end Conservation

/-! ### All steps -/

/-- What a step adds to. All three steps that wait for a table are of one kind, as their order among
each other counts. -/
inductive StepKind where
  | table
  | view
  | change
  | warning
deriving DecidableEq, Repr

/-- The kind of a step. -/
def Step.kind : Step → StepKind
  | .addTable .. => .table
  | .addView _ => .view
  | .addForeignKey _ | .setPrimaryKey .. | .addIndex .. => .change
  | .warn _ => .warning

/-- Whether the same steps of each kind are taken in the same order, however the kinds interleave.
So `steps'` is a rearrangement of `steps` in which no two steps of one kind change places. -/
def SameByKind (steps steps' : List Step) : Prop :=
  ∀ kind, steps.filter (·.kind = kind) = steps'.filter (·.kind = kind)

/-- The waiting changes whose table is added, in order. Each of them ends up in exactly one
table. -/
def appliedChanges (steps : List Step) : List Change :=
  (waitingChanges steps).filter (·.table ∈ (addedTables steps).map (·.name))

/-- The waiting changes whose table is not added, in order. A warning is given for each of them. -/
def droppedChanges (steps : List Step) : List Change :=
  (waitingChanges steps).filter (·.table ∉ (addedTables steps).map (·.name))

/-- Whether the schema and the warnings are what the steps have to make. Nothing in it refers to how
the schema is put together. -/
structure Assembled (steps : List Step) (schema : Schema) (warnings : List String) : Prop where
  /-- The tables are the added ones in order. -/
  tableNames : schema.tableNames = (addedTables steps).map (·.name)
  /-- The table that was added first under its name has all changes to that name. -/
  first : ∀ i t, (addedTables steps)[i]? = some t →
    t.name ∉ ((addedTables steps).take i).map (·.name) →
      ∃ after, schema.tables[i]? = some after ∧
        t.TakesUp ((waitingChanges steps).filter (·.table == t.name)) after
  /-- Any later table of the name is as it was added. -/
  later : ∀ i t, (addedTables steps)[i]? = some t →
    t.name ∈ ((addedTables steps).take i).map (·.name) → schema.tables[i]? = some t
  /-- Each foreign key is there once: those of the tables, and those that waited for a table. -/
  foreignKeys : schema.foreignKeys.Perm
    ((addedTables steps).flatMap (·.foreignKeys) ++
      (appliedChanges steps).filterMap Change.foreignKey?)
  indexes : (schema.tables.flatMap (·.indexes)).Perm
    ((addedTables steps).flatMap (·.indexes) ++ (appliedChanges steps).filterMap Change.index?)
  views : schema.views = steps.filterMap Step.view?
  /-- The schema is named by the first qualified name that has a schema part. -/
  schemaName : schema.schemaName = (steps.filterMap Step.qualified?).findSome? Sql.schemaPart
  /-- The warnings of the steps, and one for each change whose table was not added. -/
  warnings : warnings =
    steps.filterMap Step.warning? ++ (droppedChanges steps).map Change.unknownTable

/-- What steps of one kind contribute can be read off the steps of this kind alone. Every part of
the schema is such a contribution. -/
theorem filterMap_eq_of_kind {α : Type} {f : Step → Option α} {kind : StepKind}
    (hf : ∀ step, step.kind ≠ kind → f step = none) (steps : List Step) :
    steps.filterMap f = (steps.filter (·.kind = kind)).filterMap f := by
  rw [List.filterMap_filter]
  refine List.filterMap_congr fun step _ => ?_
  by_cases h : step.kind = kind
  · simp [h]
  · simp [h, hf step h]

/-- **Steps of different kinds do not interfere.** A backend may therefore yield its tables and
changes in any order relative to each other. -/
theorem assemble_eq_of_sameByKind {steps steps' : List Step} (h : SameByKind steps steps')
    (dialect : Sql.Dialect) : assemble dialect steps = assemble dialect steps' := by
  have hread {α : Type} {f : Step → Option α} (kind : StepKind)
      (hf : ∀ step, step.kind ≠ kind → f step = none) :
      steps.filterMap f = steps'.filterMap f := by
    rw [filterMap_eq_of_kind hf steps, filterMap_eq_of_kind hf steps', h kind]
  -- Each part of the schema is made of the steps of one kind.
  have htables : addedTables steps = addedTables steps' :=
    hread .table fun step hstep => by
      cases step with
      | addTable => exact absurd rfl hstep
      | _ => rfl
  have hnames : steps.filterMap Step.qualified? = steps'.filterMap Step.qualified? :=
    hread .table fun step hstep => by
      cases step with
      | addTable => exact absurd rfl hstep
      | _ => rfl
  have hviews : steps.filterMap Step.view? = steps'.filterMap Step.view? :=
    hread .view fun step hstep => by
      cases step with
      | addView => exact absurd rfl hstep
      | _ => rfl
  have hchanges : waitingChanges steps = waitingChanges steps' :=
    hread .change fun step hstep => by
      cases step with
      | addForeignKey | setPrimaryKey | addIndex => exact absurd rfl hstep
      | _ => rfl
  have hwarnings : steps.filterMap Step.warning? = steps'.filterMap Step.warning? :=
    hread .warning fun step hstep => by
      cases step with
      | warn => exact absurd rfl hstep
      | _ => rfl
  rw [assemble_eq, assemble_eq, htables, hnames, hviews, hchanges, hwarnings]

/-- What becomes of the steps. It puts together what was shown for tables at their places and for
all tables at once. -/
theorem assembled_assemble (dialect : Sql.Dialect) (steps : List Step) :
    Assembled steps (assemble dialect steps).1 (assemble dialect steps).2 := by
  rw [assemble_eq]
  -- Position by position, a table either takes the changes of its name or has an earlier one of the
  -- same name.
  have hplace (i : Nat) (t : Table) (ht : (addedTables steps)[i]? = some t) :
      (settle (waitingChanges steps) (addedTables steps))[i]? =
        some (if t.name ∈ ((addedTables steps).take i).map (·.name) then t
          else t.withChanges (waitingChanges steps)) := by
    rw [settle_eq_mapIdx, List.getElem?_mapIdx, ht]
    rfl
  exact
    { tableNames := map_name_settle _ _
      first := fun i t ht hnew =>
        ⟨_, (hplace i t ht).trans (by rw [if_neg hnew]; rfl), t.takesUp_foldl _⟩
      later := fun i t ht hold => (hplace i t ht).trans (by rw [if_pos hold])
      foreignKeys :=
        flatMap_settle_perm (fun t changes => (t.takesUp_foldl changes).foreignKeys) _ _
      indexes := flatMap_settle_perm (fun t changes => (t.takesUp_foldl changes).indexes) _ _
      views := rfl
      schemaName := rfl
      warnings := rfl }

/-- **What is assembled depends on the steps of each kind in their order**, and not on how the kinds
interleave. The tables are the added ones, in order and in number. Each waiting foreign key or index
is added once, behind those that were there, to the table that was added first under exactly its
name, and there the last of the waiting primary keys counts. A change to no table gives one warning,
behind those of the steps. -/
theorem assemble_interleaved (dialect : Sql.Dialect) (steps : List Step) :
    Assembled steps (assemble dialect steps).1 (assemble dialect steps).2 ∧
      ∀ steps', SameByKind steps steps' → assemble dialect steps = assemble dialect steps' := by
  refine ⟨assembled_assemble dialect steps, ?_⟩
  intro steps' h
  exact assemble_eq_of_sameByKind h dialect

end EntityDiagram
