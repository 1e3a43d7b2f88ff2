import EntityDiagram.Proofs.Relation.ImpliedKey

/-!
# `EntityDiagram.Proofs.Relation.Answers`: when two tables give the same answers

`SameRelations` compares two tables by what they say about relations: the cardinalities of the
foreign keys, the kind of the table and the sources of foreign keys among its columns. Here runs on
two tables of the same columns are compared in two schemas that list their primary keys at the same
lengths, so that the same stems refer to tables.

* `map_fromColumns_impliedKeys_congr`: the same columns imply foreign keys.
* `sameRelations_inferTable_iff`: what else the answers after a run depend on.
* `sameRelations_of_foreignKeys_eq`: with the same foreign keys, this is what `coversKey` says of
  the names that the tables hold.

The comparison serves the theorem on schemas whose keys are spelled in another letter case, in
`EntityDiagram.Proofs.Relation.LetterCase`. A run reads a table in four ways only: the names of its
columns, the names of its key, the sources of its foreign keys, and its kind. Where two tables agree
on the first and the rest gives the same answers, a run appends the same keys to both, and what is
left to compare is the cardinality of the foreign keys that were there before and the rule for a
junction.
-/

set_option autoImplicit false

namespace EntityDiagram

/-- The names in the column lists of the foreign keys. -/
def Table.sourceNames (t : Table) : List String := t.foreignKeys.flatMap (·.fromColumns)

/-- The names of sources are those that the foreign keys list. -/
theorem Table.sourceNames_subset_iff {t : Table} {names : List String} :
    t.sourceNames ⊆ names ↔ ∀ k ∈ t.foreignKeys, k.fromColumns ⊆ names := by
  constructor
  · intro h k hk name hname
    exact h (List.mem_flatMap.2 ⟨k, hk, hname⟩)
  · intro h name hname
    obtain ⟨k, hk, hname⟩ := List.mem_flatMap.1 hname
    exact h k hk hname

namespace Relation

/-! ### What a run reads -/

/-- Whether the same columns are sources of foreign keys in both tables. -/
def SameSources (t t' : Table) : Prop :=
  ∀ c ∈ t.columns, t.isForeignKeyColumn c.name = t'.isForeignKeyColumn c.name

/-- The names from which foreign keys start, and the test for a source of one. -/
theorem isForeignKeyColumn_iff (t : Table) (name : String) :
    t.isForeignKeyColumn name = true ↔ name ∈ t.sourceNames := by
  rw [Table.isForeignKeyColumn, Table.sourceNames, List.any_eq_true, List.mem_flatMap]
  simp only [List.contains_iff_mem]

/-- Sources are compared column by column. -/
instance (t t' : Table) : Decidable (SameSources t t') :=
  inferInstanceAs (Decidable (∀ c ∈ t.columns, _))

/-- A column is by itself the primary key if it covers it. -/
theorem sameNames_singleton_eq (t : Table) (name : String) :
    sameNames t.keyColumns [name] = coversKey t [name] := by
  rw [Bool.eq_iff_iff, sameNames_iff, coversKey_iff, Table.keySet]
  constructor
  · intro heq
    rw [heq]
    simp
  · rintro ⟨-, heq⟩
    exact heq.symm

/-- The name of a column as a list of names. -/
theorem singleton_subset_columnNames {t : Table} {c : Column} (hc : c ∈ t.columns) :
    [c.name] ⊆ t.columnNames :=
  List.cons_subset.2 ⟨List.mem_map_of_mem hc, List.nil_subset _⟩

/-- The foreign keys that columns imply start from one column each. -/
theorem exists_column_of_mem_impliedKeys {config : Config} {s : Schema} {t : Table}
    {k : ForeignKey} (hk : k ∈ impliedKeys config s t) :
    ∃ c ∈ t.columns, k.fromColumns = [c.name] := by
  rw [impliedKeys] at hk
  split at hk
  · obtain ⟨c, hc, hk⟩ := List.mem_filterMap.1 hk
    exact ⟨c, hc, fromColumns_of_impliedKey? hk⟩
  · cases hk

/-- The foreign keys that columns imply start from columns of the table. -/
theorem fromColumns_subset_of_mem_impliedKeys {config : Config} {s : Schema} {t : Table}
    {k : ForeignKey} (hk : k ∈ impliedKeys config s t) : k.fromColumns ⊆ t.columnNames := by
  obtain ⟨c, hc, hk⟩ := exists_column_of_mem_impliedKeys hk
  rw [hk]
  exact singleton_subset_columnNames hc

/-- Implied foreign keys start from columns of the table, since each is implied by one. -/
theorem flatten_impliedKeys_subset (config : Config) (s : Schema) (t : Table) :
    ((impliedKeys config s t).map (·.fromColumns)).flatten ⊆ t.columnNames := by
  rw [← List.flatMap_def]
  intro name hname
  obtain ⟨k, hk, hname⟩ := List.mem_flatMap.1 hname
  exact fromColumns_subset_of_mem_impliedKeys hk hname

/-- The sources with the implied foreign keys. -/
theorem sourceNames_withImpliedKeys (config : Config) (s : Schema) (t : Table) :
    (withImpliedKeys config s t).sourceNames =
      t.sourceNames ++ ((impliedKeys config s t).map (·.fromColumns)).flatten := by
  rw [← List.flatMap_def]
  exact List.flatMap_append

/-- Implied foreign keys start from declared columns. -/
theorem sourceNames_withImpliedKeys_subset {t : Table} (h : t.sourceNames ⊆ t.columnNames)
    (config : Config) (s : Schema) : (withImpliedKeys config s t).sourceNames ⊆ t.columnNames := by
  rw [sourceNames_withImpliedKeys]
  exact List.append_subset.2 ⟨h, flatten_impliedKeys_subset config s t⟩

/-- The same columns imply foreign keys, if the same ones are sources and the same one is the
primary key. Only the columns they start from are compared, since their targets may be spelled
differently. -/
theorem map_fromColumns_impliedKeys_congr {s s' : Schema} (hlengths : keyLengths s = keyLengths s')
    {t t' : Table} (hcolumns : t.columns = t'.columns) (hsources : SameSources t t')
    (hcovers : ∀ c ∈ t.columns, coversKey t [c.name] = coversKey t' [c.name]) (config : Config) :
    (impliedKeys config s t).map (·.fromColumns) =
      (impliedKeys config s' t').map (·.fromColumns) := by
  rw [impliedKeys, impliedKeys]
  split
  · rw [← hcolumns, List.map_filterMap, List.map_filterMap]
    refine List.filterMap_congr fun c hc => ?_
    have hkey : sameNames t.keyColumns [c.name] = sameNames t'.keyColumns [c.name] := by
      rw [sameNames_singleton_eq, sameNames_singleton_eq, hcovers c hc]
    have hsome := isSome_impliedKey?_congr hlengths (c := c) rfl (hsources c hc) hkey config.suffix
    rw [map_fromColumns_impliedKey?, map_fromColumns_impliedKey?, hsome]
  · rfl

/-! ### What a run makes of a table -/

/-- Whether a run over `s` makes the table a junction. -/
def becomesJunction (config : Config) (s : Schema) (t : Table) : Bool :=
  config.junctions && resolvesManyToMany (withImpliedKeys config s t)

/-- The test for a junction reads the primary key and the sources of the foreign keys. It is written
with what is left of the implied keys when their targets are forgotten. -/
theorem resolvesManyToMany_withImpliedKeys (config : Config) (s : Schema) (t : Table) :
    resolvesManyToMany (withImpliedKeys config s t) =
      (t.foreignKeys.length + ((impliedKeys config s t).map (·.fromColumns)).length == 2 &&
        coversKey t (t.sourceNames ++ ((impliedKeys config s t).map (·.fromColumns)).flatten)) := by
  rw [← sourceNames_withImpliedKeys, List.length_map, ← List.length_append]
  rfl

/-- The test for a junction comes to the same before and after the cardinality pass. The pass sets
nothing that the test looks at. -/
theorem becomesJunction_iff (config : Config) (s : Schema) (t : Table) :
    becomesJunction config s t = true ↔
      config.junctions = true ∧
        resolvesManyToMany (classify (withImpliedKeys config s t)) = true := by
  have hclassify : resolvesManyToMany (classify (withImpliedKeys config s t)) =
      resolvesManyToMany (withImpliedKeys config s t) :=
    resolvesManyToMany_congr rfl (map_fromColumns_classify _)
  rw [becomesJunction, Bool.and_eq_true, hclassify]

/-- A junction comes out with two many-to-many keys. There are two of them because the test asks for
exactly two. -/
theorem map_cardinality_inferTable_of_junction {config : Config} {s : Schema} {t : Table}
    (h : becomesJunction config s t = true) :
    (inferTable config s t).foreignKeys.map (·.cardinality) =
      [some .manyToMany, some .manyToMany] := by
  obtain ⟨hon, hresolves⟩ := (becomesJunction_iff config s t).1 h
  obtain ⟨-, k₁, k₂, hkeys, -⟩ := (resolvesManyToMany_iff _).1 hresolves
  rw [inferTable_of_resolves hon hresolves, hkeys]
  rfl

/-- In any other table each key comes out with its own cardinality. It is the one of the key's
columns in the table. -/
theorem map_cardinality_inferTable_of_not_junction {config : Config} {s : Schema} {t : Table}
    (h : becomesJunction config s t = false) :
    (inferTable config s t).foreignKeys.map (·.cardinality) =
      (t.foreignKeys.map (cardinalityOf t) ++
        (impliedKeys config s t).map (cardinalityOf t)).map some := by
  rw [inferTable_of_not_resolves (mt (becomesJunction_iff config s t).2 (by simp [h])), classify,
    ← List.map_append, List.map_map, List.map_map]
  rfl

/-- A run makes many-to-many keys in junctions alone, and there it does. -/
theorem manyToMany_mem_inferTable_iff (config : Config) (s : Schema) (t : Table) :
    some .manyToMany ∈ (inferTable config s t).foreignKeys.map (·.cardinality) ↔
      becomesJunction config s t = true := by
  cases h : becomesJunction config s t with
  | true => simp [map_cardinality_inferTable_of_junction h]
  | false =>
      rw [map_cardinality_inferTable_of_not_junction h]
      simp only [← List.map_append, List.mem_map, Option.some.injEq, exists_eq_right,
        Bool.false_eq_true, iff_false]
      rintro ⟨k, -, hk⟩
      rw [cardinalityOf] at hk
      split at hk <;> cases hk

/-- The kind after a run. -/
theorem kind_inferTable_eq (config : Config) (s : Schema) (t : Table) :
    (inferTable config s t).kind =
      if becomesJunction config s t then some .junction else t.kind := by
  by_cases h : becomesJunction config s t = true
  · obtain ⟨hon, hresolves⟩ := (becomesJunction_iff config s t).1 h
    rw [inferTable_of_resolves hon hresolves, if_pos h]
  · rw [inferTable_of_not_resolves (mt (becomesJunction_iff config s t).2 h), if_neg h]
    rfl

/-- Whether two tables give the same answers on relations: the cardinality of each foreign key, the
kind of the table, and which of the columns are sources of foreign keys. -/
structure SameRelations (t t' : Table) : Prop where
  cardinalities : t.foreignKeys.map (·.cardinality) = t'.foreignKeys.map (·.cardinality)
  kind : t.kind = t'.kind
  sources : SameSources t t'

section Run
variable {s s' : Schema} (hlengths : keyLengths s = keyLengths s') {t t' : Table}
  (hcolumns : t.columns = t'.columns) (hkind : t.kind = t'.kind) (hsources : SameSources t t')
  (hcovers : ∀ c ∈ t.columns, coversKey t [c.name] = coversKey t' [c.name])
include hlengths hcolumns hsources hcovers

/-- Implied foreign keys have the same cardinalities. -/
theorem map_cardinalityOf_impliedKeys_congr (config : Config) :
    (impliedKeys config s t).map (cardinalityOf t) =
      (impliedKeys config s' t').map (cardinalityOf t') := by
  have hfrom := map_fromColumns_impliedKeys_congr hlengths hcolumns hsources hcovers config
  have hread (u : Table) (keys : List ForeignKey) : keys.map (cardinalityOf u) =
      (keys.map (·.fromColumns)).map fun names =>
        if coversKey u names then .oneToOne else .oneToMany := by
    rw [List.map_map]
    rfl
  rw [hread, hread, ← hfrom]
  refine List.map_congr_left fun names hnames => ?_
  obtain ⟨k, hk, rfl⟩ := List.mem_map.1 hnames
  obtain ⟨c, hc, hk⟩ := exists_column_of_mem_impliedKeys hk
  rw [hk, hcovers c hc]

include hkind

/-- Two tables come out with the same answers exactly if both become junctions or neither does, and
in the latter case the foreign keys that are declared get the same cardinalities. -/
theorem sameRelations_inferTable_iff (config : Config) :
    SameRelations (inferTable config s t) (inferTable config s' t') ↔
      becomesJunction config s t = becomesJunction config s' t' ∧
        (becomesJunction config s t = false →
          t.foreignKeys.map (cardinalityOf t) = t'.foreignKeys.map (cardinalityOf t')) := by
  constructor
  · rintro ⟨h, -, -⟩
    -- The cardinalities tell whether a table has become a junction, the kind does not: it may have
    -- been set before.
    have hjunction : becomesJunction config s t = becomesJunction config s' t' := by
      rw [Bool.eq_iff_iff, ← manyToMany_mem_inferTable_iff, ← manyToMany_mem_inferTable_iff, h]
    refine ⟨hjunction, fun hno => ?_⟩
    rw [map_cardinality_inferTable_of_not_junction hno,
      map_cardinality_inferTable_of_not_junction (hjunction ▸ hno),
      (List.map_injective_iff.2 (Option.some_injective _)).eq_iff,
      map_cardinalityOf_impliedKeys_congr hlengths hcolumns hsources hcovers] at h
    exact List.append_cancel_right h
  · rintro ⟨hjunction, hkeys⟩
    refine ⟨?_, ?_, fun c hc => ?_⟩
    · cases h : becomesJunction config s t with
      | true =>
          rw [map_cardinality_inferTable_of_junction h,
            map_cardinality_inferTable_of_junction (hjunction ▸ h)]
      | false =>
          rw [map_cardinality_inferTable_of_not_junction h,
            map_cardinality_inferTable_of_not_junction (hjunction ▸ h), hkeys h,
            map_cardinalityOf_impliedKeys_congr hlengths hcolumns hsources hcovers]
    · rw [kind_inferTable_eq, kind_inferTable_eq, hjunction, hkind]
    · rw [inferTable_eq_with] at hc
      rw [isForeignKeyColumn_inferTable, isForeignKeyColumn_inferTable, hsources c hc,
        map_fromColumns_impliedKeys_congr hlengths hcolumns hsources hcovers]

end Run

/-- Tables with the same foreign keys come out with the same answers, if their primary keys are the
same as far as names of columns and of sources go. -/
theorem sameRelations_of_foreignKeys_eq {s s' : Schema}
    (hlengths : keyLengths s = keyLengths s') {t t' : Table} (hcolumns : t.columns = t'.columns)
    (hkind : t.kind = t'.kind) (hkeys : t.foreignKeys = t'.foreignKeys)
    (hcovers : ∀ names ⊆ t.columnNames ++ t.sourceNames, coversKey t names = coversKey t' names)
    (config : Config) : SameRelations (inferTable config s t) (inferTable config s' t') := by
  have hsources : SameSources t t' := fun c _ => by
    rw [Table.isForeignKeyColumn, Table.isForeignKeyColumn, hkeys]
  have hcolumn : ∀ c ∈ t.columns, coversKey t [c.name] = coversKey t' [c.name] := fun c hc =>
    hcovers _ (List.subset_append_of_subset_left _ (singleton_subset_columnNames hc))
  have himplied := map_fromColumns_impliedKeys_congr hlengths hcolumns hsources hcolumn config
  refine (sameRelations_inferTable_iff hlengths hcolumns hkind hsources hcolumn config).2
    ⟨?_, fun _ => ?_⟩
  · -- Keys are implied by columns of the table, so the primary keys cover their sources alike.
    have hjoined : t.sourceNames ++ ((impliedKeys config s t).map (·.fromColumns)).flatten ⊆
        t.columnNames ++ t.sourceNames :=
      List.append_subset.2 ⟨List.subset_append_right _ _,
        List.subset_append_of_subset_left _ (flatten_impliedKeys_subset config s t)⟩
    have hnames : t'.sourceNames = t.sourceNames := by
      rw [Table.sourceNames, Table.sourceNames, hkeys]
    rw [becomesJunction, becomesJunction, resolvesManyToMany_withImpliedKeys,
      resolvesManyToMany_withImpliedKeys, hnames, ← himplied, ← hkeys, hcovers _ hjoined]
  · rw [← hkeys]
    refine List.map_congr_left fun k hk => ?_
    have hnames := Table.sourceNames_subset_iff.1 (List.Subset.refl t.sourceNames) k hk
    rw [cardinalityOf, cardinalityOf, hcovers _ (List.subset_append_of_subset_right _ hnames)]

end Relation

end EntityDiagram
