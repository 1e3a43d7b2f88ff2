import EntityDiagram.Relation.Inference
import Mathlib.Data.Finset.Insert
import Mathlib.Data.Finset.Lattice.Lemmas
import Mathlib.Data.List.Forall2

/-!
# `EntityDiagram.Proofs.Relation.Classification`: what a run makes of each table

Inference compares lists of column names with `sameNames`. Here the same rules are said with
sets: `Table.keySet` is the set of primary key columns, `ForeignKey.sources` the set of columns
that a foreign key starts from, and `JoinsByKey` the rule for a junction. The theorems:

* `resolvesManyToMany_iff`: the test that inference makes is `JoinsByKey`.
* `joinsByKey_congr`: the rule reads only the primary key and the sources of the foreign keys, so
  neither a cardinality nor a kind that an earlier run has set can change it.
* `infer_classifies`: every table that comes out of a run is `Classified`. The junction pass
  overrides the cardinality pass, and where it does not apply the kind is the one from before.
-/

set_option autoImplicit false

namespace EntityDiagram

/-- The columns of the table's primary key as a set. A key that names a column twice is no different
from one that names it once. -/
def Table.keySet (t : Table) : Finset String := t.keyColumns.toFinset

/-- The columns that the foreign key starts from as a set. -/
def ForeignKey.sources (k : ForeignKey) : Finset String := k.fromColumns.toFinset

/-- The foreign key as it was before any inference. It is used to say that two keys are the same in
everything but their cardinality. -/
def ForeignKey.unclassified (k : ForeignKey) : ForeignKey := { k with cardinality := none }

namespace Relation

/-- The rule for a junction: the table has exactly two foreign keys, and together they start from
exactly its primary key, which is not empty. Whether the two overlap does not matter, nor in which
order their columns stand. -/
def JoinsByKey (t : Table) : Prop :=
  t.keySet.Nonempty ∧ ∃ k₁ k₂, t.foreignKeys = [k₁, k₂] ∧ k₁.sources ∪ k₂.sources = t.keySet

/-- The rule for a foreign key that joins one row to one: it starts from exactly the primary key of
its table, which is not empty. A row of the table has then at most one row of the other one, and the
other way round. -/
def StartsFromKey (t : Table) (k : ForeignKey) : Prop :=
  t.keySet.Nonempty ∧ k.sources = t.keySet

/-! ### The tests of inference, said with sets -/

/-- `sameNames` compares two lists as sets. The program compares lists in both directions, and
repetitions do not count. -/
theorem sameNames_iff (a b : List String) :
    sameNames a b = true ↔ a.toFinset = b.toFinset := by
  rw [sameNames, Bool.and_eq_true, List.all_eq_true, List.all_eq_true]
  simp only [List.contains_iff_mem, Finset.ext_iff, List.mem_toFinset]
  constructor
  · rintro ⟨hab, hba⟩ name
    exact ⟨hab name, hba name⟩
  · intro h
    exact ⟨fun name => (h name).1, fun name => (h name).2⟩

/-- `coversKey` asks for a primary key with columns and for names that are exactly those. A table
without a primary key, or with an empty one, covers nothing. -/
theorem coversKey_iff (t : Table) (names : List String) :
    coversKey t names = true ↔ t.keySet.Nonempty ∧ names.toFinset = t.keySet := by
  -- The list has an element exactly if the set has one.
  have hempty : (!t.keyColumns.isEmpty) = true ↔ t.keySet.Nonempty := by
    rw [Table.keySet, List.toFinset_nonempty_iff]
    cases t.keyColumns <;> simp
  rw [coversKey, Bool.and_eq_true, hempty, sameNames_iff, Table.keySet]

/-- The cardinality that inference gives a foreign key, junctions aside. -/
theorem cardinalityOf_eq_oneToOne_iff (t : Table) (k : ForeignKey) :
    cardinalityOf t k = .oneToOne ↔ StartsFromKey t k := by
  rw [StartsFromKey, ForeignKey.sources, ← coversKey_iff, cardinalityOf]
  split <;> simp_all

/-- A foreign key that is not one to one is one to many, junctions aside. -/
theorem cardinalityOf_eq_oneToMany_iff (t : Table) (k : ForeignKey) :
    cardinalityOf t k = .oneToMany ↔ ¬ StartsFromKey t k := by
  rw [← cardinalityOf_eq_oneToOne_iff, cardinalityOf]
  split <;> simp

/-- The junction test of inference is the rule for a junction. -/
theorem resolvesManyToMany_iff (t : Table) : resolvesManyToMany t = true ↔ JoinsByKey t := by
  rw [resolvesManyToMany, Bool.and_eq_true, coversKey_iff, JoinsByKey, beq_iff_eq,
    List.length_eq_two]
  constructor
  · rintro ⟨⟨k₁, k₂, hkeys⟩, hkey, hunion⟩
    refine ⟨hkey, k₁, k₂, hkeys, ?_⟩
    rw [← hunion, hkeys]
    simp [ForeignKey.sources, List.toFinset_append]
  · rintro ⟨hkey, k₁, k₂, hkeys, hunion⟩
    refine ⟨⟨k₁, k₂, hkeys⟩, hkey, ?_⟩
    rw [← hunion, hkeys]
    simp [ForeignKey.sources, List.toFinset_append]

/-- Whether a table resolves a many-to-many relation depends on its primary key and on the columns
its foreign keys start from, and on nothing else. In particular a first run cannot change the answer
for a second one. -/
theorem resolvesManyToMany_congr {t u : Table} (hkey : t.primaryKey = u.primaryKey)
    (hfrom : t.foreignKeys.map (·.fromColumns) = u.foreignKeys.map (·.fromColumns)) :
    resolvesManyToMany t = resolvesManyToMany u := by
  have hlength : t.foreignKeys.length = u.foreignKeys.length := by
    simpa using congrArg List.length hfrom
  -- The test reads the foreign keys only through their number and their sources.
  have hsources :
      t.foreignKeys.flatMap (·.fromColumns) = u.foreignKeys.flatMap (·.fromColumns) := by
    rw [List.flatMap_def, List.flatMap_def, hfrom]
  rw [resolvesManyToMany, resolvesManyToMany, hlength, hsources, coversKey, coversKey,
    Table.keyColumns, Table.keyColumns, hkey]

/-- The rule for a junction is blind to cardinalities and kinds. So it can be asked before or after
the cardinalities are set. -/
theorem joinsByKey_congr {t u : Table} (hkey : t.primaryKey = u.primaryKey)
    (hfrom : t.foreignKeys.map (·.fromColumns) = u.foreignKeys.map (·.fromColumns)) :
    JoinsByKey t ↔ JoinsByKey u := by
  rw [← resolvesManyToMany_iff, ← resolvesManyToMany_iff, resolvesManyToMany_congr hkey hfrom]

/-! ### One table -/

/-- What a run of inference over `s` has to make of a table: the foreign keys are those from before
and the implied ones, and each has the cardinality that the finished table determines. It says what
the foreign keys and the kind of the table are afterwards, and which of them were there before. -/
structure Classified (config : Config) (s : Schema) (before after : Table) : Prop where
  /-- The foreign keys are those from before and then the implied ones. -/
  foreignKeys_eq : after.foreignKeys.map ForeignKey.unclassified =
    (before.foreignKeys ++ impliedKeys config s before).map ForeignKey.unclassified
  /-- The primary key is the one from before. -/
  primaryKey_eq : after.primaryKey = before.primaryKey
  /-- A junction, where junctions are detected. -/
  junction : config.junctions = true ∧ JoinsByKey after →
    (∀ k ∈ after.foreignKeys, k.cardinality = some .manyToMany) ∧ after.kind = some .junction
  /-- Any other table. -/
  ordinary : ¬ (config.junctions = true ∧ JoinsByKey after) →
    (∀ k ∈ after.foreignKeys,
      (StartsFromKey after k → k.cardinality = some .oneToOne) ∧
      (¬ StartsFromKey after k → k.cardinality = some .oneToMany)) ∧
    after.kind = before.kind
  /-- No foreign key is left without a cardinality. -/
  complete : ∀ k ∈ after.foreignKeys, k.cardinality ≠ none

/-- Classification sets cardinalities and nothing else. -/
theorem map_unclassified_classify (t : Table) :
    (classify t).foreignKeys.map ForeignKey.unclassified =
      t.foreignKeys.map ForeignKey.unclassified := by
  simp [classify, ForeignKey.unclassified]

/-- Classification keeps the columns that the foreign keys start from. -/
theorem map_fromColumns_classify (t : Table) :
    (classify t).foreignKeys.map (·.fromColumns) = t.foreignKeys.map (·.fromColumns) := by
  simp [classify]

/-- A table that resolves a many-to-many relation comes out as a junction. All of its foreign keys
are many to many then, whatever the first pass said. -/
theorem inferTable_of_resolves {config : Config} {s : Schema} {t : Table}
    (hjunctions : config.junctions = true)
    (hresolves : resolvesManyToMany (classify (withImpliedKeys config s t)) = true) :
    inferTable config s t =
      { classify (withImpliedKeys config s t) with
        kind := some .junction
        foreignKeys := (classify (withImpliedKeys config s t)).foreignKeys.map
          fun k => { k with cardinality := some .manyToMany } } := by
  simp [inferTable, markJunction, hjunctions, hresolves]

/-- Any other table comes out as the cardinality pass has left it. Its kind in particular is not
touched. -/
theorem inferTable_of_not_resolves {config : Config} {s : Schema} {t : Table}
    (h : ¬ (config.junctions = true ∧
      resolvesManyToMany (classify (withImpliedKeys config s t)) = true)) :
    inferTable config s t = classify (withImpliedKeys config s t) := by
  unfold inferTable markJunction
  grind

/-- A run changes the kind and the foreign keys of a table and nothing else. Names, columns, the
primary key and all the rest stay as they are. -/
theorem inferTable_eq_with (config : Config) (s : Schema) (t : Table) :
    inferTable config s t =
      { t with
        foreignKeys := (inferTable config s t).foreignKeys
        kind := (inferTable config s t).kind } := by
  by_cases h : config.junctions = true ∧
      resolvesManyToMany (classify (withImpliedKeys config s t)) = true
  · rw [inferTable_of_resolves h.1 h.2]
    rfl
  · rw [inferTable_of_not_resolves h]
    rfl

/-- The foreign keys that a run leaves start from the columns that they started from before the
cardinality pass. -/
theorem map_fromColumns_inferTable (config : Config) (s : Schema) (t : Table) :
    (inferTable config s t).foreignKeys.map (·.fromColumns) =
      (withImpliedKeys config s t).foreignKeys.map (·.fromColumns) := by
  -- Both passes after the cardinalities leave the sources alone, whichever branch is taken.
  refine Eq.trans ?_ (map_fromColumns_classify (withImpliedKeys config s t))
  by_cases h : config.junctions = true ∧
      resolvesManyToMany (classify (withImpliedKeys config s t)) = true
  · rw [inferTable_of_resolves h.1 h.2]
    simp
  · rw [inferTable_of_not_resolves h]

/-- A run keeps the primary key. -/
theorem primaryKey_inferTable (config : Config) (s : Schema) (t : Table) :
    (inferTable config s t).primaryKey = t.primaryKey := by
  rw [inferTable_eq_with]

/-- The finished table satisfies the rule for a junction exactly if the table with its implied keys
passes the junction test: neither pass can turn the one into the other. Both passes leave the
primary key and the sources of foreign keys alone, and nothing else counts. -/
theorem joinsByKey_inferTable_iff (config : Config) (s : Schema) (t : Table) :
    JoinsByKey (inferTable config s t) ↔
      resolvesManyToMany (classify (withImpliedKeys config s t)) = true := by
  rw [resolvesManyToMany_iff]
  refine joinsByKey_congr (primaryKey_inferTable config s t) ?_
  rw [map_fromColumns_inferTable, map_fromColumns_classify]

/-- One table after a run. The two cases are those of the program: it is a junction and that is
asked for, or not. -/
theorem classified_inferTable (config : Config) (s : Schema) (t : Table) :
    Classified config s t (inferTable config s t) := by
  by_cases h : config.junctions = true ∧
      resolvesManyToMany (classify (withImpliedKeys config s t)) = true
  · have heq := inferTable_of_resolves (s := s) h.1 h.2
    -- A junction: the last pass has overwritten every cardinality.
    have hmany : ∀ k ∈ (inferTable config s t).foreignKeys, k.cardinality = some .manyToMany := by
      rw [heq]
      simp
    refine
      { foreignKeys_eq := ?_
        primaryKey_eq := primaryKey_inferTable config s t
        junction := fun _ => ⟨hmany, by rw [heq]⟩
        ordinary := fun hnot => ?_
        complete := fun k hk => by simp [hmany k hk] }
    · rw [heq]
      refine Eq.trans ?_ (map_unclassified_classify (withImpliedKeys config s t))
      simp [ForeignKey.unclassified]
    · exact absurd ⟨h.1, (joinsByKey_inferTable_iff config s t).2 h.2⟩ hnot
  · have heq := inferTable_of_not_resolves h
    -- No junction: the cardinality pass has the last word, and it looked at a table with the same
    -- primary key as the finished one.
    have hcard : ∀ k ∈ (inferTable config s t).foreignKeys,
        k.cardinality = some (cardinalityOf (inferTable config s t) k) := by
      rw [heq]
      intro k hk
      obtain ⟨k', -, rfl⟩ := List.mem_map.1 hk
      rfl
    refine
      { foreignKeys_eq := ?_
        primaryKey_eq := primaryKey_inferTable config s t
        junction := fun hjoins => ?_
        ordinary := fun _ => ⟨fun k hk => ?_, by rw [heq]; rfl⟩
        complete := fun k hk => by simp [hcard k hk] }
    · rw [heq, map_unclassified_classify]
      rfl
    · exact absurd ⟨hjoins.1, (joinsByKey_inferTable_iff config s t).1 hjoins.2⟩ h
    · rw [hcard k hk]
      exact ⟨fun hkey => by rw [(cardinalityOf_eq_oneToOne_iff _ k).2 hkey],
        fun hkey => by rw [(cardinalityOf_eq_oneToMany_iff _ k).2 hkey]⟩

/-! ### A whole run -/

/-- **Every table that comes out of a run is classified.** The tables keep their places, so each
stands against the table it was before the run. -/
theorem infer_classifies (config : Config) (s : Schema) :
    List.Forall₂ (Classified config s) s.tables (infer config s).1.tables := by
  rw [show (infer config s).1.tables = s.tables.map (inferTable config s) from rfl,
    List.forall₂_map_right_iff, List.forall₂_same]
  exact fun t _ => classified_inferTable config s t

end Relation

end EntityDiagram
