import EntityDiagram.Proofs.Relation.ImpliedKey

/-!
# `EntityDiagram.Proofs.Relation.Repetition`: a second run changes nothing

A run adds foreign keys, and these decide which columns are sources of foreign keys and which
tables are junctions. So that a second run finds nothing to do takes two things: no column implies
a foreign key any more, and the cardinalities and kinds are those that the finished table
determines. `Settled` says both of one table. The theorems:

* `inferTable_eq_self_iff`: the tables that a run leaves as they are.
* `impliedKeys_inferTable`: in a table that comes out of a run no column implies a foreign key, also
  where columns share a name.
* `infer_infer`: a second run leaves the schema as it is and counts the same, but no new keys.

The order of the passes matters here: keys are appended first and cardinalities are computed with
them, so that the second run meets the same keys as the first one did after its first pass. Whether
a column implies a key depends on the other tables through their names and keys only, and a run
changes neither. It also depends on the keys of its own table, and there the key that was appended
is the reason why no second one is.
-/

set_option autoImplicit false

namespace EntityDiagram.Relation

/-! ### Tables that a run leaves as they are -/

/-- Whether a run over `s` has nothing to change in the table: no column implies a foreign key, and
kind and cardinalities are what the table determines. It is stated without a run, so that it can be
checked on a table by itself. -/
structure Settled (config : Config) (s : Schema) (t : Table) : Prop where
  implied : impliedKeys config s t = []
  junction : config.junctions = true ∧ JoinsByKey t →
    (∀ k ∈ t.foreignKeys, k.cardinality = some .manyToMany) ∧ t.kind = some .junction
  ordinary : ¬ (config.junctions = true ∧ JoinsByKey t) →
    ∀ k ∈ t.foreignKeys, k.cardinality = some (cardinalityOf t k)

/-- Cardinalities that all foreign keys have already are set to no effect. The cardinality may
depend on the foreign key. -/
theorem map_cardinality_eq_self {keys : List ForeignKey} {f : ForeignKey → Cardinality}
    (h : ∀ k ∈ keys, k.cardinality = some (f k)) :
    keys.map (fun k => { k with cardinality := some (f k) }) = keys := by
  refine (List.map_congr_left fun k hk => ?_).trans (List.map_id keys)
  show { k with cardinality := some (f k) } = k
  rw [← h k hk]

/-- The cardinality of every foreign key of a classified table that is no junction. It does not
matter whether the key was there before or is implied. -/
theorem Classified.cardinality_eq {config : Config} {s : Schema} {before after : Table}
    (h : Classified config s before after)
    (hordinary : ¬ (config.junctions = true ∧ JoinsByKey after)) :
    ∀ k ∈ after.foreignKeys, k.cardinality = some (cardinalityOf after k) := by
  intro k hk
  obtain ⟨hone, hmany⟩ := (h.ordinary hordinary).1 k hk
  by_cases hstarts : StartsFromKey after k
  · rw [hone hstarts, (cardinalityOf_eq_oneToOne_iff after k).2 hstarts]
  · rw [hmany hstarts, (cardinalityOf_eq_oneToMany_iff after k).2 hstarts]

/-- **The tables that a run leaves as they are** are the settled ones. This turns idempotence into
the statement that the results of a run are settled. -/
theorem inferTable_eq_self_iff (config : Config) (s : Schema) (t : Table) :
    inferTable config s t = t ↔ Settled config s t := by
  constructor
  · intro h
    have hclassified := classified_inferTable config s t
    rw [h] at hclassified
    refine ⟨?_, hclassified.junction, hclassified.cardinality_eq⟩
    -- The run appends the implied keys, and still there are no more keys than before.
    have hlength := congrArg List.length hclassified.foreignKeys_eq
    rw [List.length_map, List.length_map, List.length_append] at hlength
    exact List.length_eq_zero_iff.1 (by omega)
  · rintro ⟨himplied, hjunction, hordinary⟩
    have hwith : withImpliedKeys config s t = t := by
      rw [withImpliedKeys, himplied, List.append_nil]
    have hjoins : resolvesManyToMany (classify (withImpliedKeys config s t)) = true ↔
        JoinsByKey t := by
      rw [resolvesManyToMany_iff, hwith]
      exact joinsByKey_congr rfl (map_fromColumns_classify t)
    -- Nothing is implied, so only kind and cardinalities are left to compare.
    by_cases h : config.junctions = true ∧ JoinsByKey t
    · obtain ⟨hmany, hkind⟩ := hjunction h
      have hkeys := map_cardinality_eq_self (f := fun _ => .manyToMany) hmany
      rw [inferTable_of_resolves h.1 (hjoins.2 h.2), hwith, ← hkind]
      show { t with foreignKeys := (t.foreignKeys.map _).map _ } = t
      rw [List.map_map]
      exact congrArg (fun keys => { t with foreignKeys := keys }) hkeys
    · rw [inferTable_of_not_resolves (by rwa [hjoins]), hwith, classify,
        map_cardinality_eq_self (hordinary h)]

/-! ### Tables that come out of a run -/

/-- A stem refers to a table after a run exactly if it did so before. A run changes neither the
names of tables nor their primary keys, and lookups see nothing else. -/
theorem keyLengths_inferSchema (config : Config) (s : Schema) :
    keyLengths (inferSchema config s) = keyLengths s := by
  rw [keyLengths, keyLengths, inferSchema, List.map_map]
  refine List.map_congr_left fun t _ => ?_
  show ((inferTable config s t).name, (inferTable config s t).primaryKey.map _) = _
  rw [inferTable_eq_with]

/-- A column that implies a foreign key is the source of one after the run. Hence it implies none in
a second run, which asks for columns without a foreign key. -/
theorem isForeignKeyColumn_inferTable_of_implies {config : Config} {s : Schema} {t : Table}
    {c : Column} {k : ForeignKey}
    (hon : (config.namingConvention && !config.suffix.isEmpty) = true) (hc : c ∈ t.columns)
    (hk : impliedKey? s config.suffix t c = some k) :
    (inferTable config s t).isForeignKeyColumn c.name = true := by
  have hmem : k ∈ impliedKeys config s t := by
    rw [impliedKeys, if_pos hon]
    exact List.mem_filterMap.2 ⟨c, hc, hk⟩
  rw [isForeignKeyColumn_inferTable, Bool.or_eq_true, List.any_eq_true]
  exact .inr ⟨k.fromColumns, List.mem_map_of_mem hmem, by simp [fromColumns_of_impliedKey? hk]⟩

/-- **In a table that comes out of a run no column implies a foreign key.** -/
theorem impliedKeys_inferTable (config : Config) (s : Schema) (t : Table) :
    impliedKeys config (inferSchema config s) (inferTable config s t) = [] := by
  have hframe := inferTable_eq_with config s t
  have hcolumns : (inferTable config s t).columns = t.columns := by rw [hframe]
  have hkey : (inferTable config s t).keyColumns = t.keyColumns := by rw [hframe]; rfl
  rw [impliedKeys]
  split
  · rename_i hon
    rw [hcolumns, List.filterMap_eq_nil_iff]
    intro c hc
    cases hnow : (inferTable config s t).isForeignKeyColumn c.name with
    | true => exact impliedKey?_of_source hnow
    | false =>
        -- The column has implied nothing in the first run, and what this depends on is as it was.
        have hbefore : t.isForeignKeyColumn c.name = false := by
          rw [isForeignKeyColumn_inferTable, Bool.or_eq_false_iff] at hnow
          exact hnow.1
        have hnone : impliedKey? s config.suffix t c = none := by
          by_contra hsome
          obtain ⟨k, hk⟩ := Option.ne_none_iff_exists'.1 hsome
          rw [isForeignKeyColumn_inferTable_of_implies hon hc hk] at hnow
          cases hnow
        have hsame := isSome_impliedKey?_congr (keyLengths_inferSchema config s) (c := c) rfl
          (hnow.trans hbefore.symm) (by rw [hkey]) config.suffix
        rw [hnone] at hsame
        exact Option.isNone_iff_eq_none.1 (by simpa using hsame)
  · rfl

/-- A table that comes out of a run is settled. -/
theorem settled_inferTable (config : Config) (s : Schema) (t : Table) :
    Settled config (inferSchema config s) (inferTable config s t) where
  implied := impliedKeys_inferTable config s t
  junction := (classified_inferTable config s t).junction
  ordinary := (classified_inferTable config s t).cardinality_eq

/-! ### A whole run -/

/-- **A second run changes nothing.** It leaves the schema as the first one has left it and counts
the same, except that it adds no foreign keys. -/
theorem infer_infer (config : Config) (s : Schema) :
    infer config (infer config s).1 =
      ((infer config s).1, { (infer config s).2 with impliedKeys := 0 }) := by
  have htables : (inferSchema config s).tables.map (inferTable config (inferSchema config s)) =
      (inferSchema config s).tables := by
    refine (List.map_congr_left fun u hu => ?_).trans (List.map_id _)
    obtain ⟨t, -, rfl⟩ := List.mem_map.1 hu
    exact (inferTable_eq_self_iff config _ _).2 (settled_inferTable config s t)
  have hschema : inferSchema config (inferSchema config s) = inferSchema config s :=
    congrArg (fun tables => { inferSchema config s with tables }) htables
  -- Every column that a key was implied for starts one now, so nothing is implied again.
  have hadded : (inferSchema config s).tables.flatMap (impliedKeys config (inferSchema config s)) =
      [] := by
    refine List.flatMap_eq_nil_iff.2 fun u hu => ?_
    obtain ⟨t, -, rfl⟩ := List.mem_map.1 hu
    exact impliedKeys_inferTable config s t
  show (inferSchema config (inferSchema config s),
      summarize (inferSchema config (inferSchema config s))
        ((inferSchema config s).tables.flatMap
          (impliedKeys config (inferSchema config s))).length) = _
  rw [hschema, hadded]
  rfl

end EntityDiagram.Relation
