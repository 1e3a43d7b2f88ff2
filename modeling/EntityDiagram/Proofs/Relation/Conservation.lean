import EntityDiagram.Proofs.Relation.Answers

/-!
# `EntityDiagram.Proofs.Relation.Conservation`: what a run leaves alone, and what its counts say

A run goes over the tables up to three times, and a fourth traversal counts. `Completed` says what
may be different in a table afterwards. The counts are taken from the finished schema alone, so
what they say of the run is proved here: one table first, and then the sum over all tables.

* `completed_inferTable`: in each table the run sets cardinalities, appends foreign keys, and sets
  the kind `junction`, and that is all.
* `sum_countP_cardinality`: every foreign key of a finished table counts for one cardinality.
* `countP_manyToMany_inferTable`: a table counts for two many-to-many keys if the run makes it a
  junction, and for none otherwise.
* `infer_conserves`: the same for a whole schema.
-/

set_option autoImplicit false

namespace EntityDiagram.Relation

/-! ### What a run leaves alone -/

/-- Whether the second table is the first one completed by a run: nothing is different but
cardinalities, foreign keys at the end, and the kind, which can only have become `junction`. -/
structure Completed (before after : Table) : Prop where
  /-- Name, comment, columns, primary key and indexes. -/
  rest : { after with foreignKeys := before.foreignKeys, kind := before.kind } = before
  /-- The foreign keys that were there, cardinalities aside. -/
  foreignKeys : before.foreignKeys.map ForeignKey.unclassified <+:
    after.foreignKeys.map ForeignKey.unclassified
  kind : after.kind = before.kind ∨ after.kind = some .junction

/-- A run completes each table. -/
theorem completed_inferTable (config : Config) (s : Schema) (t : Table) :
    Completed t (inferTable config s t) where
  rest := by rw [inferTable_eq_with]
  foreignKeys := by
    rw [(classified_inferTable config s t).foreignKeys_eq, List.map_append]
    exact List.prefix_append _ _
  kind := by
    rw [kind_inferTable_eq]
    split
    · exact .inr rfl
    · exact .inl rfl

/-! ### What one table counts for -/

/-- A run adds the implied keys to a table and drops none. -/
theorem length_foreignKeys_inferTable (config : Config) (s : Schema) (t : Table) :
    (inferTable config s t).foreignKeys.length =
      t.foreignKeys.length + (impliedKeys config s t).length := by
  have hlength := congrArg List.length (classified_inferTable config s t).foreignKeys_eq
  rwa [List.length_map, List.length_map, List.length_append] at hlength

/-- Foreign keys that all have a cardinality are as many as there are of the three together. -/
theorem sum_countP_cardinality {keys : List ForeignKey} (h : ∀ k ∈ keys, k.cardinality ≠ none) :
    keys.countP (·.cardinality == some .oneToOne) + keys.countP (·.cardinality == some .oneToMany) +
      keys.countP (·.cardinality == some .manyToMany) = keys.length := by
  induction keys with
  | nil => rfl
  | cons k keys ih =>
      obtain ⟨hk, hrest⟩ := List.forall_mem_cons.1 h
      have hsum := ih hrest
      simp only [List.countP_cons, List.length_cons]
      -- The key itself counts for exactly one of the three.
      rcases hcard : k.cardinality with _ | _ | _ | _
      · exact absurd hcard hk
      all_goals
        simp
        omega

/-- A table counts for two many-to-many keys if the run makes it a junction, whatever its kind was,
and for none otherwise. -/
theorem countP_manyToMany_inferTable (config : Config) (s : Schema) (t : Table) :
    (inferTable config s t).foreignKeys.countP (·.cardinality == some .manyToMany) =
      if becomesJunction config s t then 2 else 0 := by
  cases h : becomesJunction config s t with
  | true =>
      have hcount := congrArg (List.countP (· == some Cardinality.manyToMany))
        (map_cardinality_inferTable_of_junction h)
      rwa [List.countP_map] at hcount
  | false =>
      -- No other pass makes a key many to many.
      rw [if_neg (by decide), List.countP_eq_zero]
      intro k hk hmany
      have hmem := List.mem_map_of_mem (f := ForeignKey.cardinality) hk
      rw [beq_iff_eq.1 hmany, manyToMany_mem_inferTable_iff, h] at hmem
      cases hmem

/-- A table that was no junction before comes out as one exactly if the run makes it one. -/
theorem isJunction_inferTable_eq {config : Config} {s : Schema} {t : Table}
    (h : t.isJunction = false) :
    (inferTable config s t).isJunction = becomesJunction config s t := by
  rw [Table.isJunction, kind_inferTable_eq]
  cases becomesJunction config s t with
  | true => rfl
  | false => exact h

/-! ### What all tables count for -/

/-- The foreign keys after a run, table by table. -/
theorem foreignKeys_infer (config : Config) (s : Schema) :
    (infer config s).1.foreignKeys =
      s.tables.flatMap fun t => (inferTable config s t).foreignKeys := by
  show (s.tables.map (inferTable config s)).flatMap (·.foreignKeys) = _
  rw [List.flatMap_map]

/-- No foreign key is without a cardinality after a run. -/
theorem cardinality_ne_none_of_mem_infer {config : Config} {s : Schema} {k : ForeignKey}
    (hk : k ∈ (infer config s).1.foreignKeys) : k.cardinality ≠ none := by
  rw [foreignKeys_infer] at hk
  obtain ⟨t, -, hk⟩ := List.mem_flatMap.1 hk
  exact (classified_inferTable config s t).complete k hk

/-- The number of foreign keys grows by the implied ones. -/
theorem foreignKeyCount_infer (config : Config) (s : Schema) :
    (infer config s).1.foreignKeyCount = s.foreignKeyCount + (infer config s).2.impliedKeys := by
  show (infer config s).1.foreignKeys.length =
    (s.tables.flatMap (·.foreignKeys)).length + (s.tables.flatMap (impliedKeys config s)).length
  rw [foreignKeys_infer]
  induction s.tables with
  | nil => rfl
  | cons t ts ih =>
      simp only [List.flatMap_cons, List.length_append, length_foreignKeys_inferTable] at ih ⊢
      omega

/-- The many-to-many keys after a run are two for each table that the run makes a junction. -/
theorem manyToMany_infer (config : Config) (s : Schema) :
    (infer config s).2.manyToMany = 2 * s.tables.countP (becomesJunction config s) := by
  show (infer config s).1.foreignKeys.countP (·.cardinality == some .manyToMany) = _
  rw [foreignKeys_infer]
  induction s.tables with
  | nil => rfl
  | cons t ts ih =>
      rw [List.flatMap_cons, List.countP_append, countP_manyToMany_inferTable, ih, List.countP_cons]
      split <;> omega

/-- **A run conserves the schema.** It changes nothing but cardinalities, the kind of tables that it
finds to be junctions, and the foreign keys that it appends. The number of foreign keys grows by
the implied ones, and each of them counts for one cardinality. No key is many to many where
junctions are not detected. Where they are and no table was one before, there are two
many-to-many keys for each junction. -/
theorem infer_conserves (config : Config) (s : Schema) :
    { (infer config s).1 with tables := s.tables } = s ∧
      List.Forall₂ Completed s.tables (infer config s).1.tables ∧
      (infer config s).1.foreignKeyCount = s.foreignKeyCount + (infer config s).2.impliedKeys ∧
      (infer config s).1.foreignKeyCount =
        (infer config s).2.oneToOne + (infer config s).2.oneToMany +
          (infer config s).2.manyToMany ∧
      (config.junctions = false → (infer config s).2.manyToMany = 0) ∧
      (config.junctions = true → (∀ t ∈ s.tables, t.isJunction = false) →
        (infer config s).2.manyToMany = 2 * (infer config s).2.junctionTables) := by
  refine ⟨rfl, ?_, foreignKeyCount_infer config s, ?_, ?_, ?_⟩
  · show List.Forall₂ Completed s.tables (s.tables.map (inferTable config s))
    rw [List.forall₂_map_right_iff, List.forall₂_same]
    exact fun t _ => completed_inferTable config s t
  · exact (sum_countP_cardinality fun k hk => cardinality_ne_none_of_mem_infer hk).symm
  · intro hoff
    have hnone : s.tables.countP (becomesJunction config s) = 0 := by
      rw [List.countP_eq_zero]
      intro t _
      rw [becomesJunction, hoff, Bool.false_and]
      exact Bool.false_ne_true
    rw [manyToMany_infer, hnone]
  · intro _ hbefore
    -- A table that an earlier run has left as a junction would be counted without having such keys.
    have hjunctions : (infer config s).2.junctionTables =
        s.tables.countP (becomesJunction config s) := by
      show (s.tables.map (inferTable config s)).countP (·.isJunction) = _
      rw [List.countP_map]
      refine List.countP_congr fun t ht => ?_
      rw [Function.comp_apply, isJunction_inferTable_eq (hbefore t ht)]
    rw [manyToMany_infer, hjunctions]

end EntityDiagram.Relation
