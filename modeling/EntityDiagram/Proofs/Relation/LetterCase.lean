import EntityDiagram.Proofs.Relation.Answers
import EntityDiagram.Proofs.Schema.LetterCase

/-!
# `EntityDiagram.Proofs.Relation.LetterCase`: letter case in key clauses

The names in a primary key are looked up without regard to ASCII case and stored as the columns are
declared. Those in a foreign key are stored as they are written, and compared as they are stored.
`Respelled` relates two tables that are declared alike, with the names in their key clauses in any
letter case, and `NamesSources` says where a foreign key has to name its columns as declared. The
theorems:

* `Alike.coversKey_respelled_iff`: names in another letter case are those of the primary key exactly
  if they are in the letter case of the columns.
* `Alike.sameRelations_iff_namesSources`: for one table, which letter cases of its foreign keys make
  no difference.
* `infer_respelled`: the same for a run, where the letter case of primary keys makes no difference.
* `not_sameRelations_exampleProfiles`: that of a foreign key does.
-/

set_option autoImplicit false

namespace EntityDiagram.Relation

open Text (eqIgnoreCase)
open Table

/-! ### Tables in another letter case -/

/-- Whether the second foreign key is the first one with its columns in another letter case. -/
structure RespelledKey (k k' : ForeignKey) : Prop where
  fromColumns : SameWords k.fromColumns k'.fromColumns
  toColumns : SameWords k.toColumns k'.toColumns
  rest : { k with fromColumns := k'.fromColumns, toColumns := k'.toColumns } = k'

/-- Whether the second table is declared as the first one is, with the names in its key clauses in
another letter case. The names of the columns differ ignoring case, the primary key is set by
`markPrimaryKey`, and the foreign keys start from declared columns. -/
inductive Respelled : Table → Table → Prop
  | intro {base : Table} {key : PrimaryKey} {columns' : List String} {keys' : List ForeignKey}
      (hdistinct : DistinctNames base.columnNames)
      (hknown : ∀ k ∈ base.foreignKeys, Known base.columnNames k.fromColumns)
      (hkey : SameWords key.columns columns')
      (hkeys : List.Forall₂ RespelledKey base.foreignKeys keys') :
      Respelled (base.markPrimaryKey key)
        ({ base with foreignKeys := keys' }.markPrimaryKey { key with columns := columns' })

/-- What tables in different letter cases have in common. -/
structure Alike (t t' : Table) : Prop where
  distinct : DistinctNames t.columnNames
  known : ∀ k ∈ t.foreignKeys, Known t.columnNames k.fromColumns
  name : t.name = t'.name
  columns : t.columns = t'.columns
  keyLength : t.primaryKey.map (·.columns.length) = t'.primaryKey.map (·.columns.length)
  keyColumns : SameKnown t.columnNames t.keyColumns t'.keyColumns
  foreignKeys : List.Forall₂ (fun k k' => SameWords k.fromColumns k'.fromColumns)
    t.foreignKeys t'.foreignKeys
  kind : t.kind = t'.kind

/-- Marking the primary key sets the same flags in either spelling, and leaves the names of the
columns as they are declared. From here on a run cannot tell the tables apart, except by the
spelling of the sources. -/
theorem Respelled.alike {t t' : Table} (h : Respelled t t') : Alike t t' := by
  cases h with
  | @intro base key columns' keys' hdistinct hknown hkey hkeys =>
      have hnames := base.columnNames_markPrimaryKey key
      -- Foreign keys play no part where the primary key is set.
      have hcolumns : ({ base with foreignKeys := keys' }.markPrimaryKey
          { key with columns := columns' }).columns =
            (base.markPrimaryKey { key with columns := columns' }).columns := rfl
      have hstored : ({ base with foreignKeys := keys' }.markPrimaryKey
          { key with columns := columns' }).keyColumns =
            base.storedKey { key with columns := columns' } :=
        Table.keyColumns_markPrimaryKey _ _
      refine
        { distinct := hnames ▸ hdistinct
          known := hnames ▸ hknown
          name := rfl
          columns := (columns_markPrimaryKey_congr base hkey).trans hcolumns.symm
          keyLength := ?_
          keyColumns := ?_
          foreignKeys := hkeys.imp fun _ _ hk => hk.fromColumns
          kind := rfl }
      · simp only [Table.primaryKey_markPrimaryKey, Table.storedKey, Option.map_some,
          List.length_map, hkey.length_eq]
      · rw [hnames, hstored, Table.keyColumns_markPrimaryKey]
        exact sameKnown_storedKey base hkey

/-! ### What a primary key covers -/

/-- Names that are the same as those of a key are known if the key is. -/
theorem known_of_toFinset_eq {declared names key : List String}
    (h : names.toFinset = key.toFinset) (hnames : Known declared names) : Known declared key := by
  intro name hname
  refine hnames name ?_
  rwa [← List.mem_toFinset, h, List.mem_toFinset]

namespace Alike

variable {t t' : Table} (h : Alike t t')
include h

/-- The same known names are those of the primary key. -/
theorem coversKey_eq {names : List String} (hnames : Known t.columnNames names) :
    coversKey t names = coversKey t' names := by
  rw [Bool.eq_iff_iff, coversKey_iff, coversKey_iff, Table.keySet, Table.keySet]
  constructor
  · rintro ⟨hne, hsame⟩
    have hkey := (h.keyColumns.eq_of_known (known_of_toFinset_eq hsame hnames)).1
    rw [← hkey]
    exact ⟨hne, hsame⟩
  · rintro ⟨hne, hsame⟩
    have hkey := (h.keyColumns.symm.eq_of_known (known_of_toFinset_eq hsame hnames)).1
    rw [← hkey]
    exact ⟨hne, hsame⟩

/-- Names in another letter case are those of the primary key exactly if the names are, and the
letter case is that of the columns. -/
theorem coversKey_respelled_iff {names names' : List String} (hnames : names ⊆ t.columnNames)
    (hsame : SameWords names names') :
    coversKey t' names' = true ↔ coversKey t names = true ∧ names' ⊆ t.columnNames := by
  have hknown' : Known t.columnNames names' :=
    (hsame.known_iff t.columnNames).1 (known_of_subset hnames)
  rw [← h.coversKey_eq hknown']
  constructor
  · intro hcovers
    -- The stored key is in the letter case of the columns, so names that are exactly its own are.
    obtain ⟨-, heq⟩ := (coversKey_iff t names').1 hcovers
    have hkey := (h.keyColumns.eq_of_known (known_of_toFinset_eq heq hknown')).2
    have hnames' : names' ⊆ t.columnNames := fun name hname =>
      hkey (by rwa [← List.mem_toFinset, ← Table.keySet, ← heq, List.mem_toFinset])
    rw [hsame.eq_of_subset h.distinct hnames hnames'] at hcovers
    exact ⟨hcovers, hnames'⟩
  · rintro ⟨hcovers, hnames'⟩
    rwa [hsame.eq_of_subset h.distinct hnames hnames']

end Alike

/-! ### Foreign keys in another letter case -/

/-- The foreign key with its columns under the names that the table has for them. -/
def resolvedIn (t : Table) (k : ForeignKey) : ForeignKey :=
  { k with fromColumns := k.fromColumns.map (storedName t.columns) }

/-- The table with the columns of its foreign keys under the names that it has for them. -/
def resolved (t : Table) : Table := { t with foreignKeys := t.foreignKeys.map (resolvedIn t) }

/-- Whether the foreign keys name their columns as these are declared, as far as relations depend
on it. -/
structure NamesSources (config : Config) (s : Schema) (t : Table) : Prop where
  /-- Some foreign key names a column as declared, if any names it. -/
  sources : ∀ name ∈ t.sourceNames, storedName t.columns name ∈ t.sourceNames
  /-- A foreign key does so if it starts from the primary key. -/
  covering : ∀ k ∈ t.foreignKeys, StartsFromKey t (resolvedIn t k) →
    k.fromColumns ⊆ t.columnNames
  /-- All do so in a junction. -/
  joining : config.junctions = true → JoinsByKey (resolved (withImpliedKeys config s t)) →
    t.sourceNames ⊆ t.columnNames

/-- The test for a junction, with the columns of the foreign keys under the names that the table
has for them. -/
theorem resolvesManyToMany_resolved (t : Table) :
    resolvesManyToMany (resolved t) =
      (t.foreignKeys.length == 2 && coversKey t (t.sourceNames.map (storedName t.columns))) := by
  rw [resolvesManyToMany, resolved, List.length_map, List.flatMap_map, Table.sourceNames,
    List.map_flatMap]
  rfl

/-- Lists that are related member by member are related by what this says of the second one. -/
theorem forall₂_iff_forall_mem {α β : Type} {r q : α → β → Prop} {p : β → Prop} {as : List α}
    {bs : List β} (h : List.Forall₂ r as bs) (hiff : ∀ a b, r a b → (q a b ↔ p b)) :
    List.Forall₂ q as bs ↔ ∀ b ∈ bs, p b := by
  induction h with
  | nil => simp
  | cons hab _ ih => rw [List.forall₂_cons, List.forall_mem_cons, ih, hiff _ _ hab]

namespace Alike

variable {t t' : Table} (h : Alike t t')
include h

/-- The sources of all foreign keys are the same words, in the order of the keys. -/
theorem sameWords_sourceNames : SameWords t.sourceNames t'.sourceNames :=
  List.rel_flatMap h.foreignKeys fun _ _ hk => hk

/-- Implied foreign keys are added in the same letter case. They name columns of the table itself,
in the spelling of the table. -/
theorem withImpliedKeys {config : Config} {s s' : Schema}
    (himplied : (impliedKeys config s t).map (·.fromColumns) =
      (impliedKeys config s' t').map (·.fromColumns)) :
    Alike (withImpliedKeys config s t) (withImpliedKeys config s' t') := by
  refine { h with known := ?_, foreignKeys := ?_ }
  · refine List.forall_mem_append.2 ⟨h.known, fun k hk => ?_⟩
    have hsubset := fromColumns_subset_of_mem_impliedKeys hk
    exact known_of_subset hsubset
  · refine List.rel_append h.foreignKeys ?_
    rw [← List.forall₂_eq_eq_eq, List.forall₂_map_left_iff, List.forall₂_map_right_iff] at himplied
    refine himplied.imp fun k k' hk => ?_
    rw [hk]
    exact .refl _

/-- Names in another letter case are those of the primary key, under the names that the table has
for them, exactly if the declared names are. -/
theorem coversKey_stored {names names' : List String} (hnames : names ⊆ t.columnNames)
    (hsame : SameWords names names') :
    coversKey t' (names'.map (storedName t'.columns)) = coversKey t names := by
  rw [← h.columns, map_storedName_eq h.distinct hnames hsame,
    h.coversKey_eq (known_of_subset hnames)]

/-- A foreign key starts from the primary key, under the names that the table has for its columns,
exactly if it does so with the declared names. -/
theorem startsFromKey_resolvedIn_iff {k k' : ForeignKey} (hk : k.fromColumns ⊆ t.columnNames)
    (hsame : SameWords k.fromColumns k'.fromColumns) :
    StartsFromKey t' (resolvedIn t' k') ↔ coversKey t k.fromColumns = true := by
  rw [StartsFromKey, ForeignKey.sources, ← coversKey_iff]
  exact Bool.eq_iff_iff.1 (h.coversKey_stored hk hsame)

variable (hdeclared : t.sourceNames ⊆ t.columnNames)
include hdeclared

/-- The same columns are sources exactly if some foreign key names each of them as declared. -/
theorem sameSources_iff :
    SameSources t t' ↔
      ∀ name ∈ t'.sourceNames, storedName t'.columns name ∈ t'.sourceNames := by
  have hstored := map_storedName_eq h.distinct hdeclared h.sameWords_sourceNames
  have hnames : (∀ name ∈ t'.sourceNames, storedName t'.columns name ∈ t'.sourceNames) ↔
      t.sourceNames ⊆ t'.sourceNames := by
    rw [← hstored, ← h.columns]
    exact List.forall_mem_map.symm
  rw [hnames]
  constructor
  · intro hsources name hname
    obtain ⟨c, hc, rfl⟩ := List.mem_map.1 (hdeclared hname)
    rwa [← isForeignKeyColumn_iff, ← hsources c hc, isForeignKeyColumn_iff]
  · intro hsubset c hc
    rw [Bool.eq_iff_iff, isForeignKeyColumn_iff, isForeignKeyColumn_iff]
    refine ⟨fun hname => hsubset hname, fun hname => ?_⟩
    -- A column that is named as declared stands for itself.
    have hself := storedName_eq h.distinct (List.mem_map_of_mem hc) (eqIgnoreCase_refl c.name)
    rw [← hstored, ← hself]
    exact List.mem_map_of_mem hname

/-- A table in another letter case resolves a many-to-many relation exactly if the table does, and
the letter case of the sources is that of the columns. -/
theorem resolvesManyToMany_respelled_iff :
    resolvesManyToMany t' = true ↔
      resolvesManyToMany t = true ∧ t'.sourceNames ⊆ t.columnNames := by
  have hcovers := h.coversKey_respelled_iff hdeclared h.sameWords_sourceNames
  rw [Table.sourceNames, Table.sourceNames] at hcovers
  rw [resolvesManyToMany, resolvesManyToMany, ← h.foreignKeys.length_eq, Bool.and_eq_true,
    Bool.and_eq_true, hcovers, and_assoc]
  rfl

/-- A table in another letter case joins two tables, under its names for the columns, exactly if
the table does. -/
theorem joinsByKey_resolved_iff :
    JoinsByKey (resolved t') ↔ resolvesManyToMany t = true := by
  rw [← resolvesManyToMany_iff, resolvesManyToMany_resolved, ← h.foreignKeys.length_eq,
    h.coversKey_stored hdeclared h.sameWords_sourceNames]
  rfl

/-- The foreign keys get the same cardinalities exactly if those that start from the primary key
name their columns as declared. -/
theorem map_cardinalityOf_iff :
    t.foreignKeys.map (cardinalityOf t) = t'.foreignKeys.map (cardinalityOf t') ↔
      ∀ k ∈ t'.foreignKeys, StartsFromKey t' (resolvedIn t' k) → k.fromColumns ⊆ t.columnNames := by
  have hpairs : List.Forall₂
      (fun k k' => k.fromColumns ⊆ t.columnNames ∧ SameWords k.fromColumns k'.fromColumns)
      t.foreignKeys t'.foreignKeys := by
    exact (List.forall₂_and_left _ _).2 ⟨sourceNames_subset_iff.1 hdeclared, h.foreignKeys⟩
  rw [← List.forall₂_eq_eq_eq, List.forall₂_map_left_iff, List.forall₂_map_right_iff]
  refine forall₂_iff_forall_mem hpairs fun k k' ⟨hk, hsame⟩ => ?_
  -- There are only two cardinalities, and the primary key decides between them.
  have hcovers : cardinalityOf t k = cardinalityOf t' k' ↔
      (coversKey t k.fromColumns = true ↔ coversKey t' k'.fromColumns = true) := by
    rw [cardinalityOf, cardinalityOf]
    cases coversKey t k.fromColumns <;> cases coversKey t' k'.fromColumns <;> simp
  rw [hcovers, h.coversKey_respelled_iff hk hsame, h.startsFromKey_resolvedIn_iff hk hsame]
  constructor
  · intro heq hkey
    exact (heq.1 hkey).2
  · intro hnames
    exact ⟨fun hkey => ⟨hkey, hnames hkey⟩, And.left⟩

section Junction
variable {config : Config} {s s' : Schema}
  (himplied : (impliedKeys config s t).map (·.fromColumns) =
    (impliedKeys config s' t').map (·.fromColumns))
include himplied

/-- A table in another letter case becomes a junction exactly if the table does, and the letter
case of the sources is that of the columns. -/
theorem becomesJunction_respelled_iff :
    becomesJunction config s' t' = true ↔
      becomesJunction config s t = true ∧ t'.sourceNames ⊆ t.columnNames := by
  have hwith := (h.withImpliedKeys himplied).resolvesManyToMany_respelled_iff
    (sourceNames_withImpliedKeys_subset hdeclared config s)
  have hsubset : (Relation.withImpliedKeys config s' t').sourceNames ⊆ t.columnNames ↔
      t'.sourceNames ⊆ t.columnNames := by
    rw [sourceNames_withImpliedKeys, ← himplied, List.append_subset,
      and_iff_left (flatten_impliedKeys_subset config s t)]
  rw [becomesJunction, becomesJunction, Bool.and_eq_true, Bool.and_eq_true, hwith, and_assoc,
    ← hsubset]
  rfl

/-- The table becomes a junction exactly if one in another letter case joins two tables, under its
names for the columns. -/
theorem becomesJunction_iff_joinsByKey :
    becomesJunction config s t = true ↔
      config.junctions = true ∧ JoinsByKey (resolved (Relation.withImpliedKeys config s' t')) := by
  rw [becomesJunction, Bool.and_eq_true, (h.withImpliedKeys himplied).joinsByKey_resolved_iff
    (sourceNames_withImpliedKeys_subset hdeclared config s)]

end Junction

/-- **Which letter cases of foreign keys make no difference.** A table that names the columns of its
foreign keys as declared gives the same answers in another letter case, before and after a run,
exactly if the foreign keys still do so as far as `NamesSources` asks. -/
theorem sameRelations_iff_namesSources {s s' : Schema} (hlengths : keyLengths s = keyLengths s')
    (config : Config) :
    SameSources t t' ∧ SameRelations (inferTable config s t) (inferTable config s' t') ↔
      NamesSources config s' t' := by
  have hcolumn : ∀ c ∈ t.columns, coversKey t [c.name] = coversKey t' [c.name] := fun c hc =>
    h.coversKey_eq (known_of_subset (singleton_subset_columnNames hc))
  have hnames : t'.columnNames = t.columnNames := by
    rw [Table.columnNames, Table.columnNames, h.columns]
  constructor
  · -- A junction that stays one names all sources as declared, so the keys that start from the
    -- primary key are left to be looked at in other tables.
    rintro ⟨hsources, hrelations⟩
    have himplied := map_fromColumns_impliedKeys_congr hlengths h.columns hsources hcolumn config
    obtain ⟨hjunction, hkeys⟩ :=
      (sameRelations_inferTable_iff hlengths h.columns h.kind hsources hcolumn config).1 hrelations
    have hjoining : becomesJunction config s t = true → t'.sourceNames ⊆ t'.columnNames :=
      fun hjoins => by
        rw [hnames]
        exact ((h.becomesJunction_respelled_iff hdeclared himplied).1 (hjunction ▸ hjoins)).2
    refine ⟨(h.sameSources_iff hdeclared).1 hsources, fun k hk hstarts => ?_,
      fun hon hjoins => hjoining ?_⟩
    · cases hjoins : becomesJunction config s t with
      | true => exact sourceNames_subset_iff.1 (hjoining hjoins) k hk
      | false =>
          rw [hnames]
          exact (h.map_cardinalityOf_iff hdeclared).1 (hkeys hjoins) k hk hstarts
    · exact (h.becomesJunction_iff_joinsByKey hdeclared himplied).2 ⟨hon, hjoins⟩
  · -- The sources come first, as the keys that columns imply depend on them.
    rintro ⟨hsources, hcovering, hjoining⟩
    have hsources := (h.sameSources_iff hdeclared).2 hsources
    have himplied := map_fromColumns_impliedKeys_congr hlengths h.columns hsources hcolumn config
    rw [hnames] at hcovering hjoining
    refine ⟨hsources,
      (sameRelations_inferTable_iff hlengths h.columns h.kind hsources hcolumn config).2
        ⟨?_, fun _ => (h.map_cardinalityOf_iff hdeclared).2 hcovering⟩⟩
    rw [Bool.eq_iff_iff, h.becomesJunction_respelled_iff hdeclared himplied]
    refine ⟨fun hjoins => ⟨hjoins, ?_⟩, And.left⟩
    obtain ⟨hon, hjoins⟩ := (h.becomesJunction_iff_joinsByKey hdeclared himplied).1 hjoins
    exact hjoining hon hjoins

end Alike

/-- Known names are those of the primary key in any letter case of the key. -/
theorem Respelled.coversKey_eq {t t' : Table} (h : Respelled t t') :
    ∀ names ⊆ t.columnNames ++ t.sourceNames, coversKey t names = coversKey t' names := by
  intro names hnames
  refine h.alike.coversKey_eq fun name hname => ?_
  rcases List.mem_append.1 (hnames hname) with hname | hname
  · exact ⟨name, hname, eqIgnoreCase_refl name⟩
  · obtain ⟨k, hk, hname⟩ := List.mem_flatMap.1 hname
    exact h.alike.known k hk name hname

/-! ### A run -/

/-- Primary keys list as many columns in any letter case. -/
theorem keyLengths_eq_of_respelled {s s' : Schema}
    (h : List.Forall₂ (fun t t' => t = t' ∨ Respelled t t') s.tables s'.tables) :
    keyLengths s = keyLengths s' := by
  rw [keyLengths, keyLengths, ← List.forall₂_eq_eq_eq, List.forall₂_map_left_iff,
    List.forall₂_map_right_iff]
  refine h.imp ?_
  rintro t t' (rfl | h)
  · rfl
  · rw [h.alike.name, h.alike.keyLength]

/-- **The letter case of names in key clauses.** That of the primary keys makes no difference, and
that of foreign keys none either exactly if it leaves the columns named as `NamesSources` asks. -/
theorem infer_respelled {s s' : Schema}
    (h : List.Forall₂ (fun t t' => t = t' ∨ Respelled t t') s.tables s'.tables) (config : Config)
    {i : Nat} {t t' u u' : Table} (ht : s.tables[i]? = some t) (ht' : s'.tables[i]? = some t')
    (hu : (infer config s).1.tables[i]? = some u)
    (hu' : (infer config s').1.tables[i]? = some u') :
    (t.foreignKeys = t'.foreignKeys → SameSources t t' ∧ SameRelations u u') ∧
      (Respelled t t' → (∀ k ∈ t.foreignKeys, k.fromColumns ⊆ t.columnNames) →
        (SameSources t t' ∧ SameRelations u u' ↔ NamesSources config s' t')) := by
  have hlengths := keyLengths_eq_of_respelled h
  obtain rfl : inferTable config s t = u := by
    rw [infer, inferSchema, List.getElem?_map, ht] at hu
    exact Option.some.inj hu
  obtain rfl : inferTable config s' t' = u' := by
    rw [infer, inferSchema, List.getElem?_map, ht'] at hu'
    exact Option.some.inj hu'
  constructor
  · intro hkeys
    refine ⟨fun c _ => by rw [Table.isForeignKeyColumn, Table.isForeignKeyColumn, hkeys], ?_⟩
    obtain ⟨hi, rfl⟩ := List.getElem?_eq_some_iff.1 ht
    obtain ⟨hi', rfl⟩ := List.getElem?_eq_some_iff.1 ht'
    rcases h.get hi hi' with heq | h
    · -- Such a table may hold names of foreign keys that are no columns at all.
      rw [List.get_eq_getElem, List.get_eq_getElem] at heq
      rw [← heq]
      exact sameRelations_of_foreignKeys_eq hlengths rfl rfl rfl (fun _ _ => rfl) config
    · exact sameRelations_of_foreignKeys_eq hlengths h.alike.columns h.alike.kind hkeys
        h.coversKey_eq config
  · intro h hdeclared
    exact h.alike.sameRelations_iff_namesSources (sourceNames_subset_iff.2 hdeclared) hlengths
      config

/-- A table of two columns, with a foreign key from each of the sources. -/
def exampleProfiles (key : String) (sources : List String) : Table :=
  { name := "profiles"
    columns := [.ofType "id" "INT", .ofType "user_id" "INT"]
    foreignKeys := sources.map fun source =>
      { fromTable := "profiles", fromColumns := [source], toTable := "users", toColumns := ["id"] }
    : Table }.markPrimaryKey { columns := [key] }

/-- A schema of that table and of the one that it refers to. -/
def exampleSchema (key : String) (sources : List String) : Schema where
  dbType := "mysql"
  tables :=
    [{ name := "users", columns := [.ofType "id" "INT"] }, exampleProfiles key sources]

/-- The table in two spellings: the primary key and the sources may differ in letter case as long as
the sources name columns of the table. -/
theorem respelled_exampleProfiles {key key' : String} {sources sources' : List String}
    (hknown : Known ["id", "user_id"] sources) (hkey : SameWords [key] [key'])
    (hsources : SameWords sources sources') :
    Respelled (exampleProfiles key sources) (exampleProfiles key' sources') := by
  have hdistinct : DistinctNames ["id", "user_id"] := by decide
  have hkey : SameWords ({ columns := [key] } : PrimaryKey).columns [key'] := hkey
  refine .intro hdistinct ?_ hkey ?_
  · refine List.forall_mem_map.2 fun source hsource name hname => ?_
    rw [List.mem_singleton.1 hname]
    exact hknown source hsource
  · rw [List.forall₂_map_left_iff, List.forall₂_map_right_iff]
    exact hsources.imp fun source source' h => ⟨.cons h .nil, .cons (by decide) .nil, rfl⟩

/-- Only the second table is respelled. The first one is the same on both sides. -/
theorem respelled_exampleSchema {key key' : String} {sources sources' : List String}
    (h : Respelled (exampleProfiles key sources) (exampleProfiles key' sources')) :
    List.Forall₂ (fun t t' => t = t' ∨ Respelled t t') (exampleSchema key sources).tables
      (exampleSchema key' sources').tables :=
  .cons (.inl rfl) (.cons (.inr h) .nil)

/-- The primary key may be in any letter case, beside a foreign key in another one. And of two
foreign keys from a column that is not in the primary key, one needs to name it as declared. -/
theorem infer_respelled_exampleProfiles :
    (Respelled (exampleProfiles "user_id" ["User_Id"]) (exampleProfiles "USER_ID" ["User_Id"]) ∧
      SameRelations
        (inferTable {} (exampleSchema "user_id" ["User_Id"])
          (exampleProfiles "user_id" ["User_Id"]))
        (inferTable {} (exampleSchema "USER_ID" ["User_Id"])
          (exampleProfiles "USER_ID" ["User_Id"]))) ∧
    (Respelled (exampleProfiles "id" ["user_id", "user_id"])
        (exampleProfiles "ID" ["user_id", "User_Id"]) ∧
      NamesSources {} (exampleSchema "ID" ["user_id", "User_Id"])
        (exampleProfiles "ID" ["user_id", "User_Id"])) := by
  have hkey : Respelled (exampleProfiles "user_id" ["User_Id"])
      (exampleProfiles "USER_ID" ["User_Id"]) :=
    respelled_exampleProfiles (by decide) (by decide) (by decide)
  have hsources : Respelled (exampleProfiles "id" ["user_id", "user_id"])
      (exampleProfiles "ID" ["user_id", "User_Id"]) :=
    respelled_exampleProfiles (by decide) (by decide) (by decide)
  -- In the first pair the key is spelled differently, and in the second one the columns of the
  -- foreign keys as well.
  refine ⟨⟨hkey, ?_⟩, hsources, ?_⟩
  · exact ((infer_respelled (respelled_exampleSchema hkey) {} (i := 1) rfl rfl rfl rfl).1 rfl).2
  · exact ((infer_respelled (respelled_exampleSchema hsources) {} (i := 1) rfl rfl rfl rfl).2
      hsources (by decide)).1 ⟨by decide, by decide, by decide, by decide⟩

/-- A foreign key from the primary key is lost in another letter case. The primary key's own column
is compared in the same letter case only. -/
theorem not_sameRelations_exampleProfiles :
    Respelled (exampleProfiles "user_id" ["user_id"]) (exampleProfiles "user_id" ["USER_ID"]) ∧
      ¬ SameSources (exampleProfiles "user_id" ["user_id"])
        (exampleProfiles "user_id" ["USER_ID"]) ∧
      (infer {} (exampleSchema "user_id" ["user_id"])).1.foreignKeys.map (·.cardinality) =
        [some .oneToOne] ∧
      (infer {} (exampleSchema "user_id" ["USER_ID"])).1.foreignKeys.map (·.cardinality) =
        [some .oneToMany] := by
  refine ⟨respelled_exampleProfiles (by decide) (by decide) (by decide), ?_⟩
  decide

end EntityDiagram.Relation
