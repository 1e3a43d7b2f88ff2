import EntityDiagram.Proofs.Relation.Conservation
import Mathlib.Data.List.Perm.Basic
import Mathlib.Logic.Equiv.Basic

/-!
# `EntityDiagram.Proofs.Relation.ListingOrder`: the order in which a schema is listed

Tables, foreign keys and the columns of keys stand in lists, and what inference finds is not to
depend on their order. `Reordered` says that one list is another one in the order of a permutation
of places, and `Rearranged` that a schema is listed in another order throughout: its tables, the
foreign keys of each table, the columns of each primary key, and the sources of each foreign key,
which may also be repeated.

Inference reads lists by place in three ways, and each is settled here. A table is looked up from
the first one on, which finds the same table if the names are distinct (`table?_eq_some_iff_mem`).
The columns of keys are compared as sets (`RearrangedTable.coversKey_eq`). The counts go through all
tables and all foreign keys (`Reordered.map_perm`).

* `RearrangedTable.impliedKeys_eq`: the same foreign keys are implied, in the same order.
* `RearrangedTable.after_run`: a run leaves tables rearranged as they were, by the same
  permutation, since the foreign keys that it appends are not moved.
* `infer_rearranged`: the same for schemas of distinct table names, with equal summaries.
-/

set_option autoImplicit false

namespace EntityDiagram.Relation

/-! ### Lists in another order -/

section Reordered
variable {α β γ : Type}

/-- Whether `bs` is `as` in another order, its members changed as `r` allows: what stands in place
`i` of `as` stands in place `σ i` of `bs`. Places behind the lists are not moved. -/
structure Reordered (r : ℕ → α → β → Prop) (σ : Equiv.Perm ℕ) (as : List α) (bs : List β) :
    Prop where
  length_eq : as.length = bs.length
  moved : ∀ i a, as[i]? = some a → ∃ b, bs[σ i]? = some b ∧ r i a b
  fixed : ∀ i, as.length ≤ i → σ i = i

namespace Reordered

variable {r : ℕ → α → β → Prop} {σ : Equiv.Perm ℕ} {as : List α} {bs : List β}
  (h : Reordered r σ as bs)
include h

/-- A place in the list is moved to a place in the list. -/
theorem lt_iff (i : ℕ) : σ i < as.length ↔ i < as.length := by
  constructor
  · intro hi
    by_contra hout
    rw [h.fixed i (by omega)] at hi
    omega
  · intro hi
    by_contra hout
    -- The place where `i` would go to stays where it is, so `i` would be that place.
    have hself : σ (σ i) = σ i := h.fixed _ (by omega)
    have hfixed : σ i = i := σ.injective hself
    omega

/-- What stands in a place of the second list comes from a place of the first one. -/
theorem exists_moved {j : ℕ} {b : β} (hb : bs[j]? = some b) :
    ∃ i a, σ i = j ∧ as[i]? = some a ∧ r i a b := by
  have hj : σ (σ.symm j) = j := σ.apply_symm_apply j
  have hlength := h.length_eq
  obtain ⟨hlt, -⟩ := List.getElem?_eq_some_iff.1 hb
  have hi : σ.symm j < as.length := (h.lt_iff _).1 (by omega)
  obtain ⟨b', hb', hr⟩ := h.moved _ _ (List.getElem?_eq_getElem hi)
  rw [hj] at hb'
  cases hb.symm.trans hb'
  exact ⟨σ.symm j, as[σ.symm j], hj, List.getElem?_eq_getElem hi, hr⟩

/-- A member of the first list has its counterpart in the second one. -/
theorem exists_of_mem_left {a : α} (ha : a ∈ as) : ∃ i, ∃ b ∈ bs, as[i]? = some a ∧ r i a b := by
  obtain ⟨i, hi⟩ := List.getElem?_of_mem ha
  obtain ⟨b, hb, hr⟩ := h.moved i a hi
  exact ⟨i, b, List.mem_of_getElem? hb, hi, hr⟩

/-- A member of the second list has its counterpart in the first one. -/
theorem exists_of_mem_right {b : β} (hb : b ∈ bs) : ∃ i, ∃ a ∈ as, as[i]? = some a ∧ r i a b := by
  obtain ⟨j, hj⟩ := List.getElem?_of_mem hb
  obtain ⟨i, a, -, hi, hr⟩ := h.exists_moved hj
  exact ⟨i, a, List.mem_of_getElem? hi, hi, hr⟩

/-- What is made of each member stays in the order. -/
theorem map {γ δ : Type} {q : ℕ → γ → δ → Prop} {f : α → γ} {g : β → δ}
    (hfg : ∀ i a b, r i a b → q i (f a) (g b)) : Reordered q σ (as.map f) (bs.map g) where
  length_eq := by rw [List.length_map, List.length_map, h.length_eq]
  moved := by
    intro i c hc
    rw [List.getElem?_map] at hc
    obtain ⟨a, ha, rfl⟩ := Option.map_eq_some_iff.1 hc
    obtain ⟨b, hb, hr⟩ := h.moved i a ha
    exact ⟨g b, by rw [List.getElem?_map, hb, Option.map_some], hfg i a b hr⟩
  fixed := by
    rw [List.length_map]
    exact h.fixed

/-- Further members behind both lists stay in their places. -/
theorem append {cs : List α} {ds : List β} (hrest : List.Forall₂ (fun c d => ∀ i, r i c d) cs ds) :
    Reordered r σ (as ++ cs) (bs ++ ds) where
  length_eq := by rw [List.length_append, List.length_append, h.length_eq, hrest.length_eq]
  moved := by
    intro i a ha
    have hlength := h.length_eq
    -- A position lies in the part that was reordered, or behind it, where nothing was moved.
    cases Nat.lt_or_ge i as.length with
    | inl hi =>
        rw [List.getElem?_append_left hi] at ha
        obtain ⟨b, hb, hr⟩ := h.moved i a ha
        have hlt := (h.lt_iff i).2 hi
        exact ⟨b, by rw [List.getElem?_append_left (by omega), hb], hr⟩
    | inr hi =>
        rw [List.getElem?_append_right hi] at ha
        obtain ⟨hlt, rfl⟩ := List.getElem?_eq_some_iff.1 ha
        rw [h.fixed i hi, List.getElem?_append_right (by omega), ← hlength]
        have hd : i - as.length < ds.length := hrest.length_eq ▸ hlt
        exact ⟨_, List.getElem?_eq_getElem hd, hrest.get hlt hd i⟩
  fixed := by
    intro i hi
    rw [List.length_append] at hi
    exact h.fixed i (by omega)

/-- What is read of each member is the same in another order. -/
theorem map_perm {f : α → γ} {g : β → γ} (hfg : ∀ i a b, r i a b → f a = g b) :
    (as.map f).Perm (bs.map g) := by
  -- Both lists are read off by place, and the permutation only takes the places in another order.
  have hplaces {δ : Type} (ds : List δ) : (List.range ds.length).map (ds[·]?) = ds.map some := by
    refine List.ext_getElem (by simp) fun i _ _ => ?_
    simp
  have hrange : ((List.range as.length).map σ).Perm (List.range as.length) := by
    refine (List.perm_ext_iff_of_nodup (List.nodup_range.map σ.injective) List.nodup_range).2 ?_
    intro j
    rw [List.mem_map, List.mem_range]
    constructor
    · rintro ⟨i, hi, rfl⟩
      exact (h.lt_iff i).2 (List.mem_range.1 hi)
    · intro hj
      refine ⟨σ.symm j, List.mem_range.2 ((h.lt_iff _).1 ?_), σ.apply_symm_apply j⟩
      rwa [σ.apply_symm_apply]
  have hmoved : (List.range as.length).map (fun i => (as.map f)[i]?) =
      ((List.range as.length).map σ).map (fun j => (bs.map g)[j]?) := by
    rw [List.map_map]
    refine List.map_congr_left fun i hi => ?_
    have hi := List.mem_range.1 hi
    obtain ⟨b, hb, hr⟩ := h.moved i as[i] (List.getElem?_eq_getElem hi)
    simp [hb, List.getElem?_eq_getElem hi, hfg i _ b hr]
  refine (List.map_perm_map_iff (Option.some_injective γ)).1 ?_
  calc (as.map f).map some
      = (List.range as.length).map (fun i => (as.map f)[i]?) := by
        rw [← hplaces, List.length_map]
    _ = ((List.range as.length).map σ).map (fun j => (bs.map g)[j]?) := hmoved
    List.Perm _ ((List.range as.length).map (fun j => (bs.map g)[j]?)) := hrange.map _
    _ = (bs.map g).map some := by rw [← hplaces, List.length_map, h.length_eq]

end Reordered

end Reordered

/-! ### Rearranged schemas -/

/-- Whether the second foreign key is the first one with its sources in another order, repeated any
number of times. -/
structure RearrangedKey (k k' : ForeignKey) : Prop where
  sources : k.sources = k'.sources
  rest : { k with fromColumns := k'.fromColumns } = k'

/-- Whether the second table is the first one with its foreign keys in the order of `τ`, and with
the columns of its keys in any order. -/
structure RearrangedTable (τ : Equiv.Perm ℕ) (t t' : Table) : Prop where
  foreignKeys : Reordered (fun _ => RearrangedKey) τ t.foreignKeys t'.foreignKeys
  primaryKey : Option.Rel (fun key key' => key.name = key'.name ∧ key.columns.Perm key'.columns)
    t.primaryKey t'.primaryKey
  rest : { t with primaryKey := t'.primaryKey, foreignKeys := t'.foreignKeys } = t'

/-- Whether the second schema is the first one with its tables in the order of `σ`, and the table in
place `i` rearranged with its foreign keys in the order of `τ i`. -/
structure Rearranged (σ : Equiv.Perm ℕ) (τ : ℕ → Equiv.Perm ℕ) (s s' : Schema) : Prop where
  tables : Reordered (fun i => RearrangedTable (τ i)) σ s.tables s'.tables
  rest : { s with tables := s'.tables } = s'

/-! ### What a run reads of a rearranged table -/

namespace RearrangedTable

variable {τ : Equiv.Perm ℕ} {t t' : Table} (h : RearrangedTable τ t t')
include h

/-- A rearranged table has the same name, by which it is found and referred to. -/
theorem name_eq : t.name = t'.name := by rw [← h.rest]

/-- Columns are not rearranged: the order of declaration means something, unlike that of keys. -/
theorem columns_eq : t.columns = t'.columns := by rw [← h.rest]

/-- A kind that an earlier run has given to the table stays its kind. -/
theorem kind_eq : t.kind = t'.kind := by rw [← h.rest]

/-- The primary key has the same columns in another order. -/
theorem keyColumns_perm : t.keyColumns.Perm t'.keyColumns := by
  have hrel := h.primaryKey
  rw [Table.keyColumns, Table.keyColumns]
  generalize t.primaryKey = key, t'.primaryKey = key' at hrel ⊢
  cases hrel with
  | some hkey => exact hkey.2
  | none => exact List.Perm.refl _

/-- As a set, the primary key has the same columns. -/
theorem keySet_eq : t.keySet = t'.keySet := List.toFinset_eq_of_perm _ _ h.keyColumns_perm

/-- The same columns are sources of foreign keys. -/
theorem isForeignKeyColumn_eq (name : String) :
    t.isForeignKeyColumn name = t'.isForeignKeyColumn name := by
  have hsource (u : Table) : u.isForeignKeyColumn name = true ↔
      ∃ k ∈ u.foreignKeys, name ∈ k.sources := by
    simp [Table.isForeignKeyColumn, ForeignKey.sources]
  rw [Bool.eq_iff_iff, hsource, hsource]
  constructor
  · rintro ⟨k, hk, hname⟩
    obtain ⟨_, k', hk', -, hsame⟩ := h.foreignKeys.exists_of_mem_left hk
    exact ⟨k', hk', hsame.sources ▸ hname⟩
  · rintro ⟨k', hk', hname⟩
    obtain ⟨_, k, hk, -, hsame⟩ := h.foreignKeys.exists_of_mem_right hk'
    exact ⟨k, hk, hsame.sources ▸ hname⟩

/-- The columns of the primary key are compared as a set. -/
theorem coversKey_eq {names names' : List String} (hnames : names.toFinset = names'.toFinset) :
    coversKey t names = coversKey t' names' := by
  rw [Bool.eq_iff_iff, coversKey_iff, coversKey_iff, h.keySet_eq, hnames]

/-- The cardinality of a foreign key depends on the set of its sources, and on that of the primary
key alone. -/
theorem cardinalityOf_eq {k k' : ForeignKey} (hk : RearrangedKey k k') :
    cardinalityOf t k = cardinalityOf t' k' := by
  rw [cardinalityOf, cardinalityOf, h.coversKey_eq hk.sources]

/-- A table is a junction by the number of its foreign keys and the set of their sources. -/
theorem resolvesManyToMany_eq : resolvesManyToMany t = resolvesManyToMany t' := by
  have hsources : (t.foreignKeys.flatMap (·.fromColumns)).toFinset =
      (t'.foreignKeys.flatMap (·.fromColumns)).toFinset := by
    ext name
    rw [List.mem_toFinset, List.mem_toFinset]
    show name ∈ t.sourceNames ↔ name ∈ t'.sourceNames
    rw [← isForeignKeyColumn_iff, ← isForeignKeyColumn_iff, h.isForeignKeyColumn_eq]
  rw [resolvesManyToMany, resolvesManyToMany, h.foreignKeys.length_eq, h.coversKey_eq hsources]

end RearrangedTable

/-! ### What a run looks up in a rearranged schema -/

/-- Among distinct names a table is found wherever it stands. -/
theorem table?_eq_some_iff_mem {s : Schema} (hnames : s.tableNames.Nodup) {name : String}
    {t : Table} : s.table? name = some t ↔ t ∈ s.tables ∧ t.name = name := by
  constructor
  · intro hfind
    exact ⟨List.mem_of_find?_eq_some hfind, by simpa using List.find?_some hfind⟩
  · rintro ⟨ht, rfl⟩
    have hsome : (s.table? t.name).isSome = true := by
      rw [Schema.table?, List.find?_isSome]
      exact ⟨t, ht, by simp⟩
    obtain ⟨u, hu⟩ := Option.isSome_iff_exists.1 hsome
    have hname : u.name = t.name := by simpa using List.find?_some hu
    rw [hu, List.inj_on_of_nodup_map hnames (List.mem_of_find?_eq_some hu) ht hname]

/-- The key that a name refers to, among distinct names. The first table of the name is then the
only one. -/
theorem keyTarget?_eq_some_iff_mem {s : Schema} (hnames : s.tableNames.Nodup)
    {name table column : String} :
    keyTarget? s name = some (table, column) ↔
      ∃ u ∈ s.tables, u.name = name ∧ u.keyColumns = [column] ∧ u.name = table := by
  -- Without a primary key the list of its columns is empty, and so not a single one.
  have hsole (u : Table) : (∃ key, u.primaryKey = some key ∧ key.columns = [column]) ↔
      u.keyColumns = [column] := by
    rw [Table.keyColumns]
    cases u.primaryKey <;> simp
  rw [keyTarget?_eq_some_iff]
  constructor
  · rintro ⟨u, ⟨hfirst, hkey⟩, htable⟩
    obtain ⟨hmem, hname⟩ := (table?_eq_some_iff_mem hnames).1 (table?_eq_some_iff.2 hfirst)
    exact ⟨u, hmem, hname, (hsole u).1 hkey, htable⟩
  · rintro ⟨u, hmem, hname, hkey, htable⟩
    have hfind := (table?_eq_some_iff_mem hnames).2 ⟨hmem, hname⟩
    exact ⟨u, ⟨table?_eq_some_iff.1 hfind, (hsole u).2 hkey⟩, htable⟩

namespace Rearranged

variable {σ : Equiv.Perm ℕ} {τ : ℕ → Equiv.Perm ℕ} {s s' : Schema} (h : Rearranged σ τ s s')
include h

/-- The schemas have tables of the same names, in another order. -/
theorem tableNames_perm : s.tableNames.Perm s'.tableNames :=
  h.tables.map_perm fun _ _ _ ht => ht.name_eq

variable (hnames : s.tableNames.Nodup)
include hnames

/-- A name refers to the same table and column: a key of one column has only one order. -/
theorem keyTarget?_eq (name : String) : keyTarget? s name = keyTarget? s' name := by
  have hnames' : s'.tableNames.Nodup := h.tableNames_perm.nodup_iff.1 hnames
  refine Option.ext fun ⟨table, column⟩ => ?_
  rw [keyTarget?_eq_some_iff_mem hnames, keyTarget?_eq_some_iff_mem hnames']
  -- The target is found by its name in either schema, wherever it stands.
  constructor
  · rintro ⟨u, hu, hname, hkey, htable⟩
    obtain ⟨_, u', hu', -, hsame⟩ := h.tables.exists_of_mem_left hu
    have hkey' : u'.keyColumns = [column] :=
      List.perm_singleton.1 (hkey ▸ hsame.keyColumns_perm.symm)
    rw [hsame.name_eq] at hname htable
    exact ⟨u', hu', hname, hkey', htable⟩
  · rintro ⟨u', hu', hname, hkey, htable⟩
    obtain ⟨_, u, hu, -, hsame⟩ := h.tables.exists_of_mem_right hu'
    have hkey' : u.keyColumns = [column] := List.perm_singleton.1 (hkey ▸ hsame.keyColumns_perm)
    rw [← hsame.name_eq] at hname htable
    exact ⟨u, hu, hname, hkey', htable⟩

/-- A stem refers to the same table and column. -/
theorem target?_eq : target? s = target? s' := by
  funext stem
  rw [target?, target?, h.keyTarget?_eq hnames, h.keyTarget?_eq hnames]

end Rearranged

/-! ### What a run makes of a rearranged table -/

/-- The foreign keys of a table after a run, from those before it. The list is as long as before and
the implied keys together. -/
theorem foreignKeys_inferTable (config : Config) (s : Schema) (t : Table) :
    (inferTable config s t).foreignKeys =
      (t.foreignKeys ++ impliedKeys config s t).map fun k =>
        { k with
          cardinality := some
            (if becomesJunction config s t then .manyToMany else cardinalityOf t k) } := by
  by_cases h : becomesJunction config s t = true
  · obtain ⟨hon, hresolves⟩ := (becomesJunction_iff config s t).1 h
    rw [inferTable_of_resolves hon hresolves, h]
    show ((t.foreignKeys ++ impliedKeys config s t).map _).map _ = _
    rw [List.map_map]
    rfl
  · rw [inferTable_of_not_resolves (mt (becomesJunction_iff config s t).2 h)]
    simp only [h]
    rfl

namespace RearrangedTable

variable {τ : Equiv.Perm ℕ} {t t' : Table} (h : RearrangedTable τ t t') {s s' : Schema}
  (htarget : target? s = target? s') (config : Config)
include h htarget

/-- The same columns imply the same foreign keys. -/
theorem impliedKeys_eq : impliedKeys config s t = impliedKeys config s' t' := by
  have hkey : impliedKey? s config.suffix t = impliedKey? s' config.suffix t' := by
    funext c
    rw [impliedKey?, impliedKey?, htarget, h.isForeignKeyColumn_eq, h.name_eq,
      sameNames_singleton_eq, sameNames_singleton_eq, h.coversKey_eq rfl]
  rw [impliedKeys, impliedKeys, hkey, h.columns_eq]

/-- With the implied keys the table is still rearranged. -/
theorem withImpliedKeys :
    RearrangedTable τ (withImpliedKeys config s t) (withImpliedKeys config s' t') where
  foreignKeys := by
    refine h.foreignKeys.append ?_
    rw [h.impliedKeys_eq htarget config, List.forall₂_same]
    exact fun _ _ _ => ⟨rfl, rfl⟩
  primaryKey := h.primaryKey
  rest := by rw [← h.rest]; rfl

/-- Whether a table becomes a junction is told by its foreign keys together with those that are
implied, of which both tables get the same. -/
theorem becomesJunction_eq : becomesJunction config s t = becomesJunction config s' t' := by
  rw [becomesJunction, becomesJunction, (h.withImpliedKeys htarget config).resolvesManyToMany_eq]

/-- **A run keeps the arrangement of a table.** The foreign keys that it appends stay in place. -/
theorem after_run : RearrangedTable τ (inferTable config s t) (inferTable config s' t') where
  foreignKeys := by
    rw [foreignKeys_inferTable, foreignKeys_inferTable]
    refine (h.withImpliedKeys htarget config).foreignKeys.map fun _ k k' hk => ?_
    rw [h.becomesJunction_eq htarget config, h.cardinalityOf_eq hk]
    exact ⟨hk.sources, by rw [← hk.rest]⟩
  primaryKey := by
    rw [primaryKey_inferTable, primaryKey_inferTable]
    exact h.primaryKey
  rest := by
    have hkind : (inferTable config s t).kind = (inferTable config s' t').kind := by
      rw [kind_inferTable_eq, kind_inferTable_eq, h.becomesJunction_eq htarget config, h.kind_eq]
    -- A run changes the foreign keys and the kind, and nothing else.
    calc
      { inferTable config s t with
        primaryKey := (inferTable config s' t').primaryKey
        foreignKeys := (inferTable config s' t').foreignKeys }
      _ = { t with
            primaryKey := t'.primaryKey
            foreignKeys := (inferTable config s' t').foreignKeys
            kind := (inferTable config s t).kind } := by
        rw [inferTable_eq_with config s t, primaryKey_inferTable]
      _ = { t' with
            foreignKeys := (inferTable config s' t').foreignKeys
            kind := (inferTable config s' t').kind } := by
        rw [hkind, ← h.rest]
      _ = inferTable config s' t' := (inferTable_eq_with config s' t').symm

end RearrangedTable

/-! ### A whole run -/

namespace Rearranged

variable {σ : Equiv.Perm ℕ} {τ : ℕ → Equiv.Perm ℕ} {s s' : Schema} (h : Rearranged σ τ s s')
  (hnames : s.tableNames.Nodup) (config : Config)
include h hnames

/-- A run keeps the arrangement of a schema. -/
theorem after_run : Rearranged σ τ (inferSchema config s) (inferSchema config s') where
  tables := h.tables.map fun _ _ _ ht => ht.after_run (h.target?_eq hnames) config
  rest := by rw [← h.rest]; rfl

/-- A run counts the same foreign keys of each cardinality. -/
theorem countCardinality_eq (c : Cardinality) :
    countCardinality (inferSchema config s) c =
      countCardinality (inferSchema config s') c := by
  -- What is counted in a schema is the sum of what is counted in each table.
  have hsum (u : Schema) : countCardinality (inferSchema config u) c =
      (u.tables.map fun t =>
        (inferTable config u t).foreignKeys.countP (·.cardinality == some c)).sum := by
    show (infer config u).1.foreignKeys.countP _ = _
    rw [foreignKeys_infer, List.countP_flatMap]
    rfl
  rw [hsum, hsum]
  refine (h.tables.map_perm fun _ t t' ht => ?_).sum_nat
  have hkeys := (ht.after_run (h.target?_eq hnames) config).foreignKeys.map_perm
    (f := ForeignKey.cardinality) (g := ForeignKey.cardinality)
    fun _ k k' hk => by rw [← hk.rest]
  have hcount := hkeys.countP_eq (· == some c)
  rwa [List.countP_map, List.countP_map] at hcount

/-- A run counts the same tables and foreign keys. -/
theorem summary_eq : (infer config s).2 = (infer config s').2 := by
  have hjunctions : (inferSchema config s).tables.countP (·.isJunction) =
      (inferSchema config s').tables.countP (·.isJunction) := by
    have hkinds := (h.after_run hnames config).tables.map_perm (f := Table.kind) (g := Table.kind)
      fun _ _ _ ht => ht.kind_eq
    have hcount := hkinds.countP_eq (· == some .junction)
    rwa [List.countP_map, List.countP_map] at hcount
  have himplied : (s.tables.flatMap (impliedKeys config s)).length =
      (s'.tables.flatMap (impliedKeys config s')).length := by
    rw [List.length_flatMap, List.length_flatMap]
    refine (h.tables.map_perm fun _ t t' ht => ?_).sum_nat
    rw [ht.impliedKeys_eq (h.target?_eq hnames) config]
  show summarize _ _ = summarize _ _
  rw [summarize, summarize, himplied, hjunctions, h.countCardinality_eq hnames config,
    h.countCardinality_eq hnames config, h.countCardinality_eq hnames config]

end Rearranged

/-- **Inference does not depend on the order in which a schema is listed.** Of two schemas that are
the same but for the order of tables, of the foreign keys of each table, of the columns of primary
keys, and of the sources of foreign keys, a run makes two that are the same in this way, by the same
permutations: so each table has the same kind and each foreign key the same cardinality. To tables
that correspond the run appends the same foreign keys, and it counts the same. -/
theorem infer_rearranged (config : Config) {σ : Equiv.Perm ℕ} {τ : ℕ → Equiv.Perm ℕ}
    {s s' : Schema} (hnames : s.tableNames.Nodup) (h : Rearranged σ τ s s') :
    Rearranged σ τ (infer config s).1 (infer config s').1 ∧
      (∀ i t u u', s.tables[i]? = some t → (infer config s).1.tables[i]? = some u →
        (infer config s').1.tables[σ i]? = some u' →
          u.foreignKeys.drop t.foreignKeys.length = u'.foreignKeys.drop t.foreignKeys.length) ∧
      (infer config s).2 = (infer config s').2 := by
  refine ⟨h.after_run hnames config, ?_, h.summary_eq hnames config⟩
  intro i t u u' ht hu hu'
  obtain ⟨t', ht', hsame⟩ := h.tables.moved i t ht
  have htarget := h.target?_eq hnames
  have hlength := hsame.foreignKeys.length_eq
  -- The tables after the runs are what the runs make of `t` and `t'`.
  have hafter : u = inferTable config s t := by
    have hplace : (s.tables.map (inferTable config s))[i]? = some u := hu
    rw [List.getElem?_map, ht] at hplace
    exact (Option.some.inj hplace).symm
  have hafter' : u' = inferTable config s' t' := by
    have hplace : (s'.tables.map (inferTable config s'))[σ i]? = some u' := hu'
    rw [List.getElem?_map, ht'] at hplace
    exact (Option.some.inj hplace).symm
  rw [hafter, hafter', foreignKeys_inferTable, foreignKeys_inferTable, ← List.map_drop,
    ← List.map_drop, List.drop_left, hlength, List.drop_left, hsame.impliedKeys_eq htarget config,
    hsame.becomesJunction_eq htarget config]
  refine List.map_congr_left fun k _ => ?_
  rw [hsame.cardinalityOf_eq ⟨rfl, rfl⟩]

/-- Two members in reverse. -/
theorem reordered_pair {α β : Type} {r : ℕ → α → β → Prop} {a₀ a₁ : α} {b₀ b₁ : β}
    (h₀ : r 0 a₀ b₁) (h₁ : r 1 a₁ b₀) : Reordered r (Equiv.swap 0 1) [a₀, a₁] [b₀, b₁] where
  length_eq := rfl
  moved := by
    intro i a ha
    match i, ha with
    | 0, ha => exact ⟨b₁, rfl, Option.some.inj ha ▸ h₀⟩
    | 1, ha => exact ⟨b₀, rfl, Option.some.inj ha ▸ h₁⟩
  fixed := by
    intro i hi
    have hlength : 2 ≤ i := hi
    exact Equiv.swap_apply_of_ne_of_ne (by omega) (by omega)

/-- A table whose column `user_id` implies a foreign key to the table itself. -/
def exampleUsersTable : Table where
  name := "users"
  columns := [.ofType "id" "INT", .ofType "user_id" "INT"]
  primaryKey := some { columns := ["id"] }

/-- A junction of users and teams, with the columns of its primary key and its foreign keys. -/
def exampleMembers (key : List String) (foreignKeys : List ForeignKey) : Table where
  name := "members"
  columns := [.ofType "user_id" "INT", .ofType "team_id" "INT"]
  primaryKey := some { columns := key }
  foreignKeys := foreignKeys

/-- A foreign key of the junction. -/
def exampleKeyTo (table : String) (fromColumns : List String) : ForeignKey where
  fromTable := "members"
  fromColumns := fromColumns
  toTable := table
  toColumns := ["id"]

/-- Two tables in one order. -/
def exampleTeams : Schema where
  dbType := "mysql"
  tables :=
    [exampleUsersTable,
     exampleMembers ["user_id", "team_id"]
       [exampleKeyTo "users" ["user_id"], exampleKeyTo "teams" ["team_id", "user_id"]]]

/-- The same in another order throughout, with one source repeated. -/
def exampleTeamsRearranged : Schema where
  dbType := "mysql"
  tables :=
    [exampleMembers ["team_id", "user_id"]
       [exampleKeyTo "teams" ["user_id", "team_id", "user_id"], exampleKeyTo "users" ["user_id"]],
     exampleUsersTable]

/-- The order of the foreign keys of these tables, by the place of the table. Those of the second
table change places. -/
def exampleKeyOrder : ℕ → Equiv.Perm ℕ
  | 1 => Equiv.swap 0 1
  | _ => Equiv.refl ℕ

/-- The two tables change places. In the second one the foreign keys do so too, and the columns of
the primary key are listed the other way round. -/
theorem rearranged_exampleTeams :
    Rearranged (Equiv.swap 0 1) exampleKeyOrder exampleTeams exampleTeamsRearranged where
  tables := by
    refine reordered_pair ?_ ?_
    · exact
        { foreignKeys := ⟨rfl, nofun, fun _ _ => rfl⟩
          primaryKey := .some ⟨rfl, .refl _⟩
          rest := rfl }
    · exact
        { foreignKeys := reordered_pair ⟨by decide, rfl⟩ ⟨by decide, rfl⟩
          primaryKey := .some ⟨rfl, .swap ..⟩
          rest := rfl }
  rest := rfl

/-- The two schemas give the same summary: the junction, and the implied foreign key. The tables,
the foreign keys and the columns of the keys stand in another order. -/
theorem infer_rearranged_exampleTeams :
    exampleTeams.tableNames.Nodup ∧
      Rearranged (Equiv.swap 0 1) exampleKeyOrder exampleTeams exampleTeamsRearranged ∧
      Rearranged (Equiv.swap 0 1) exampleKeyOrder
        (infer { namingConvention := true } exampleTeams).1
        (infer { namingConvention := true } exampleTeamsRearranged).1 ∧
      (infer { namingConvention := true } exampleTeams).2 =
        (infer { namingConvention := true } exampleTeamsRearranged).2 ∧
      (infer { namingConvention := true } exampleTeams).2 =
        { oneToOne := 0, oneToMany := 1, manyToMany := 2
          junctionTables := 1, impliedKeys := 1 } := by
  have hnames : exampleTeams.tableNames.Nodup := by decide
  obtain ⟨hafter, -, hsummary⟩ :=
    infer_rearranged { namingConvention := true } hnames rearranged_exampleTeams
  exact ⟨hnames, rearranged_exampleTeams, hafter, hsummary, by decide⟩

end EntityDiagram.Relation
