import EntityDiagram.Proofs.Relation.Classification

/-!
# `EntityDiagram.Proofs.Relation.Session`: what inference remembers of earlier runs

A session edits a schema and runs inference on it, in any order. A run computes every foreign key
and every cardinality anew, but it never takes the kind `junction` back. The theorems:

* `inferTable_unclassified`: what a run makes of a table does not depend on what earlier runs have
  left in it, except for the kind of a table that is no junction any more.
* `infer_eq_infer_unclassified_iff`: the condition under which a run on a schema gives the same as
  a run on that schema before any inference.
* `isJunction_session_iff`: after any session the tables of kind `junction` are those that were so
  from their beginning, and those that any run has found to be junctions since.
* `infer_session_eq_iff`: both together, for every session.
* `infer_session_stale`: a session that ends with a table of kind `junction` which has three
  foreign keys.
-/

set_option autoImplicit false

namespace EntityDiagram

/-- The table as it was before any inference: no foreign key has a cardinality, and a junction is
a base table again. -/
def Table.unclassified (t : Table) : Table :=
  { t with
    kind := if t.isJunction then some .base else t.kind
    foreignKeys := t.foreignKeys.map ForeignKey.unclassified }

/-- The schema as it was before any inference. -/
def Schema.unclassified (s : Schema) : Schema :=
  { s with tables := s.tables.map Table.unclassified }

namespace Relation

/-! ### A run on an unclassified schema -/

/-- Taking back cardinalities and kinds does not change what a name refers to. -/
theorem keyTarget?_unclassified (s : Schema) (name : String) :
    keyTarget? s.unclassified name = keyTarget? s name := by
  -- Tables are looked up by name, which no pass changes.
  have hfind : s.unclassified.table? name = (s.table? name).map Table.unclassified := by
    rw [Schema.table?, Schema.table?, Schema.unclassified, List.find?_map]
    rfl
  rw [keyTarget?, keyTarget?, hfind]
  cases s.table? name <;> rfl

/-- The columns imply the same foreign keys. -/
theorem impliedKeys_unclassified (config : Config) (s : Schema) (t : Table) :
    impliedKeys config s.unclassified t.unclassified = impliedKeys config s t := by
  have htarget : target? s.unclassified = target? s := by
    funext stem
    rw [target?, target?, keyTarget?_unclassified, keyTarget?_unclassified]
  have hsource (name : String) :
      t.unclassified.isForeignKeyColumn name = t.isForeignKeyColumn name := by
    rw [Table.isForeignKeyColumn, Table.isForeignKeyColumn, Table.unclassified, List.any_map]
    rfl
  -- A column implies a key through its name, the sources of the other keys and the primary key.
  have hkey : impliedKey? s.unclassified config.suffix t.unclassified =
      impliedKey? s config.suffix t := by
    funext c
    rw [impliedKey?, impliedKey?, htarget, hsource]
    rfl
  rw [impliedKeys, impliedKeys, hkey]
  rfl

/-- The cardinality pass leaves the same table, except for its kind. -/
theorem classify_unclassified (config : Config) (s : Schema) (t : Table) :
    classify (withImpliedKeys config s.unclassified t.unclassified) =
      { classify (withImpliedKeys config s t) with kind := t.unclassified.kind } := by
  -- A cardinality that is set anew forgets the one before it.
  have hold : (t.foreignKeys.map ForeignKey.unclassified).map
        (fun k => { k with cardinality := some (cardinalityOf (withImpliedKeys config s t) k) }) =
      t.foreignKeys.map
        fun k => { k with cardinality := some (cardinalityOf (withImpliedKeys config s t) k) } := by
    rw [List.map_map]
    rfl
  have hnew : classify (withImpliedKeys config s.unclassified t.unclassified) =
      { t.unclassified with
        foreignKeys := (t.foreignKeys.map ForeignKey.unclassified ++ impliedKeys config s t).map
          fun k =>
            { k with cardinality := some (cardinalityOf (withImpliedKeys config s t) k) } } := by
    rw [classify, withImpliedKeys, impliedKeys_unclassified]
    rfl
  rw [hnew, List.map_append, hold, ← List.map_append]
  rfl

/-- What a run makes of a table before any inference is what it makes of the table now, except
that a table which is no junction has its earlier kind. -/
theorem inferTable_unclassified (config : Config) (s : Schema) (t : Table) :
    (config.junctions = true ∧ JoinsByKey (inferTable config s t) →
      inferTable config s.unclassified t.unclassified = inferTable config s t) ∧
    (¬ (config.junctions = true ∧ JoinsByKey (inferTable config s t)) →
      inferTable config s.unclassified t.unclassified =
        { inferTable config s t with kind := t.unclassified.kind }) := by
  have hclassify := classify_unclassified config s t
  -- Whether a table is a junction depends on its keys and not on a kind it was given before.
  have hresolves :
      resolvesManyToMany (classify (withImpliedKeys config s.unclassified t.unclassified)) =
        resolvesManyToMany (classify (withImpliedKeys config s t)) := by
    rw [hclassify]
    exact resolvesManyToMany_congr rfl rfl
  rw [joinsByKey_inferTable_iff]
  constructor
  · rintro ⟨hjunctions, h⟩
    rw [inferTable_of_resolves hjunctions h,
      inferTable_of_resolves hjunctions (hresolves.trans h), hclassify]
  · intro h
    rw [inferTable_of_not_resolves h, inferTable_of_not_resolves (hresolves ▸ h), hclassify]

/-- A run finds the same foreign keys with the same cardinalities. -/
theorem foreignKeys_infer_unclassified (config : Config) (s : Schema) :
    (infer config s.unclassified).1.foreignKeys = (infer config s).1.foreignKeys := by
  show ((s.tables.map Table.unclassified).map (inferTable config s.unclassified)).flatMap
      (·.foreignKeys) = (s.tables.map (inferTable config s)).flatMap (·.foreignKeys)
  rw [List.flatMap_def, List.flatMap_def, List.map_map, List.map_map, List.map_map]
  refine congrArg List.flatten (List.map_congr_left fun t _ => ?_)
  show (inferTable config s.unclassified t.unclassified).foreignKeys =
    (inferTable config s t).foreignKeys
  obtain ⟨hjoins, hother⟩ := inferTable_unclassified config s t
  by_cases h : config.junctions = true ∧ JoinsByKey (inferTable config s t)
  · rw [hjoins h]
  · rw [hother h]

/-- A run leaves the kind of a table that is no junction as it was. -/
theorem kind_inferTable {config : Config} {s : Schema} {t : Table}
    (h : ¬ (config.junctions = true ∧ JoinsByKey (inferTable config s t))) :
    (inferTable config s t).kind = t.kind :=
  ((classified_inferTable config s t).ordinary h).2

/-- The tables on which a run remembers an earlier one: they have the kind `junction`, and the run
does not find them to be junctions. -/
theorem inferTable_eq_unclassified_iff (config : Config) (s : Schema) (t : Table) :
    inferTable config s t = inferTable config s.unclassified t.unclassified ↔
      (t.isJunction = true → config.junctions = true ∧ JoinsByKey (inferTable config s t)) := by
  obtain ⟨hjoins, hother⟩ := inferTable_unclassified config s t
  by_cases h : config.junctions = true ∧ JoinsByKey (inferTable config s t)
  · rw [hjoins h]
    exact ⟨fun _ _ => h, fun _ => rfl⟩
  · rw [hother h]
    cases hkind : t.isJunction with
    | true =>
        refine ⟨fun heq => ?_, fun himp => absurd (himp rfl) h⟩
        -- The run on the unclassified schema sees a base table and leaves it one, so equal results
        -- would mean that the table had been one all along.
        have : t.kind = some .base := by
          have := congrArg Table.kind heq
          rw [kind_inferTable h] at this
          simpa [Table.unclassified, hkind] using this
        simp [Table.isJunction, this] at hkind
    | false =>
        have hsame : t.unclassified.kind = (inferTable config s t).kind := by
          rw [kind_inferTable h]
          simp [Table.unclassified, hkind]
        rw [hsame]
        exact ⟨fun _ hfalse => absurd hfalse (by decide), fun _ => rfl⟩

/-- **A run depends on no earlier one** exactly if every table of kind `junction` is found to be a
junction again. -/
theorem infer_eq_infer_unclassified_iff (config : Config) (s : Schema) :
    infer config s = infer config s.unclassified ↔
      ∀ t ∈ s.tables, t.isJunction = true →
        config.junctions = true ∧ JoinsByKey (inferTable config s t) := by
  -- The summary counts the implied keys apart from the schema.
  have hadded : (s.unclassified.tables.flatMap (impliedKeys config s.unclassified)).length =
      (s.tables.flatMap (impliedKeys config s)).length := by
    show ((s.tables.map Table.unclassified).flatMap _).length = _
    rw [List.flatMap_map]
    simp only [impliedKeys_unclassified]
  have hschema : inferSchema config s = inferSchema config s.unclassified ↔
      ∀ t ∈ s.tables, inferTable config s t = inferTable config s.unclassified t.unclassified := by
    rw [inferSchema, inferSchema, Schema.mk.injEq]
    simp [Schema.unclassified]
  simp only [← inferTable_eq_unclassified_iff]
  rw [← hschema, infer, infer, hadded]
  constructor
  · intro h
    exact congrArg Prod.fst h
  · intro h
    rw [h]

/-! ### Sessions -/

/-- What can be done to a schema in a session. -/
inductive Edit where
  /-- Adds a foreign key to the first table of this name. -/
  | addForeignKey (table : String) (key : ForeignKey)
  /-- Gives the first table of this name a primary key. -/
  | markPrimaryKey (table : String) (key : PrimaryKey)
  /-- Replaces all tables. -/
  | replaceTables (tables : List Table)
  /-- Runs inference. -/
  | infer (config : Config)
deriving Repr

/-- Changes the first table of this name, if there is one. -/
def changeTable (name : String) (f : Table → Table) (s : Schema) : Schema :=
  { s with tables := (Schema.updateTable? name f s.tables).getD s.tables }

/-- The schema after one edit. -/
def Edit.perform (s : Schema) : Edit → Schema
  | .addForeignKey table key =>
    changeTable table (fun t => { t with foreignKeys := t.foreignKeys ++ [key] }) s
  | .markPrimaryKey table key => changeTable table (·.markPrimaryKey key) s
  | .replaceTables tables => { s with tables }
  | .infer config => (Relation.infer config s).1

/-- The schema at the end of a session. -/
def session (start : Schema) (edits : List Edit) : Schema := edits.foldl Edit.perform start

/-- Whether the edit leaves no table in its place. After such an edit a position has nothing to do
with what stood there before. -/
def Edit.replaces : Edit → Bool
  | .replaceTables _ => true
  | _ => false

/-- Whether the table is a junction by this edit or, with none, from the start: it came with that
kind, or a run has just found it to be one. -/
def JunctionBy (t : Table) : Option Edit → Prop
  | none | some (.replaceTables _) => t.isJunction = true
  | some (.infer config) => config.junctions = true ∧ JoinsByKey t
  | some _ => False

/-- Whether the table that stands in place `i` at the end of a session has been a junction at some
time: at the start or at its replacement, or when a run was made since then. -/
def EverJunction (start : Schema) (edits : List Edit) (i : Nat) : Prop :=
  ∃ before since, edits = before ++ since ∧ (∀ e ∈ since, e.replaces = false) ∧
    ∃ t, (session start before).tables[i]? = some t ∧ JunctionBy t before.getLast?

/-- One more edit takes one more step. -/
theorem session_append_singleton (start : Schema) (edits : List Edit) (e : Edit) :
    session start (edits ++ [e]) = e.perform (session start edits) := by
  rw [session, List.foldl_append]
  rfl

/-- A change that keeps the kind of the table keeps all kinds. -/
theorem map_kind_changeTable (name : String) (f : Table → Table)
    (hf : ∀ t, (f t).kind = t.kind) (s : Schema) :
    (changeTable name f s).tables.map (·.kind) = s.tables.map (·.kind) := by
  -- Only the first table of the name is changed, and its kind is not.
  have hupdate (tables : List Table) : ∀ changed,
      Schema.updateTable? name f tables = some changed →
        changed.map (·.kind) = tables.map (·.kind) := by
    induction tables with
    | nil =>
        intro changed h
        simp [Schema.updateTable?] at h
    | cons t rest ih =>
        intro changed h
        rw [Schema.updateTable?] at h
        split at h
        · cases h
          simp [hf]
        · obtain ⟨more, hmore, rfl⟩ := Option.map_eq_some_iff.1 h
          simp [ih more hmore]
  show ((Schema.updateTable? name f s.tables).getD s.tables).map (·.kind) = _
  cases h : Schema.updateTable? name f s.tables with
  | none => rfl
  | some changed => exact hupdate s.tables changed h

/-- The kind of the table in place `i`, if there is one. -/
theorem getElem?_map_kind (s : Schema) (i : Nat) :
    (∃ t, s.tables[i]? = some t ∧ t.isJunction = true) ↔
      (s.tables.map (·.kind))[i]? = some (some .junction) := by
  rw [List.getElem?_map]
  cases s.tables[i]? <;> simp [Table.isJunction]

/-- A run leaves a table with the kind `junction` if it had that kind or is found to be one. -/
theorem isJunction_inferTable_iff (config : Config) (s : Schema) (t : Table) :
    (inferTable config s t).isJunction = true ↔
      t.isJunction = true ∨ (config.junctions = true ∧ JoinsByKey (inferTable config s t)) := by
  by_cases h : config.junctions = true ∧ JoinsByKey (inferTable config s t)
  · have hkind := ((classified_inferTable config s t).junction h).2
    simp [Table.isJunction, hkind, h]
  · simp only [h, or_false]
    rw [Table.isJunction, kind_inferTable h, Table.isJunction]

/-- **One edit.** A table of kind `junction` keeps that kind, unless all tables are replaced, and
only a run makes new ones. -/
theorem isJunction_perform_iff (s : Schema) (e : Edit) (i : Nat) :
    (∃ t, (e.perform s).tables[i]? = some t ∧ t.isJunction = true) ↔
      (e.replaces = false ∧ ∃ t, s.tables[i]? = some t ∧ t.isJunction = true) ∨
        ∃ t, (e.perform s).tables[i]? = some t ∧ JunctionBy t (some e) := by
  cases e with
  | addForeignKey table key =>
      -- A change of keys leaves all kinds as they are.
      have hkinds : ((Edit.addForeignKey table key).perform s).tables.map (·.kind) =
          s.tables.map (·.kind) :=
        map_kind_changeTable table (fun t => { t with foreignKeys := t.foreignKeys ++ [key] })
          (fun _ => rfl) s
      rw [getElem?_map_kind, getElem?_map_kind, hkinds]
      simp [Edit.replaces, JunctionBy]
  | markPrimaryKey table key =>
      have hkinds : ((Edit.markPrimaryKey table key).perform s).tables.map (·.kind) =
          s.tables.map (·.kind) :=
        map_kind_changeTable table (·.markPrimaryKey key) (fun _ => rfl) s
      rw [getElem?_map_kind, getElem?_map_kind, hkinds]
      simp [Edit.replaces, JunctionBy]
  | replaceTables tables => simp [Edit.replaces, JunctionBy]
  | infer config =>
      have htables : (Edit.perform s (.infer config)).tables =
          s.tables.map (inferTable config s) := rfl
      rw [htables, List.getElem?_map]
      cases s.tables[i]? with
      | none => simp
      | some t => simpa [Edit.replaces, JunctionBy] using isJunction_inferTable_iff config s t

/-- One more edit in the history of a table. The history goes on, or it begins with this edit. -/
theorem everJunction_append_singleton (start : Schema) (edits : List Edit) (e : Edit) (i : Nat) :
    EverJunction start (edits ++ [e]) i ↔
      (e.replaces = false ∧ EverJunction start edits i) ∨
        ∃ t, (session start (edits ++ [e])).tables[i]? = some t ∧ JunctionBy t (some e) := by
  constructor
  · rintro ⟨before, since, hsplit, hsince, t, ht, hby⟩
    -- Either the last edit is the one that made the junction, or it came after that.
    rcases List.eq_nil_or_concat since with rfl | ⟨since', last, rfl⟩
    · rw [List.append_nil] at hsplit
      subst hsplit
      rw [List.getLast?_concat] at hby
      exact Or.inr ⟨t, ht, hby⟩
    · rw [List.concat_eq_append, ← List.append_assoc] at hsplit
      obtain ⟨rfl, hlast⟩ := List.append_inj' hsplit rfl
      cases hlast
      rw [List.concat_eq_append] at hsince
      exact Or.inl ⟨hsince e (by simp), before, since', rfl,
        fun e' he' => hsince e' (by simp [he']), t, ht, hby⟩
  · rintro (⟨he, before, since, rfl, hsince, t, ht, hby⟩ | ⟨t, ht, hby⟩)
    · refine ⟨before, since ++ [e], List.append_assoc .., fun e' he' => ?_, t, ht, hby⟩
      rcases List.mem_append.1 he' with he' | he'
      · exact hsince e' he'
      · rw [List.mem_singleton.1 he', he]
    · refine ⟨edits ++ [e], [], by simp, by simp, t, ht, ?_⟩
      rwa [List.getLast?_concat]

/-- **A whole session.** The tables of kind `junction` are those that have ever been junctions:
the kind is never taken back. -/
theorem isJunction_session_iff (start : Schema) (edits : List Edit) (i : Nat) :
    (∃ t, (session start edits).tables[i]? = some t ∧ t.isJunction = true) ↔
      EverJunction start edits i := by
  -- On the edits from the last one back, since each looks at the session before it.
  induction edits using List.reverseRecOn with
  | nil =>
      constructor
      · rintro ⟨t, ht, hkind⟩
        exact ⟨[], [], rfl, by simp, t, ht, hkind⟩
      · rintro ⟨before, since, hsplit, -, t, ht, hby⟩
        obtain ⟨rfl, rfl⟩ := List.append_eq_nil_iff.1 hsplit.symm
        exact ⟨t, ht, hby⟩
  | append_singleton edits e ih =>
      rw [everJunction_append_singleton, session_append_singleton, isJunction_perform_iff, ih]

/-- **Inference after a session** finds the same foreign keys with the same cardinalities as on
the schema before any inference. It gives the same in every respect exactly if each table that has
ever been a junction is found to be one again: a run leaves the kind `junction` on every other
table that has it. -/
theorem infer_session_eq_iff (start : Schema) (edits : List Edit) (config : Config) :
    (infer config (session start edits)).1.foreignKeys =
        (infer config (session start edits).unclassified).1.foreignKeys ∧
      List.Forall₂
        (fun before after => after.isJunction = true ↔
          before.isJunction = true ∨ (config.junctions = true ∧ JoinsByKey after))
        (session start edits).tables (infer config (session start edits)).1.tables ∧
      (infer config (session start edits) = infer config (session start edits).unclassified ↔
        ∀ i t, (session start edits).tables[i]? = some t → EverJunction start edits i →
          config.junctions = true ∧ JoinsByKey (inferTable config (session start edits) t)) := by
  refine ⟨(foreignKeys_infer_unclassified config _).symm, ?_, ?_⟩
  · rw [show (infer config (session start edits)).1.tables =
        (session start edits).tables.map (inferTable config (session start edits)) from rfl,
      List.forall₂_map_right_iff, List.forall₂_same]
    exact fun t _ => isJunction_inferTable_iff config _ t
  · -- What is left over from earlier runs can only be a junction's kind, at the positions that were
    -- one at some time.
    rw [infer_eq_infer_unclassified_iff]
    constructor
    · intro h i t ht hever
      obtain ⟨t', ht', hkind⟩ := (isJunction_session_iff start edits i).2 hever
      cases ht.symm.trans ht'
      exact h t (List.mem_of_getElem? ht) hkind
    · intro h t hmem hkind
      obtain ⟨i, ht⟩ := List.getElem?_of_mem hmem
      exact h i t ht ((isJunction_session_iff start edits i).1 ⟨t, ht, hkind⟩)

/-- A table with two foreign keys that make up its primary key. -/
def membership : Table where
  name := "member"
  columns := [.ofType "user" "INT", .ofType "team" "INT", .ofType "role" "INT"]
  primaryKey := some { columns := ["user", "team"] }
  foreignKeys :=
    [{ fromTable := "member", fromColumns := ["user"], toTable := "users", toColumns := ["id"] },
     { fromTable := "member", fromColumns := ["team"], toTable := "teams", toColumns := ["id"] }]
  kind := some .base

/-- A session on `membership`: inference, and then a third foreign key. -/
def membershipEdits : List Edit :=
  [.infer {},
   .addForeignKey "member"
     { fromTable := "member", fromColumns := ["role"], toTable := "roles", toColumns := ["id"] }]

/-- With three foreign keys `membership` is no junction, and a further run still leaves it with
that kind. -/
theorem infer_session_stale :
    let s := session { dbType := "mysql", tables := [membership] } membershipEdits
    (infer {} s).1.tables.map (·.kind) = [some .junction] ∧
      (infer {} s.unclassified).1.tables.map (·.kind) = [some .base] ∧
      infer {} s ≠ infer {} s.unclassified := by
  refine ⟨by decide, by decide, by decide⟩

end Relation

end EntityDiagram
