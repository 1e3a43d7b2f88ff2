import EntityDiagram.Proofs.Relation.Classification
import EntityDiagram.Proofs.Text.Affix

/-!
# `EntityDiagram.Proofs.Relation.ImpliedKey`: the foreign keys that names imply

Under the naming convention a column whose name is a stem and the suffix implies a foreign key to
the table that the stem refers to. Here the rule is said without the searches that inference
makes: `RefersTo` is what a stem refers to, `Implies` what a column implies, and `ImpliedBy` goes
through the columns of a table. The theorems:

* `target?_eq_some_iff`: inference looks a stem up as `RefersTo` says, in the table of that name
  first and only then in that of the plural.
* `impliedBy_iff`: the keys of a table are those that its columns imply, each column once and in
  the order of the columns.
* `infer_appends_implied_keys`: a run appends exactly these to the foreign keys of each table.
* `isSome_target?_congr`: whether a stem refers to a table depends on no more than the names of
  the tables and the lengths of their primary keys.
-/

set_option autoImplicit false

namespace EntityDiagram.Relation

/-! ### Stems -/

/-- Whether `u` is the table of this name that was declared first. -/
def IsFirstNamed (s : Schema) (name : String) (u : Table) : Prop :=
  u.name = name ∧ ∃ before after, s.tables = before ++ u :: after ∧ ∀ v ∈ before, v.name ≠ name

/-- Whether a name is that of the table `u`, and the primary key of `u` is a list of this one
column. -/
structure NamesKey (s : Schema) (name : String) (u : Table) (column : String) : Prop where
  first : IsFirstNamed s name u
  sole : ∃ key, u.primaryKey = some key ∧ key.columns = [column]

/-- Whether a stem refers to this column of the table `u`: the table is named by the stem or, if
the stem names no table with a key of one column, by its plural. -/
def RefersTo (s : Schema) (stem : String) (u : Table) (column : String) : Prop :=
  NamesKey s stem u column ∨
    (¬ ∃ v other, NamesKey s stem v other) ∧ NamesKey s (stem ++ "s") u column

/-- The stem of a name makes the name together with the suffix, and it is not empty. -/
theorem stem?_eq_some_iff {suffix name stem : String} :
    stem? suffix name = some stem ↔ stem ≠ "" ∧ name = stem ++ suffix := by
  rw [stem?]
  constructor
  · intro h
    split at h
    · rename_i c front hfront
      obtain rfl := Option.some.inj h
      exact ⟨by simp, Text.dropTail?_toList_eq_some_iff.1 hfront⟩
    · cases h
  · rintro ⟨hne, hname⟩
    have hfront : Text.dropTail? suffix.toList name.toList = some stem.toList :=
      Text.dropTail?_toList_eq_some_iff.2 (by rw [String.ofList_toList, hname])
    -- A stem that is empty is refused, so the first character is looked at.
    obtain ⟨c, front, hcons⟩ : ∃ c front, stem.toList = c :: front :=
      List.exists_cons_of_ne_nil fun hnil => hne (String.toList_eq_nil_iff.1 hnil)
    rw [hfront, hcons]
    show some (String.ofList (c :: front)) = some stem
    rw [← hcons, String.ofList_toList]

/-- Tables are looked up by name from the first one on. -/
theorem table?_eq_some_iff {s : Schema} {name : String} {u : Table} :
    s.table? name = some u ↔ IsFirstNamed s name u := by
  rw [Schema.table?, List.find?_eq_some_iff_append, IsFirstNamed]
  simp

/-- The key that a name refers to. -/
theorem keyTarget?_eq_some_iff {s : Schema} {name table column : String} :
    keyTarget? s name = some (table, column) ↔
      ∃ u, NamesKey s name u column ∧ u.name = table := by
  rw [keyTarget?, Option.bind_eq_some_iff]
  constructor
  · rintro ⟨u, hfirst, h⟩
    split at h
    · rename_i sole hsole
      obtain ⟨key, hkey, hcolumns⟩ := Option.map_eq_some_iff.1 hsole
      cases h
      exact ⟨u, ⟨table?_eq_some_iff.1 hfirst, key, hkey, hcolumns⟩, rfl⟩
    · cases h
  · rintro ⟨u, ⟨hfirst, key, hkey, hcolumns⟩, rfl⟩
    exact ⟨u, table?_eq_some_iff.2 hfirst, by rw [hkey, Option.map_some, hcolumns]⟩

/-- A name refers to no key where inference finds none. -/
theorem keyTarget?_eq_none_iff {s : Schema} {name : String} :
    keyTarget? s name = none ↔ ¬ ∃ u column, NamesKey s name u column := by
  rw [Option.eq_none_iff_forall_ne_some]
  constructor
  · rintro h ⟨u, column, hnames⟩
    exact h _ (keyTarget?_eq_some_iff.2 ⟨u, hnames, rfl⟩)
  · rintro h ⟨table, column⟩ hsome
    obtain ⟨u, hnames, -⟩ := keyTarget?_eq_some_iff.1 hsome
    exact h ⟨u, column, hnames⟩

/-- **Inference looks a stem up as `RefersTo` says.** -/
theorem target?_eq_some_iff {s : Schema} {stem table column : String} :
    target? s stem = some (table, column) ↔ ∃ u, RefersTo s stem u column ∧ u.name = table := by
  simp only [RefersTo, ← keyTarget?_eq_none_iff, or_and_right, exists_or, and_assoc,
    exists_and_left, ← keyTarget?_eq_some_iff]
  rw [target?]
  cases keyTarget? s stem <;> simp

/-! ### Columns -/

/-- Whether the column `c` of the table `t` implies a foreign key to this column of `u`. -/
structure Implies (suffix : String) (s : Schema) (t : Table) (c : Column) (u : Table)
    (column : String) : Prop where
  /-- The name is a stem, which is not empty, and the suffix. -/
  refers : ∃ stem, stem ≠ "" ∧ c.name = stem ++ suffix ∧ RefersTo s stem u column
  /-- The column is the source of no foreign key of its table. -/
  notSource : ∀ k ∈ t.foreignKeys, c.name ∉ k.fromColumns
  /-- The column is not by itself the primary key. -/
  notKey : t.keySet ≠ {c.name}

/-- The foreign key from the column `c` of `t` to this column of `u`. -/
def keyBetween (t : Table) (c : Column) (u : Table) (column : String) : ForeignKey where
  name := some ("fk_" ++ t.name ++ "_" ++ c.name)
  fromTable := t.name
  fromColumns := [c.name]
  toTable := u.name
  toColumns := [column]

/-- Whether the column may imply a foreign key, as inference tests it. -/
theorem mayImply_iff (t : Table) (name : String) :
    (t.isForeignKeyColumn name || sameNames t.keyColumns [name]) = false ↔
      (∀ k ∈ t.foreignKeys, name ∉ k.fromColumns) ∧ t.keySet ≠ {name} := by
  have hkey : sameNames t.keyColumns [name] = true ↔ t.keySet = {name} := by
    rw [sameNames_iff, Table.keySet]
    simp
  rw [Bool.or_eq_false_iff, ne_eq, ← hkey, Table.isForeignKeyColumn]
  simp

/-- **A column implies the foreign key that inference gives it.** -/
theorem impliedKey?_eq_some_iff {s : Schema} {suffix : String} {t : Table} {c : Column}
    {k : ForeignKey} :
    impliedKey? s suffix t c = some k ↔
      ∃ u column, Implies suffix s t c u column ∧ k = keyBetween t c u column := by
  -- The rule is gone through from the program to the description, and then back again.
  rw [impliedKey?]
  constructor
  · intro h
    split at h
    · cases h
    · rename_i hmay
      obtain ⟨hsource, hkey⟩ := (mayImply_iff t c.name).1 (by simpa using hmay)
      obtain ⟨⟨table, column⟩, htarget, rfl⟩ := Option.map_eq_some_iff.1 h
      obtain ⟨stem, hstem, htarget⟩ := Option.bind_eq_some_iff.1 htarget
      obtain ⟨hne, hname⟩ := stem?_eq_some_iff.1 hstem
      obtain ⟨u, hrefers, rfl⟩ := target?_eq_some_iff.1 htarget
      exact ⟨u, column, ⟨⟨stem, hne, hname, hrefers⟩, hsource, hkey⟩, rfl⟩
  · rintro ⟨u, column, ⟨⟨stem, hne, hname, hrefers⟩, hsource, hkey⟩, rfl⟩
    have hmay := (mayImply_iff t c.name).2 ⟨hsource, hkey⟩
    have htarget : (stem? suffix c.name).bind (target? s) = some (u.name, column) :=
      Option.bind_eq_some_iff.2
        ⟨stem, stem?_eq_some_iff.2 ⟨hne, hname⟩, target?_eq_some_iff.2 ⟨u, hrefers, rfl⟩⟩
    rw [hmay, htarget]
    rfl

/-- A column that is the source of a foreign key implies none. -/
theorem impliedKey?_of_source {s : Schema} {suffix : String} {t : Table} {c : Column}
    (h : t.isForeignKeyColumn c.name = true) : impliedKey? s suffix t c = none := by
  rw [impliedKey?, h]
  rfl

/-! ### Tables -/

/-- Whether these are the foreign keys that columns of `t` imply: one for each column that implies
one, in the order of the columns. -/
inductive ImpliedBy (suffix : String) (s : Schema) (t : Table) :
    List Column → List ForeignKey → Prop
  | nil : ImpliedBy suffix s t [] []
  | implies {c : Column} {columns : List Column} {u : Table} {column : String}
      {keys : List ForeignKey} (hc : Implies suffix s t c u column)
      (hrest : ImpliedBy suffix s t columns keys) :
      ImpliedBy suffix s t (c :: columns) (keyBetween t c u column :: keys)
  | silent {c : Column} {columns : List Column} {keys : List ForeignKey}
      (hc : ∀ u column, ¬ Implies suffix s t c u column)
      (hrest : ImpliedBy suffix s t columns keys) : ImpliedBy suffix s t (c :: columns) keys

/-- **The keys that columns imply are those that inference finds**, and no others. -/
theorem impliedBy_iff {suffix : String} {s : Schema} {t : Table} {columns : List Column}
    {keys : List ForeignKey} :
    ImpliedBy suffix s t columns keys ↔ keys = columns.filterMap (impliedKey? s suffix t) := by
  constructor
  · intro h
    induction h with
    | nil => rfl
    | implies hc _ ih =>
        rw [List.filterMap_cons_some (impliedKey?_eq_some_iff.2 ⟨_, _, hc, rfl⟩), ih]
    | silent hc _ ih =>
        -- A key that is found for the column would be implied by it.
        refine ih.trans (List.filterMap_cons_none ?_).symm
        refine Option.eq_none_iff_forall_ne_some.2 fun k hk => ?_
        obtain ⟨u, column, hu, -⟩ := impliedKey?_eq_some_iff.1 hk
        exact hc u column hu
  · rintro rfl
    induction columns with
    | nil => exact .nil
    | cons c columns ih =>
        cases hc : impliedKey? s suffix t c with
        | none =>
            rw [List.filterMap_cons_none hc]
            refine .silent (fun u column hu => ?_) ih
            cases hc.symm.trans (impliedKey?_eq_some_iff.2 ⟨u, column, hu, rfl⟩)
        | some k =>
            rw [List.filterMap_cons_some hc]
            obtain ⟨u, column, hu, rfl⟩ := impliedKey?_eq_some_iff.1 hc
            exact .implies hu ih

/-! ### A run -/

/-- The foreign keys that inference finds have no cardinality yet. -/
theorem map_unclassified_impliedKeys (config : Config) (s : Schema) (t : Table) :
    (impliedKeys config s t).map ForeignKey.unclassified = impliedKeys config s t := by
  refine (List.map_congr_left fun k hk => ?_).trans (List.map_id _)
  rw [impliedKeys] at hk
  split at hk
  · obtain ⟨c, -, hc⟩ := List.mem_filterMap.1 hk
    obtain ⟨u, column, -, rfl⟩ := impliedKey?_eq_some_iff.1 hc
    rfl
  · cases hk

/-- After a run the sources of foreign keys are those from before and those of the implied keys.
This is what keeps a second run from implying a key again. -/
theorem isForeignKeyColumn_inferTable (config : Config) (s : Schema) (t : Table) (name : String) :
    (inferTable config s t).isForeignKeyColumn name =
      (t.isForeignKeyColumn name ||
        ((impliedKeys config s t).map (·.fromColumns)).any (·.contains name)) := by
  have hsources (u : Table) : u.isForeignKeyColumn name =
      (u.foreignKeys.map (·.fromColumns)).any (·.contains name) := by
    rw [List.any_map]
    rfl
  rw [hsources, hsources, map_fromColumns_inferTable, withImpliedKeys, List.map_append,
    List.any_append]

/-- **A run appends exactly the implied foreign keys** to those of each table, if the naming
convention is on and has a suffix, and none otherwise. The keys that were there keep their places
and change in nothing but their cardinality, and the summary counts the keys that are new. -/
theorem infer_appends_implied_keys (config : Config) (s : Schema) :
    ∃ implied : Table → List ForeignKey,
      (config.namingConvention = true ∧ config.suffix ≠ "" →
        ∀ t ∈ s.tables, ImpliedBy config.suffix s t t.columns (implied t)) ∧
      (config.namingConvention = false ∨ config.suffix = "" → ∀ t ∈ s.tables, implied t = []) ∧
      List.Forall₂
        (fun before after => after.foreignKeys.map ForeignKey.unclassified =
          before.foreignKeys.map ForeignKey.unclassified ++ implied before)
        s.tables (infer config s).1.tables ∧
      (infer config s).2.impliedKeys = (s.tables.flatMap implied).length := by
  -- The program's own list is the one to be shown, and it is compared with the independent rule.
  refine ⟨impliedKeys config s, fun ⟨hon, hsuffix⟩ t _ => ?_, fun hoff t _ => ?_, ?_, rfl⟩
  · rw [impliedBy_iff, impliedKeys, if_pos (by simp [hon, hsuffix])]
  · rw [impliedKeys, if_neg]
    rcases hoff with hoff | hoff <;> simp [hoff]
  · refine (infer_classifies config s).imp fun before after h => ?_
    rw [h.foreignKeys_eq, List.map_append, map_unclassified_impliedKeys]

/-! ### What stems and columns are read for -/

/-- The tables of a schema as far as a stem is looked up in them: their names, and how many columns
the primary key of each lists. -/
def keyLengths (s : Schema) : List (String × Option Nat) :=
  s.tables.map fun t => (t.name, t.primaryKey.map (·.columns.length))

/-- A name refers to a key exactly if the first table of this name has one of length one. -/
theorem isSome_keyTarget?_iff (s : Schema) (name : String) :
    (keyTarget? s name).isSome = true ↔
      ((keyLengths s).find? (·.1 == name)).bind (·.2) = some 1 := by
  have hfind : (keyLengths s).find? (·.1 == name) =
      (s.table? name).map fun t => (t.name, t.primaryKey.map (·.columns.length)) := by
    rw [keyLengths, List.find?_map]
    rfl
  rw [hfind, keyTarget?]
  cases s.table? name with
  | none => simp
  | some t =>
      cases hkey : t.primaryKey with
      | none => simp [hkey]
      | some key =>
          -- A key is a target with exactly one column, not with none and not with more.
          rcases hcolumns : key.columns with _ | ⟨column, _ | ⟨next, more⟩⟩ <;>
            simp [hkey, hcolumns]

/-- Whether a stem refers to a table does not depend on anything else. -/
theorem isSome_target?_congr {s s' : Schema} (h : keyLengths s = keyLengths s') (stem : String) :
    (target? s stem).isSome = (target? s' stem).isSome := by
  have hname (name : String) : (keyTarget? s name).isSome = (keyTarget? s' name).isSome := by
    rw [Bool.eq_iff_iff, isSome_keyTarget?_iff, isSome_keyTarget?_iff, h]
  rw [target?, target?, Option.orElse_eq_or, Option.orElse_eq_or, Option.isSome_or,
    Option.isSome_or, hname, hname]

/-- Whether a column implies a foreign key does not depend on anything but this and, of its own
table, the sources of foreign keys and the primary key. -/
theorem isSome_impliedKey?_congr {s s' : Schema} (h : keyLengths s = keyLengths s') {t t' : Table}
    {c c' : Column} (hname : c.name = c'.name)
    (hsource : t.isForeignKeyColumn c.name = t'.isForeignKeyColumn c.name)
    (hkey : sameNames t.keyColumns [c.name] = sameNames t'.keyColumns [c.name])
    (suffix : String) :
    (impliedKey? s suffix t c).isSome = (impliedKey? s' suffix t' c').isSome := by
  have htarget (stem : Option String) :
      (stem.bind (target? s)).isSome = (stem.bind (target? s')).isSome := by
    cases stem with
    | none => rfl
    | some stem => exact isSome_target?_congr h stem
  rw [impliedKey?, impliedKey?, ← hname, hsource, hkey]
  split
  · rfl
  · rw [Option.isSome_map, Option.isSome_map, htarget]

/-- A column implies a foreign key from itself alone. -/
theorem fromColumns_of_impliedKey? {s : Schema} {suffix : String} {t : Table} {c : Column}
    {k : ForeignKey} (h : impliedKey? s suffix t c = some k) : k.fromColumns = [c.name] := by
  obtain ⟨u, column, -, rfl⟩ := impliedKey?_eq_some_iff.1 h
  rfl

/-- An implied foreign key starts from the column that implies it, and from no other. -/
theorem map_fromColumns_impliedKey? (s : Schema) (suffix : String) (t : Table) (c : Column) :
    (impliedKey? s suffix t c).map (·.fromColumns) =
      if (impliedKey? s suffix t c).isSome then some [c.name] else none := by
  cases h : impliedKey? s suffix t c with
  | none => rfl
  | some k =>
      rw [Option.map_some, fromColumns_of_impliedKey? h]
      rfl

end EntityDiagram.Relation
