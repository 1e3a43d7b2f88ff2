import EntityDiagram.Proofs.Schema.Key
import Mathlib.Data.List.NodupEquivFin

/-!
# `EntityDiagram.Proofs.Schema.KeyFlags`: the flags of key columns over many keys

That a column is a member of the primary key is stored twice: in the columns of the key, and as a
flag of the column. `Table.FlagsAgree` says that both are the same. `Table.markPrimaryKey` replaces
the key and raises the flags of its columns, but it never lowers one, and of several columns that
differ only in ASCII case it finds the first. So the two drift apart in two ways: a column that a
new key drops stays flagged, and a second column of a name that the key takes up is not flagged.

* `resolveKey_eq`: which names a key gets and which columns it flags, for any columns.
* `flagsAgree_markPrimaryKey_iff`: what one key does to the agreement.
* `flagsAgree_markPrimaryKeys_iff`: the sequences of keys that keep it after every one of them.
* `not_flagsAgree_exampleReplacement`: a key that replaces another one breaks it.
-/

set_option autoImplicit false

namespace EntityDiagram.Table

open Text (eqIgnoreCase)

/-! ### What a key finds -/

/-- The name under which a key stores one of its names: that of the first column which equals it,
ASCII case aside, or else the name itself. So a key is stored in the spelling of the columns, even
where it was written in another one. -/
def storedName (columns : List Column) (name : String) : String :=
  ((columns.map (·.name)).find? (eqIgnoreCase · name)).getD name

/-- Whether no column before position `i` is named `name`, ASCII case aside. A name finds the first
of several columns that equal it, and the others never. -/
def IsFirst (columns : List Column) (i : Nat) (name : String) : Prop :=
  ∀ d ∈ columns.take i, eqIgnoreCase d.name name = false

/-- Whether a key of these names finds the column at position `i`. Both conditions are on names
alone, and not on the flags that may be raised already. -/
def Finds (names : List String) (columns : List Column) (i : Nat) (c : Column) : Prop :=
  (∃ name ∈ names, eqIgnoreCase c.name name = true) ∧ IsFirst columns i c.name

/-- Only the columns before the place have to be looked at. -/
instance (columns : List Column) (i : Nat) (name : String) : Decidable (IsFirst columns i name) :=
  inferInstanceAs (Decidable (∀ d ∈ columns.take i, eqIgnoreCase d.name name = false))

/-- A name that finds the column is one of the list. -/
instance (names : List String) (columns : List Column) (i : Nat) (c : Column) :
    Decidable (Finds names columns i c) :=
  inferInstanceAs (Decidable ((∃ name ∈ names, eqIgnoreCase c.name name = true) ∧ _))

/-- Names that equal one name, case aside, are equal in this way to the same names. Names fall into
classes by this comparison. -/
theorem eqIgnoreCase_congr {a b : String} (h : eqIgnoreCase a b = true) (name : String) :
    eqIgnoreCase name a = eqIgnoreCase name b := by
  have h := beq_iff_eq.1 h
  rw [eqIgnoreCase, eqIgnoreCase, h]

/-- The first column that has a name comes behind all that do not have it. -/
theorem isFirst_cons (c : Column) (columns : List Column) (i : Nat) (name : String) :
    IsFirst (c :: columns) (i + 1) name ↔
      eqIgnoreCase c.name name = false ∧ IsFirst columns i name := by
  rw [IsFirst, IsFirst, List.take_succ_cons, List.forall_mem_cons]

/-- What is first among columns is so by their names alone. Raising flags changes no names, so it
does not matter when a name is looked up. -/
theorem isFirst_congr {columns columns' : List Column}
    (h : columns.map (·.name) = columns'.map (·.name)) (i : Nat) (name : String) :
    IsFirst columns i name ↔ IsFirst columns' i name := by
  have hnames (cs : List Column) : IsFirst cs i name ↔
      ∀ n ∈ (cs.map (·.name)).take i, eqIgnoreCase n name = false := by
    rw [IsFirst, ← List.map_take, List.forall_mem_map]
  rw [hnames, hnames, h]

/-- A key finds what one of its names finds. -/
theorem finds_cons (name : String) (names : List String) (columns : List Column) (i : Nat)
    (c : Column) :
    Finds (name :: names) columns i c ↔ Finds [name] columns i c ∨ Finds names columns i c := by
  simp only [Finds, List.mem_cons, List.not_mem_nil, or_false, or_and_right, exists_or,
    exists_eq_left]

/-- The column that a name finds, by its position. The search is described by positions from here
on. -/
theorem flagFirst_eq_mapIdx (name : String) (columns : List Column) :
    flagFirst (fun c => eqIgnoreCase c.name name) columns =
      columns.mapIdx fun i c => if Finds [name] columns i c then c.asKey else c := by
  induction columns with
  | nil => rfl
  | cons c columns ih =>
      have hfinds (i : Nat) (d : Column) : Finds [name] (c :: columns) (i + 1) d ↔
          eqIgnoreCase c.name name = false ∧ Finds [name] columns i d := by
        rw [Finds, Finds, isFirst_cons]
        simp only [List.mem_singleton, exists_eq_left]
        constructor
        · rintro ⟨hd, hc, hfirst⟩
          exact ⟨by rwa [eqIgnoreCase_congr hd] at hc, hd, hfirst⟩
        · rintro ⟨hc, hd, hfirst⟩
          exact ⟨hd, by rwa [eqIgnoreCase_congr hd], hfirst⟩
      rw [flagFirst, List.mapIdx_cons]
      by_cases hc : eqIgnoreCase c.name name = true
      · -- Any later column of the name comes behind this one.
        have hhead : Finds [name] (c :: columns) 0 c := by simp [Finds, IsFirst, hc]
        rw [if_pos hc, if_pos hhead]
        refine congrArg (c.asKey :: ·) (List.ext_getElem (by simp) fun i hi _ => ?_)
        simp [hfinds, hc]
      · have hhead : ¬ Finds [name] (c :: columns) 0 c := by simp [Finds, hc]
        rw [if_neg hc, if_neg hhead, ih]
        simp [hfinds, hc]

/-- Raising flags changes no name. -/
theorem map_name_mapIdx_asKey (p : Nat → Column → Prop) [∀ i c, Decidable (p i c)]
    (columns : List Column) :
    (columns.mapIdx fun i c => if p i c then c.asKey else c).map (·.name) =
      columns.map (·.name) := by
  refine List.ext_getElem (by simp) fun i _ _ => ?_
  simp only [List.getElem_map, List.getElem_mapIdx]
  split <;> rfl

/-- A key stores each of its names as `storedName` says and flags the columns that it finds. So the
order of the names matters for what is stored, and not for what is flagged. -/
theorem resolveKey_eq (names : List String) (columns : List Column) :
    resolveKey names columns =
      (names.map (storedName columns),
       columns.mapIdx fun i c => if Finds names columns i c then c.asKey else c) := by
  induction names generalizing columns with
  | nil =>
      refine congrArg (([], ·)) (List.ext_getElem (by simp) fun i _ _ => ?_)
      simp [Finds]
  | cons name names ih =>
      have hname : ((columns.find? fun c => eqIgnoreCase c.name name).map (·.name)).getD name =
          storedName columns name := by
        rw [storedName, List.find?_map]
        rfl
      have hnames := map_name_mapIdx_asKey (Finds [name] columns) columns
      -- The first name is looked up, and the others among the columns that it leaves.
      rw [resolveKey, hname, flagFirst_eq_mapIdx, ih]
      refine Prod.ext (congrArg (storedName columns name :: ·) ?_) ?_
      · -- The names that are left are looked up among the same names of columns.
        refine List.map_congr_left fun other _ => ?_
        rw [storedName, storedName, hnames]
      · refine List.ext_getElem (by simp) fun i _ hi => ?_
        simp only [List.getElem_mapIdx, finds_cons name names]
        have hrest (c : Column) :
            Finds names (columns.mapIdx fun i c => if Finds [name] columns i c then c.asKey else c)
              i c ↔ Finds names columns i c :=
          and_congr_right fun _ => isFirst_congr hnames i c.name
        have hi : i < columns.length := by simpa using hi
        simp only [hrest]
        by_cases hfirst : Finds [name] columns i columns[i]
        · simp only [hfirst, if_true, true_or]
          split <;> rfl
        · simp only [hfirst, if_false, false_or]

/-- A name is stored as the first column is named which it equals, case aside, and as it is where
there is none. In the first case the position of that column is given. -/
theorem storedName_cases (columns : List Column) (name : String) :
    (∃ j, ∃ hj : j < columns.length, columns[j].name = storedName columns name ∧
      eqIgnoreCase columns[j].name name = true ∧ IsFirst columns j columns[j].name) ∨
    (storedName columns name = name ∧ ∀ c ∈ columns, eqIgnoreCase c.name name = false) := by
  rw [storedName]
  -- The lookup either finds nothing, or the first name that equals the one that is looked up.
  cases hfind : (columns.map (·.name)).find? (eqIgnoreCase · name) with
  | none =>
      refine .inr ⟨rfl, fun c hc => ?_⟩
      simpa using List.find?_eq_none.1 hfind _ (List.mem_map_of_mem hc)
  | some found =>
      obtain ⟨heq, j, hj, hfound, hbefore⟩ := List.find?_eq_some_iff_getElem.1 hfind
      rw [List.length_map] at hj
      rw [List.getElem_map] at hfound
      refine .inl ⟨j, hj, hfound, hfound ▸ heq, fun d hd => ?_⟩
      obtain ⟨k, hk, rfl⟩ := List.mem_take_iff_getElem.1 hd
      have hnot := hbefore k (by omega)
      rw [List.getElem_map] at hnot
      rw [hfound, eqIgnoreCase_congr heq]
      simpa using hnot

/-! ### One key -/

/-- Whether exactly the columns of the primary key are flagged as its members. The names are
compared as they are, since the key holds the spelling of the columns. -/
def FlagsAgree (t : Table) : Prop :=
  ∀ c ∈ t.columns, c.inPrimaryKey = true ↔ c.name ∈ t.keyColumns

/-- Flags are compared column by column. -/
instance (t : Table) : Decidable t.FlagsAgree :=
  inferInstanceAs (Decidable (∀ c ∈ t.columns, c.inPrimaryKey = true ↔ c.name ∈ t.keyColumns))

/-- The names under which a table stores the columns of a key. A name that no column has is stored
as well. -/
def storedKey (t : Table) (key : PrimaryKey) : List String :=
  key.columns.map (storedName t.columns)

/-- Whether, among columns of these names, the key `new` may take the place of the key `old`: it
drops no column, and of each name that it takes up there is a single column. Both conditions can be
decided from names. -/
structure Grows (names old new : List String) : Prop where
  keeps : ∀ name ∈ names, name ∈ old → name ∈ new
  single : ∀ name ∈ new, name ∉ old → ¬ names.Duplicate name

/-- The table has the key with its columns under their stored names. The key before it is gone. -/
theorem primaryKey_markPrimaryKey (t : Table) (key : PrimaryKey) :
    (t.markPrimaryKey key).primaryKey = some { key with columns := t.storedKey key } := by
  rw [markPrimaryKey, resolveKey_eq]
  rfl

/-- The key of a table that has been marked is the stored one, spelled as the columns are. -/
theorem keyColumns_markPrimaryKey (t : Table) (key : PrimaryKey) :
    (t.markPrimaryKey key).keyColumns = t.storedKey key := by
  rw [keyColumns, primaryKey_markPrimaryKey]
  rfl

/-- The columns that the key finds are flagged, and the others are as before. In particular no flag
is taken back. -/
theorem columns_markPrimaryKey (t : Table) (key : PrimaryKey) :
    (t.markPrimaryKey key).columns =
      t.columns.mapIdx fun i c => if Finds key.columns t.columns i c then c.asKey else c := by
  rw [markPrimaryKey, resolveKey_eq]

/-- A key does not rename columns. -/
theorem columnNames_markPrimaryKey (t : Table) (key : PrimaryKey) :
    (t.markPrimaryKey key).columnNames = t.columnNames := by
  rw [columnNames, columnNames, columns_markPrimaryKey, map_name_mapIdx_asKey]

/-- The names of columns that a key stores are those of the columns that it finds. The column that
is found need not be the one at the place, if two have the same name. -/
theorem name_mem_storedKey_iff (t : Table) (key : PrimaryKey) {i : Nat}
    (hi : i < t.columns.length) :
    t.columns[i].name ∈ t.storedKey key ↔
      ∃ j, ∃ hj : j < t.columns.length,
        t.columns[j].name = t.columns[i].name ∧ Finds key.columns t.columns j t.columns[j] := by
  rw [storedKey, List.mem_map]
  constructor
  · rintro ⟨name, hname, hstored⟩
    rcases storedName_cases t.columns name with ⟨j, hj, hfound, heq, hfirst⟩ | ⟨hself, hno⟩
    · exact ⟨j, hj, hfound.trans hstored, ⟨name, hname, heq⟩, hfirst⟩
    · -- The name is stored as it is, so no column has it, not even this one.
      have hthis := hno _ (List.getElem_mem hi)
      rw [← hstored, hself, eqIgnoreCase_refl] at hthis
      exact Bool.noConfusion hthis
  · rintro ⟨j, hj, hsame, ⟨name, hname, heq⟩, hfirst⟩
    have hfind : (t.columns.map (·.name)).find? (eqIgnoreCase · name) = some t.columns[j].name := by
      refine List.find?_eq_some_iff_getElem.2 ⟨heq, j, by simpa using hj, by simp, fun k hk => ?_⟩
      have hnot := hfirst t.columns[k] (List.mem_take_iff_getElem.2 ⟨k, by omega, rfl⟩)
      rw [eqIgnoreCase_congr heq] at hnot
      simpa using hnot
    exact ⟨name, hname, by rw [storedName, hfind, Option.getD_some, hsame]⟩

/-- Where the flags agree after a key, by the position of the column. This is the condition before
anything is known about the flags that were there. -/
theorem flagsAgree_markPrimaryKey_iff_getElem (t : Table) (key : PrimaryKey) :
    (t.markPrimaryKey key).FlagsAgree ↔
      ∀ i, ∀ hi : i < t.columns.length,
        (t.columns[i].inPrimaryKey = true ∨ Finds key.columns t.columns i t.columns[i]) ↔
          t.columns[i].name ∈ t.storedKey key := by
  -- A flag is set by the call or was set before it, and the call does not touch the name.
  have hflag (i : Nat) (c : Column) :
      ((if Finds key.columns t.columns i c then c.asKey else c).inPrimaryKey = true ↔
        c.inPrimaryKey = true ∨ Finds key.columns t.columns i c) ∧
      (if Finds key.columns t.columns i c then c.asKey else c).name = c.name := by
    split <;> simp [Column.asKey, *]
  rw [FlagsAgree, keyColumns_markPrimaryKey, columns_markPrimaryKey]
  simp only [List.mem_mapIdx, forall_exists_index]
  constructor
  · intro h i hi
    have hcolumn := h _ i hi rfl
    rwa [(hflag i _).1, (hflag i _).2] at hcolumn
  · rintro h _ i hi rfl
    rw [(hflag i _).1, (hflag i _).2]
    exact h i hi

/-- A name that several columns have, by the positions of two of them. Which two positions these are
does not matter. -/
theorem duplicate_columnNames_iff (t : Table) (name : String) :
    t.columnNames.Duplicate name ↔
      ∃ i j, ∃ hij : i < j, ∃ hj : j < t.columns.length,
        t.columns[i].name = name ∧ t.columns[j].name = name := by
  rw [List.duplicate_iff_exists_distinct_get]
  constructor
  · rintro ⟨⟨i, hi⟩, ⟨j, hj⟩, hij, hfirst, hsecond⟩
    exact ⟨i, j, hij, by simpa [columnNames] using hj, by simpa [columnNames] using hfirst.symm,
      by simpa [columnNames] using hsecond.symm⟩
  · rintro ⟨i, j, hij, hj, rfl, hsecond⟩
    have hlength : t.columnNames.length = t.columns.length := by simp [columnNames]
    exact ⟨⟨i, by omega⟩, ⟨j, by omega⟩, hij, by simp [columnNames],
      by simpa [columnNames] using hsecond.symm⟩

/-- **One key keeps the agreement** exactly if it drops no column of the key before it and takes up
no name that several columns have. -/
theorem flagsAgree_markPrimaryKey_iff {t : Table} (h : t.FlagsAgree) (key : PrimaryKey) :
    (t.markPrimaryKey key).FlagsAgree ↔ Grows t.columnNames t.keyColumns (t.storedKey key) := by
  have hflag (i : Nat) (hi : i < t.columns.length) :
      t.columns[i].inPrimaryKey = true ↔ t.columns[i].name ∈ t.keyColumns :=
    h _ (List.getElem_mem hi)
  rw [flagsAgree_markPrimaryKey_iff_getElem]
  constructor
  · intro hagree
    refine ⟨fun name hname hold => ?_, fun name hnew hold htwice => ?_⟩
    · obtain ⟨c, hc, rfl⟩ := List.mem_map.1 hname
      obtain ⟨i, hi, rfl⟩ := List.getElem_of_mem hc
      exact (hagree i hi).1 (.inl ((hflag i hi).2 hold))
    · -- The second column of the name would have to be found, behind the first one.
      obtain ⟨i, j, hij, hj, hfirst, rfl⟩ := (t.duplicate_columnNames_iff name).1 htwice
      rcases (hagree j hj).2 hnew with hflagged | ⟨-, hnone⟩
      · exact hold ((hflag j hj).1 hflagged)
      · have hdifferent := hnone t.columns[i] (List.mem_take_iff_getElem.2 ⟨i, by omega, rfl⟩)
        rw [hfirst, eqIgnoreCase_refl] at hdifferent
        exact Bool.noConfusion hdifferent
  · rintro ⟨hkeeps, hsingle⟩ i hi
    constructor
    · -- A column that is flagged was in the key before, or is found by this one.
      rintro (hflagged | hfinds)
      · exact hkeeps _ (List.mem_map_of_mem (List.getElem_mem hi)) ((hflag i hi).1 hflagged)
      · exact (t.name_mem_storedKey_iff key hi).2 ⟨i, hi, rfl, hfinds⟩
    · intro hnew
      by_cases hold : t.columns[i].name ∈ t.keyColumns
      · exact .inl ((hflag i hi).2 hold)
      · -- The column that is found has the same name, so it is this one.
        obtain ⟨j, hj, hsame, hfinds⟩ := (t.name_mem_storedKey_iff key hi).1 hnew
        have honce := mt (t.duplicate_columnNames_iff _).2 (hsingle _ hnew hold)
        obtain hlt | rfl | hgt := Nat.lt_trichotomy i j
        · exact absurd ⟨i, j, hlt, hj, rfl, hsame⟩ honce
        · exact .inr hfinds
        · exact absurd ⟨j, i, hgt, hi, hsame, rfl⟩ honce

/-! ### Many keys -/

/-- The table after it has been given several keys, one after another. A table gets one from its
definition, and more by changes. -/
def markPrimaryKeys (t : Table) (keys : List PrimaryKey) : Table := keys.foldl markPrimaryKey t

/-- The names of a key are stored in the same way among columns of the same names. Only the names of
the columns are looked at. -/
theorem storedKey_congr {t u : Table} (h : t.columnNames = u.columnNames) (key : PrimaryKey) :
    t.storedKey key = u.storedKey key := by
  rw [columnNames, columnNames] at h
  refine List.map_congr_left fun name _ => ?_
  rw [storedName, storedName, h]

/-- The names of a key are stored in the same way before and after another key. -/
theorem storedKey_markPrimaryKey (t : Table) (key other : PrimaryKey) :
    (t.markPrimaryKey key).storedKey other = t.storedKey other :=
  storedKey_congr (t.columnNames_markPrimaryKey key) other

/-- **The flags of the columns agree with the key after every one of a sequence of keys** exactly if
they do so at the beginning and each key, as the table stores it, drops no column of the one before
it and takes up no name that several columns have. -/
theorem flagsAgree_markPrimaryKeys_iff (t : Table) (keys : List PrimaryKey) :
    (∀ calls, calls <+: keys → (t.markPrimaryKeys calls).FlagsAgree) ↔
      t.FlagsAgree ∧
        List.IsChain (Grows t.columnNames) (t.keyColumns :: keys.map t.storedKey) := by
  induction keys generalizing t with
  | nil => simp [markPrimaryKeys]
  | cons key keys ih =>
      have hcalls : (∀ calls, calls <+: key :: keys → (t.markPrimaryKeys calls).FlagsAgree) ↔
          t.FlagsAgree ∧ ∀ calls, calls <+: keys →
            ((t.markPrimaryKey key).markPrimaryKeys calls).FlagsAgree := by
        constructor
        · intro h
          refine ⟨h [] List.nil_prefix, fun calls hcalls => ?_⟩
          exact h (key :: calls) (List.cons_prefix_cons.2 ⟨rfl, hcalls⟩)
        · rintro ⟨hnone, hsome⟩ calls hcalls
          cases calls with
          | nil => exact hnone
          | cons call calls =>
              obtain ⟨rfl, hrest⟩ := List.cons_prefix_cons.1 hcalls
              exact hsome calls hrest
      -- The columns keep their names, so all keys are stored as they would be at the beginning.
      have hstored : (t.markPrimaryKey key).storedKey = t.storedKey :=
        funext (t.storedKey_markPrimaryKey key)
      rw [hcalls, ih, columnNames_markPrimaryKey, keyColumns_markPrimaryKey, hstored, List.map_cons,
        List.isChain_cons_cons]
      refine and_congr_right fun h => ?_
      rw [flagsAgree_markPrimaryKey_iff h]

/-- A table whose key is the first of its two columns. The flag of the first column agrees with the
key. -/
def exampleReplacement : Table where
  name := "t"
  columns := [(Column.ofType "a" "INT").asKey, .ofType "b" "INT"]
  primaryKey := some { columns := ["a"] }

/-- A key that replaces another one leaves the column of that one flagged. So the flags are those of
two keys afterwards, of which the table has only one. -/
theorem not_flagsAgree_exampleReplacement :
    exampleReplacement.FlagsAgree ∧
      (exampleReplacement.markPrimaryKeys [{ columns := ["b"] }]).keyColumns = ["b"] ∧
      ¬ (exampleReplacement.markPrimaryKeys [{ columns := ["b"] }]).FlagsAgree := by
  decide

end EntityDiagram.Table
