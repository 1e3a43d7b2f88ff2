import EntityDiagram.Schema.Basic

/-!
# `EntityDiagram.Proofs.Schema.Key`: giving a table its primary key

`Table.markPrimaryKey` looks the names of a key up in the columns, one after the other and without
regard to ASCII case, and flags what it finds. Where the columns have different names and the key
names columns as they are declared, the lookup changes no name and the flags are those of the
key's columns: `markPrimaryKey_declared`.

This is the case of the tables that readers make out of statements which are well formed. What
becomes of a key whose names are in another letter case, or belong to no column, is told in
`EntityDiagram.Proofs.Schema.LetterCase`, and which flags a table keeps from an earlier key in
`EntityDiagram.Proofs.Schema.KeyFlags`.

* `DistinctNames`: the names differ in more than letter case. It can be decided, so that examples
  are checked by computation.
* `markPrimaryKey_declared`: the table with its key and its flags, as an equation.
-/

set_option autoImplicit false

namespace EntityDiagram.Table

open Text (eqIgnoreCase)

/-- Whether no two of the names differ only in ASCII case. This is what SQL asks of the columns of a
table. -/
def DistinctNames (names : List String) : Prop :=
  names.Pairwise fun a b => eqIgnoreCase a b = false

/-- Names are compared in pairs. -/
instance (names : List String) : Decidable (DistinctNames names) :=
  inferInstanceAs (Decidable (names.Pairwise fun a b => eqIgnoreCase a b = false))

/-- A name is itself, case aside. -/
theorem eqIgnoreCase_refl (name : String) : eqIgnoreCase name name = true := by
  simp [eqIgnoreCase]

/-- Comparison without regard to case is symmetric. -/
theorem eqIgnoreCase_comm (a b : String) : eqIgnoreCase a b = eqIgnoreCase b a := by
  rw [eqIgnoreCase, eqIgnoreCase, Bool.beq_comm]

/-- Distinct names do not repeat. The converse fails for names that differ in case only. -/
theorem DistinctNames.nodup {names : List String} (h : DistinctNames names) : names.Nodup := by
  refine List.Pairwise.imp ?_ h
  rintro a b hab rfl
  rw [eqIgnoreCase_refl] at hab
  exact Bool.noConfusion hab

/-- Among distinct names, a name is found only under itself. So lookups that ignore case and lookups
that do not find the same. -/
theorem DistinctNames.eq_of_eqIgnoreCase {names : List String} (h : DistinctNames names)
    {a b : String} (ha : a ∈ names) (hb : b ∈ names) (hab : eqIgnoreCase a b = true) : a = b := by
  induction names with
  | nil => simp at ha
  | cons name names ih =>
      obtain ⟨hname, hrest⟩ := List.pairwise_cons.1 h
      rcases List.mem_cons.1 ha with rfl | ha <;> rcases List.mem_cons.1 hb with hb | hb
      · exact hb.symm
      · rw [hname b hb] at hab
        exact Bool.noConfusion hab
      · rw [hb, eqIgnoreCase_comm, hname a ha] at hab
        exact Bool.noConfusion hab
      · exact ih hrest ha hb

/-- The columns with those flagged whose names are in the key. This is what marking a key should do,
without any order of the names. -/
def flagged (key : List String) (columns : List Column) : List Column :=
  columns.map fun c => if c.name ∈ key then c.asKey else c

/-- Flags leave the names of the columns as they are. -/
theorem map_name_flagged (key : List String) (columns : List Column) :
    (flagged key columns).map (·.name) = columns.map (·.name) := by
  rw [flagged, List.map_map]
  refine List.map_congr_left fun c _ => ?_
  show (if c.name ∈ key then c.asKey else c).name = c.name
  split <;> rfl

/-- The first column of a name is the only one. Marking stops at the first column that it finds, and
here there is no other one. -/
theorem flagFirst_declared {columns : List Column} (h : DistinctNames (columns.map (·.name)))
    {name : String} (hname : name ∈ columns.map (·.name)) :
    flagFirst (fun c => eqIgnoreCase c.name name) columns = flagged [name] columns := by
  induction columns with
  | nil => rfl
  | cons c columns ih =>
      have hhead := (List.pairwise_cons.1 h).1
      -- The lookup ignores case, the flags do not. Among distinct names this makes no difference.
      have heq : eqIgnoreCase c.name name = true → c.name = name :=
        h.eq_of_eqIgnoreCase (by simp) hname
      by_cases hc : c.name = name
      · -- No later column has the name, so nothing else is flagged on either side.
        have hrest : flagged [name] columns = columns := by
          refine (List.map_congr_left fun d hd => ?_).trans (List.map_id columns)
          have hne : d.name ≠ name := by
            intro hd'
            have hmem : d.name ∈ columns.map (·.name) := List.mem_map_of_mem hd
            have hnot : c.name ∉ columns.map (·.name) := (List.nodup_cons.1 h.nodup).1
            rw [hd', ← hc] at hmem
            exact hnot hmem
          simp [hne]
        have hflag : flagged [name] (c :: columns) = c.asKey :: flagged [name] columns := by
          simp [flagged, hc]
        rw [flagFirst, hc, if_pos (eqIgnoreCase_refl name), hflag, hrest]
      · have hname' : name ∈ columns.map (·.name) := by
          rcases List.mem_cons.1 hname with rfl | hname'
          · exact absurd rfl hc
          · exact hname'
        have hflag : flagged [name] (c :: columns) = c :: flagged [name] columns := by
          simp [flagged, hc]
        rw [flagFirst, if_neg (fun h' => hc (heq h')), ih (List.pairwise_cons.1 h).2 hname', hflag]

/-- Flags of two keys are the flags of both together. A column may be in both, and is flagged
once. -/
theorem flagged_flagged (key key' : List String) (columns : List Column) :
    flagged key (flagged key' columns) = flagged (key' ++ key) columns := by
  rw [flagged, flagged, flagged, List.map_map]
  refine List.map_congr_left fun c _ => ?_
  by_cases h : c.name ∈ key <;> by_cases h' : c.name ∈ key' <;> simp [h, h', Column.asKey]

/-- The names of a key are resolved to themselves, and its columns are flagged. The names are
resolved one after the other, among columns of which some are flagged already; their names have not
changed. -/
theorem resolveKey_declared {columns : List Column} (h : DistinctNames (columns.map (·.name)))
    {key : List String} (hkey : key ⊆ columns.map (·.name)) :
    resolveKey key columns = (key, flagged key columns) := by
  induction key generalizing columns with
  | nil => simp [resolveKey, flagged]
  | cons name key ih =>
      obtain ⟨hname, hkey⟩ := List.cons_subset.1 hkey
      -- The name that is found is the name that is looked up.
      have hresolved : ((columns.find? fun c => eqIgnoreCase c.name name).map (·.name)).getD name =
          name := by
        cases hfind : columns.find? fun c => eqIgnoreCase c.name name with
        | none => rfl
        | some c =>
            have hc : c.name ∈ columns.map (·.name) :=
              List.mem_map_of_mem (List.mem_of_find?_eq_some hfind)
            have hfound : eqIgnoreCase c.name name = true := by simpa using List.find?_some hfind
            exact h.eq_of_eqIgnoreCase hc hname hfound
      rw [resolveKey, hresolved, flagFirst_declared h hname,
        ih (by rwa [map_name_flagged]) (by rwa [map_name_flagged]), flagged_flagged]
      rfl

/-- A key that names columns as they are declared is kept as it is, and its columns are flagged. A
key before it leaves its flags, so this is all there is to say only if no column was flagged. -/
theorem markPrimaryKey_declared (t : Table) (h : DistinctNames (t.columns.map (·.name)))
    {key : PrimaryKey} (hkey : key.columns ⊆ t.columns.map (·.name)) :
    t.markPrimaryKey key =
      { t with columns := flagged key.columns t.columns, primaryKey := some key } := by
  rw [markPrimaryKey, resolveKey_declared h hkey]

end EntityDiagram.Table
