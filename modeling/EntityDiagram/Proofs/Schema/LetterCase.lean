import EntityDiagram.Proofs.Schema.KeyFlags
import Mathlib.Data.List.Forall2

/-!
# `EntityDiagram.Proofs.Schema.LetterCase`: names in another letter case

`SameWords` compares lists of names one by one, ASCII case aside, `Known` says that they are all
declared. A table finds its columns under names in any letter case and stores a primary key under
the declared names:

* `map_storedName_eq`: what a table makes of names in another letter case are the declared ones.
* `sameKnown_storedKey`: a primary key is stored in the same way in any letter case, except for
  names that no column has.
* `columns_markPrimaryKey_congr`: and it flags the same columns.
-/

set_option autoImplicit false

namespace EntityDiagram.Table

open Text (eqIgnoreCase)

/-! ### Names in another letter case -/

/-- Whether the lists hold the same names one by one, ASCII case aside. Their order counts, and so
does how often a name stands in them. -/
def SameWords (names names' : List String) : Prop :=
  List.Forall₂ (fun name name' => eqIgnoreCase name name' = true) names names'

/-- Whether the name is none of the declared ones, ASCII case aside. Such a name is stored as it is
written. -/
def Unknown (declared : List String) (name : String) : Prop :=
  ∀ other ∈ declared, eqIgnoreCase other name = false

/-- Whether all names are declared ones, ASCII case aside. Then all of them are stored in the
spelling of the declared ones. -/
def Known (declared names : List String) : Prop :=
  ∀ name ∈ names, ∃ other ∈ declared, eqIgnoreCase other name = true

/-- Two lists of names are compared name by name. -/
instance (names names' : List String) : Decidable (SameWords names names') :=
  inferInstanceAs (Decidable (List.Forall₂ _ names names'))

/-- For each name, the declared ones are looked through. -/
instance (declared names : List String) : Decidable (Known declared names) :=
  inferInstanceAs (Decidable (∀ name ∈ names, _))

/-- Declared names are known. -/
theorem known_of_subset {declared names : List String} (h : names ⊆ declared) :
    Known declared names := fun name hname => ⟨name, h hname, eqIgnoreCase_refl name⟩

/-- A name in another letter case is none of the declared ones either. So being unknown does not
depend on the spelling. -/
theorem unknown_congr {name name' : String} (h : eqIgnoreCase name name' = true)
    (declared : List String) : Unknown declared name ↔ Unknown declared name' := by
  simp only [Unknown, eqIgnoreCase_congr h]

/-- Names are themselves, case aside. -/
theorem SameWords.refl (names : List String) : SameWords names names :=
  List.forall₂_same.2 fun name _ => eqIgnoreCase_refl name

namespace SameWords

variable {names names' : List String} (h : SameWords names names')
include h

/-- Names in another letter case are known where the names are. -/
theorem known_iff (declared : List String) : Known declared names ↔ Known declared names' := by
  induction h with
  | nil => rfl
  | cons heq _ ih =>
      simp only [Known, List.forall_mem_cons, eqIgnoreCase_congr heq] at ih ⊢
      rw [ih]

/-- A name is among names in whatever letter case these are given. This covers questions such as
whether a column is a source of a foreign key. -/
theorem exists_iff (name : String) :
    (∃ other ∈ names, eqIgnoreCase name other = true) ↔
      ∃ other ∈ names', eqIgnoreCase name other = true := by
  induction h with
  | nil => rfl
  | cons heq _ ih => simp only [List.exists_mem_cons_iff, eqIgnoreCase_congr heq, ih]

end SameWords

/-- What a name is stored as does not depend on its letter case if a column has it, and a name that
no column has stays one. In the second case the two are stored in different spellings. -/
theorem storedName_congr {name name' : String} (h : eqIgnoreCase name name' = true)
    (t : Table) :
    (storedName t.columns name = storedName t.columns name' ∧
        storedName t.columns name ∈ t.columnNames) ∨
      (Unknown t.columnNames (storedName t.columns name) ∧
        Unknown t.columnNames (storedName t.columns name')) := by
  -- Both spellings find the same column, or neither finds one.
  have hfind : t.columnNames.find? (eqIgnoreCase · name') =
      t.columnNames.find? (eqIgnoreCase · name) := by
    simp only [eqIgnoreCase_congr h]
  rw [columnNames] at hfind ⊢
  rw [storedName, storedName, hfind]
  cases hfound : (t.columns.map (·.name)).find? (eqIgnoreCase · name) with
  | some found => exact .inl ⟨rfl, List.mem_of_find?_eq_some hfound⟩
  | none =>
      have hunknown : Unknown (t.columns.map (·.name)) name := fun other hother => by
        simpa using List.find?_eq_none.1 hfound other hother
      exact .inr ⟨hunknown, (unknown_congr h _).1 hunknown⟩

section Distinct
variable {t : Table} (hdistinct : DistinctNames t.columnNames)
include hdistinct

/-- The name of a column is found under any spelling. There is just one column that equals it, since
no two names of columns differ in case only. -/
theorem storedName_eq {name name' : String} (hname : name ∈ t.columnNames)
    (h : eqIgnoreCase name name' = true) : storedName t.columns name' = name := by
  -- Among distinct names, whatever column is found first is the one of this name.
  rcases storedName_cases t.columns name' with ⟨j, hj, hfound, heq, -⟩ | ⟨-, hno⟩
  · rw [← hfound]
    refine hdistinct.eq_of_eqIgnoreCase (List.mem_map_of_mem (List.getElem_mem hj)) hname ?_
    rwa [eqIgnoreCase_congr h]
  · obtain ⟨c, hc, rfl⟩ := List.mem_map.1 hname
    rw [hno c hc] at h
    cases h

/-- The names of columns are found under any spelling. The key is then stored in one spelling,
whatever it was written in. -/
theorem map_storedName_eq {names names' : List String} (hnames : names ⊆ t.columnNames)
    (h : SameWords names names') : names'.map (storedName t.columns) = names := by
  induction h with
  | nil => rfl
  | cons hname _ ih =>
      obtain ⟨hdeclared, hrest⟩ := List.cons_subset.1 hnames
      rw [List.map_cons, storedName_eq hdistinct hdeclared hname, ih hrest]

/-- Names of columns have one spelling. They are then names of the same columns. -/
theorem SameWords.eq_of_subset {names names' : List String} (h : SameWords names names')
    (hnames : names ⊆ t.columnNames) (hnames' : names' ⊆ t.columnNames) : names' = names := by
  rw [← map_storedName_eq hdistinct hnames' (.refl names'), map_storedName_eq hdistinct hnames h]

end Distinct

/-! ### Primary keys in another letter case -/

/-- Whether two primary keys are the same, except for names that are none of the declared ones. The
names that are none of the declared ones may differ in more than their case here. -/
def SameKnown (declared key key' : List String) : Prop :=
  List.Forall₂
    (fun name name' => (name = name' ∧ name ∈ declared) ∨
      (Unknown declared name ∧ Unknown declared name')) key key'

namespace SameKnown

variable {declared key key' : List String}

/-- Neither key is the original. -/
theorem symm (h : SameKnown declared key key') : SameKnown declared key' key := by
  refine List.Forall₂.flip (h.imp ?_)
  rintro name name' (⟨rfl, hname⟩ | ⟨hunknown, hunknown'⟩)
  · exact .inl ⟨rfl, hname⟩
  · exact .inr ⟨hunknown', hunknown⟩

/-- Keys with known columns alone are the same in every respect. There is no name in them that could
differ. -/
theorem eq_of_known (h : SameKnown declared key key') (hknown : Known declared key) :
    key = key' ∧ key ⊆ declared := by
  induction h with
  | nil => exact ⟨rfl, List.nil_subset _⟩
  | cons hname _ ih =>
      obtain ⟨hhead, hrest⟩ := List.forall_mem_cons.1 hknown
      obtain ⟨heq, hsubset⟩ := ih hrest
      rcases hname with ⟨rfl, hname⟩ | ⟨hunknown, -⟩
      · exact ⟨by rw [heq], List.cons_subset.2 ⟨hname, hsubset⟩⟩
      · obtain ⟨other, hother, hsame⟩ := hhead
        rw [hunknown other hother] at hsame
        cases hsame

end SameKnown

/-- A table stores a key under the same names, in whatever letter case they are given. -/
theorem sameKnown_storedKey (t : Table) {key key' : PrimaryKey}
    (h : SameWords key.columns key'.columns) :
    SameKnown t.columnNames (t.storedKey key) (t.storedKey key') := by
  rw [SameKnown, storedKey, storedKey, List.forall₂_map_left_iff,
    List.forall₂_map_right_iff]
  exact h.imp fun _ _ heq => storedName_congr heq t

/-- A key flags the same columns, in whatever letter case its names are given. Flags are raised by
comparisons that ignore case. -/
theorem columns_markPrimaryKey_congr (t : Table) {key key' : PrimaryKey}
    (h : SameWords key.columns key'.columns) :
    (t.markPrimaryKey key).columns = (t.markPrimaryKey key').columns := by
  have hfinds : Finds key.columns t.columns = Finds key'.columns t.columns := by
    funext i c
    rw [Finds, Finds, h.exists_iff]
  rw [columns_markPrimaryKey, columns_markPrimaryKey]
  simp only [hfinds]

end EntityDiagram.Table
