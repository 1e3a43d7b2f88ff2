import EntityDiagram.Ddl.Script
import EntityDiagram.Proofs.Schema.Soundness

/-!
# `EntityDiagram.Proofs.Ddl.Soundness`: what the tolerant reader makes of any script

Whatever the tokens of a script are, every foreign key that the tolerant reader takes from them
starts from the table in whose definition, or in whose alteration, it stands, and the key of a table
is set when all its columns are known. Each reader has its lemma, and the last one, `sound_script`,
says that all steps of a script that is read are sound.

The lemmas follow the readers from the inside to the outside. What is proved of a reader is an
invariant of what it has read so far, `OwnKey` for a column and `OwnKeys` for a table body, and each
branch of the reader keeps it: most branches do not touch foreign keys, and those that do are given
the name of the table. No lemma asks anything of the tokens.

The same is said of the two other backends in `EntityDiagram.Proofs.Parsing.Soundness`, and what
follows for the schema, whatever the order of the steps, in `EntityDiagram.Proofs.Schema.Soundness`.
-/

set_option autoImplicit false

namespace EntityDiagram.Ddl

/-! ### Foreign keys -/

/-- An action says nothing about where a foreign key starts. -/
theorem startsFrom_setAction {table : String} {key : ForeignKey} (h : key.StartsFrom table)
    (event : KeyEvent) (action : String) : (setAction key event action).StartsFrom table := by
  cases event <;> exact ⟨h.fromTable, h.cardinality⟩

/-- Actions say what happens to a foreign key, and not whose it is. -/
theorem startsFrom_withActions {table : String} {key : ForeignKey} (h : key.StartsFrom table)
    (ts : List Token) : (withActions key ts).1.StartsFrom table := by
  fun_induction withActions key ts with
  | case1 key rest read event action hread ih => exact ih (startsFrom_setAction h event action)
  | case2 => exact h
  | case3 => exact h

/-- A foreign key that is read in a statement on a table starts from that table, since its name is
what the reader is given. -/
theorem startsFrom_foreignKey (table : String) (name : Option String) (ts : List Token) :
    ∀ key ∈ (foreignKey table name ts).1, key.StartsFrom table := by
  unfold foreignKey
  dsimp only
  split
  · split
    · rintro _ ⟨⟩
      refine startsFrom_withActions ?_ _
      exact ⟨rfl, rfl⟩
    · simp
  · simp

/-! ### Columns -/

namespace ColumnReading

/-- Whether the foreign key of a column, if it has one, starts from the table. -/
def OwnKey (table : String) (r : ColumnReading) : Prop :=
  ∀ key ∈ r.foreignKey, key.StartsFrom table

variable {table : String} {r : ColumnReading}

/-- A reference in a column definition is a foreign key of that one column, and of the table that it
stands in. -/
theorem OwnKey.reference (h : r.OwnKey table) (ts : List Token) :
    (r.reference table ts).1.OwnKey table := by
  unfold ColumnReading.reference
  split
  · intro key hkey
    obtain rfl := Option.some.inj hkey
    exact ⟨rfl, rfl⟩
  · exact h

/-- An action changes the foreign key that has been read, if there is one, and makes none. -/
theorem OwnKey.onEvent (h : r.OwnKey table) (ts : List Token) :
    (r.onEvent ts).1.OwnKey table := by
  unfold ColumnReading.onEvent
  dsimp only
  split
  · intro key hkey
    obtain ⟨before, hbefore, rfl⟩ := Option.map_eq_some_iff.1 hkey
    exact startsFrom_setAction (h before hbefore) _ _
  · exact h

/-- No word among the options makes a foreign key. -/
theorem OwnKey.word (h : r.OwnKey table) (w : String) (ts : List Token) :
    (r.word w ts).1.OwnKey table := by
  unfold ColumnReading.word
  repeat' split
  all_goals exact h

/-- No option of a column gives it a foreign key of another table. -/
theorem OwnKey.option (h : r.OwnKey table) (t : Token) (ts : List Token) :
    (r.option table t ts).1.OwnKey table := by
  -- Only `REFERENCES`, `ON` and the words that are no keywords touch the foreign key.
  unfold ColumnReading.option
  split
  · split <;> exact h
  · exact h
  · exact h
  · exact h
  · exact h
  · exact h.reference ts
  · exact h.onEvent ts
  · exact h
  · exact h
  · exact h
  · exact h.word _ ts
  · exact h

/-- The options of a column, one after the other, by induction along them. -/
theorem OwnKey.options (h : r.OwnKey table) (ts : List Token) :
    (r.options table ts).1.OwnKey table := by
  fun_induction ColumnReading.options table r ts with
  | case1 => exact h
  | case2 => exact h
  | case3 r t rest _ read ih => exact ih (h.option t rest)

end ColumnReading

/-- A column definition starts without a foreign key, so that the only one it can end with is its
own. -/
theorem ownKey_columnDefinition (table name : String) (ts : List Token) :
    (columnDefinition table name ts).1.OwnKey table :=
  ColumnReading.OwnKey.options (fun _ hkey => by cases hkey) _

/-! ### Tables -/

namespace TableReading

/-- Whether all foreign keys that have been read start from the table. -/
def OwnKeys (table : String) (r : TableReading) : Prop :=
  ∀ key ∈ r.foreignKeys, key.StartsFrom table

variable {table : String} {r : TableReading}

/-- Further foreign keys of the table. -/
theorem OwnKeys.append (h : r.OwnKeys table) {key : Option ForeignKey}
    (hkey : ∀ k ∈ key, k.StartsFrom table) :
    ∀ k ∈ r.foreignKeys ++ key.toList, k.StartsFrom table := by
  intro k hk
  rcases List.mem_append.1 hk with hk | hk
  · exact h k hk
  · exact hkey k (Option.mem_toList.1 hk)

/-- Of the elements that start with a name only columns may have a foreign key. -/
theorem OwnKeys.nameClause (h : r.OwnKeys table) (w : String) (ts : List Token) :
    (r.nameClause table w ts).1.OwnKeys table := by
  unfold TableReading.nameClause
  split
  · exact h
  · split
    · exact h
    · exact h.append (ownKey_columnDefinition table w ts)

/-- No element of a table body adds a foreign key of another table. -/
theorem OwnKeys.element (h : r.OwnKeys table) (t : Token) (ts : List Token) :
    (r.element table t ts).1.OwnKeys table := by
  unfold TableReading.element
  split
  · exact h
  · unfold TableReading.constraintName
    dsimp only
    split <;> exact h
  · exact h
  · exact h.append (startsFrom_foreignKey table r.constraint ts)
  · exact h
  · exact h
  · exact h
  · exact h.nameClause _ ts
  · exact h

/-- The elements of a table body, one after the other, by induction along them. -/
theorem OwnKeys.elements (h : r.OwnKeys table) {ts : List Token} {read : Reading TableReading}
    (hread : elements table r ts = .ok read) : read.1.OwnKeys table := by
  fun_induction TableReading.elements table r ts with
  | case1 => cases hread
  | case2 => cases hread; exact h
  | case3 => cases hread
  | case4 r t rest _ _ step ih => exact ih (h.element t rest) hread

/-- A body that holds foreign keys of its table alone makes a sound table. -/
theorem OwnKeys.sound_toTable (h : r.OwnKeys table) : (r.toTable table).Sound := by
  unfold toTable
  dsimp only
  split
  · refine Table.sound_markPrimaryKey ?_ _
    exact h
  · exact .of_primaryKey_eq_none rfl h

/-- What kind of table it is, is inferred later and never read. -/
theorem kind_toTable (r : TableReading) (name : String) : (r.toTable name).kind = none := by
  unfold toTable
  dsimp only
  split <;> rfl

end TableReading

/-- A table is sound once its body is read, and has no kind. -/
theorem sound_tableBody {name : String} {ts : List Token} {read : Reading Table}
    (h : tableBody name ts = .ok read) : read.1.Sound ∧ read.1.kind = none := by
  unfold tableBody at h
  cases hread : TableReading.elements name {} ts with
  | error e => rw [hread] at h; cases h
  | ok body =>
      rw [hread] at h
      cases h
      have hown : TableReading.OwnKeys name {} := fun _ hkey => by cases hkey
      exact ⟨(hown.elements hread).sound_toTable, body.1.kind_toTable name⟩

/-! ### Statements -/

/-- The only step of a table definition adds its table, and what the options say is put into the
comment alone. -/
theorem sound_createTable {ts : List Token} {read : Reading (List Step)}
    (h : createTable ts = .ok read) : ∀ s ∈ read.1, s.Sound := by
  unfold createTable at h
  split at h
  · cases h; simp
  · dsimp only at h
    split at h
    · rename_i parts _ inside _
      cases hbody : tableBody (lastPart parts) inside with
      | error e => rw [hbody] at h; cases h
      | ok body =>
          rw [hbody] at h
          cases h
          obtain ⟨hsound, hkind⟩ := sound_tableBody hbody
          intro s hs
          obtain rfl := List.mem_singleton.1 hs
          -- The comment is none of the parts that soundness is about.
          exact ⟨⟨hsound.foreignKeys, hsound.primaryKey⟩, hkind⟩
    · cases h
      intro s hs
      obtain rfl := List.mem_singleton.1 hs
      trivial

/-- A step that adds an index is sound whatever the index is. -/
theorem sound_createIndex (unique : Bool) (ts : List Token) :
    ∀ s ∈ (createIndex unique ts).1, s.Sound := by
  unfold createIndex
  dsimp only
  split
  · split
    · intro s hs
      obtain rfl := List.mem_singleton.1 hs
      trivial
    · simp
  · simp

/-- A step that adds a view is sound whatever its query is. -/
theorem sound_createView (ts : List Token) : ∀ s ∈ (createView ts).1, s.Sound := by
  unfold createView
  split
  · simp
  · intro s hs
    obtain rfl := List.mem_singleton.1 hs
    trivial

/-- Of what is added to a table only foreign keys have to be looked at, and those are the table's
own. -/
theorem sound_addition (parts : List String) (ts : List Token) :
    ∀ s ∈ (addition parts ts).1, s.Sound := by
  unfold addition
  dsimp only
  split
  · intro s hs
    obtain ⟨key, hkey, rfl⟩ := List.mem_map.1 hs
    exact (startsFrom_foreignKey _ _ _ key (Option.mem_toList.1 hkey)).cardinality
  · intro s hs; obtain rfl := List.mem_singleton.1 hs; trivial
  · intro s hs; obtain rfl := List.mem_singleton.1 hs; trivial
  · intro s hs; obtain rfl := List.mem_singleton.1 hs; trivial
  · intro s hs; obtain rfl := List.mem_singleton.1 hs; trivial
  · simp

/-- The operations on a table, one after the other, by induction along them. -/
theorem sound_operations (parts : List String) (ts : List Token) :
    ∀ s ∈ (operations parts ts).1, s.Sound := by
  fun_induction operations parts ts with
  | case1 => simp
  | case2 => simp
  | case3 t rest _ _ ih => exact ih
  | case4 t rest _ _ _ added more ih =>
      intro s hs
      rcases List.mem_append.1 hs with hs | hs
      · exact sound_addition parts rest s hs
      · exact ih s hs
  | case5 t rest _ _ _ ih => exact ih

/-- An alteration makes the steps of its operations, or none. -/
theorem sound_alter (ts : List Token) : ∀ s ∈ (alter ts).1, s.Sound := by
  unfold alter
  split
  · dsimp only
    split
    · exact sound_operations _ _
    · simp
  · simp

/-- Whatever is created, its steps are sound. -/
theorem sound_create {ts : List Token} {read : Reading (List Step)} (h : create ts = .ok read) :
    ∀ s ∈ read.1, s.Sound := by
  unfold create at h
  split at h
  · exact sound_createTable h
  · cases h; exact sound_createIndex true _
  · cases h; simp
  · cases h; exact sound_createIndex false _
  · cases h; exact sound_createView _
  · cases h; simp

/-- Every statement makes sound steps, or none at all. -/
theorem sound_statement {t : Token} {ts : List Token} {read : Reading (List Step)}
    (h : statement t ts = .ok read) : ∀ s ∈ read.1, s.Sound := by
  unfold statement at h
  split at h
  · exact sound_create h
  · cases h; exact sound_alter ts
  · cases h; simp
  · cases h; simp

/-- **Every step of a script is sound**, whatever its tokens are. -/
theorem sound_statements {ts : List Token} {steps : List Step} (h : statements ts = .ok steps) :
    ∀ s ∈ steps, s.Sound := by
  fun_induction statements ts generalizing steps with
  | case1 => cases h; simp
  | case2 => cases h; simp
  | case3 => cases h
  | case4 t rest _ read hread ih =>
      -- An error in a later statement is an error of the whole script, so nothing has to be shown
      -- for it.
      cases hrest : statements read.2 with
      | error e => rw [hrest] at h; cases h
      | ok more =>
          rw [hrest] at h
          cases h
          intro s hs
          rcases List.mem_append.1 hs with hs | hs
          · exact sound_statement hread s hs
          · exact ih hrest s hs

end EntityDiagram.Ddl
