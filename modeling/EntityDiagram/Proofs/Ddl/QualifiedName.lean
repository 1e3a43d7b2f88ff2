import EntityDiagram.Proofs.Ddl.Continuation
import EntityDiagram.Proofs.Ddl.Soundness
import EntityDiagram.Proofs.Sql.Name

/-!
# `EntityDiagram.Proofs.Ddl.QualifiedName`: a table is found under the name it was stored with

The tolerant reader takes a qualified name apart and hands it on with every part in double quotes.
A table is stored under the last part as it stands. A key or an index that is to be added to it is
looked up under the last segment of the quoted name, which another scan takes apart again.

`Step.Concerns` says that a step names its table in this way. Each reader of statements makes only
such steps, and `quoteParts_names_table` says that both names are the same, with the dots and white
space that the parts may hold.

The two scans disagree on nothing but quotes: one works on tokens, where the parts have been taken
apart by the lexer, and the other one on characters, where dots and spaces in a quoted part have to
be told from those between the parts. What is asked of the parts is that they hold no quotation
mark; that is enough, and nothing is asked of their length, of the letters in them or of how many
there are.
-/

set_option autoImplicit false

namespace EntityDiagram

/-- The steps by which a statement speaks of the table that it calls by these parts. -/
def Step.Concerns (parts : List String) : Step → Prop
  | .addTable qualified t => qualified = Sql.quoteParts parts ∧ t.name = Ddl.lastPart parts
  | .addForeignKey key => key.fromTable = Ddl.lastPart parts
  | .setPrimaryKey qualified _ => qualified = Sql.quoteParts parts
  | .addIndex qualified _ => qualified = Sql.quoteParts parts
  -- Views and warnings are about no table.
  | .addView _ => True
  | .warn _ => True

namespace Step.Concerns

variable {parts : List String} {s : Step} (hs : s.Concerns parts)
include hs

/-- A table is stored under the last part of its name. -/
theorem name_table {t : Table} (ht : t ∈ s.table?) :
    s.qualified? = some (Sql.quoteParts parts) ∧ t.name = Ddl.lastPart parts := by
  cases s with
  | addTable qualified stored =>
      obtain ⟨rfl, hname⟩ := hs
      obtain rfl := Option.some.inj ht
      exact ⟨rfl, hname⟩
  | _ => cases ht

/-- A change is looked up under the last part of the name, if quoting keeps that part. -/
theorem table_change (hobject : Sql.objectName (Sql.quoteParts parts) = Ddl.lastPart parts)
    {c : Change} (hc : c ∈ s.change?) : c.table = Ddl.lastPart parts := by
  cases s with
  | addForeignKey key =>
      obtain rfl := Option.some.inj hc
      exact hs
  | setPrimaryKey qualified key =>
      obtain rfl := Option.some.inj hc
      obtain rfl : qualified = Sql.quoteParts parts := hs
      exact hobject
  | addIndex qualified index =>
      obtain rfl := Option.some.inj hc
      obtain rfl : qualified = Sql.quoteParts parts := hs
      exact hobject
  | _ => cases hc

end Step.Concerns

namespace Ddl

/-! ### What the readers make -/

/-- The one step of a table definition adds a table of that name, or warns that it could not. -/
theorem concerns_createTable {parts : List String} {ts rest : List Token}
    {read : Reading (List Step)} (hname : qualifiedName? (skipIfNotExists ts) = some (parts, rest))
    (h : createTable ts = .ok read) : ∀ s ∈ read.1, s.Concerns parts := by
  unfold createTable at h
  rw [hname] at h
  dsimp only at h
  split at h
  · obtain ⟨body, hbody, rfl⟩ := map_eq_ok h
    obtain ⟨elements, -, rfl⟩ := map_eq_ok hbody
    intro s hs
    obtain rfl := List.mem_singleton.1 hs
    exact ⟨rfl, TableReading.name_toTable _ _⟩
  · cases h
    intro s hs
    obtain rfl := List.mem_singleton.1 hs
    trivial

/-- An index is added to the table that `ON` names, and not to one of the name of the index. The two
names are the two places where a name may stand in the statement. -/
theorem concerns_createIndex {parts : List String} {ts rest left : List Token} (unique : Bool)
    (hindex : (indexName (skipIfNotExists (dropWord "CONCURRENTLY" ts))).2 = .keyword .on :: rest)
    (hname : qualifiedName? (dropWord "ONLY" rest) = some (parts, left)) :
    ∀ s ∈ (createIndex unique ts).1, s.Concerns parts := by
  unfold createIndex
  dsimp only
  rw [hindex]
  dsimp only
  rw [hname]
  intro s hs
  obtain rfl := List.mem_singleton.1 hs
  rfl

/-- A foreign key starts from the last part of the name; keys and indexes keep the whole of it,
until the tables of the script are known. -/
theorem concerns_addition (parts : List String) (ts : List Token) :
    ∀ s ∈ (addition parts ts).1, s.Concerns parts := by
  unfold addition
  dsimp only
  split
  · intro s hs
    obtain ⟨key, hkey, rfl⟩ := List.mem_map.1 hs
    exact (startsFrom_foreignKey _ _ _ key (Option.mem_toList.1 hkey)).fromTable
  · intro s hs; obtain rfl := List.mem_singleton.1 hs; rfl
  · intro s hs; obtain rfl := List.mem_singleton.1 hs; rfl
  · intro s hs; obtain rfl := List.mem_singleton.1 hs; rfl
  · intro s hs; obtain rfl := List.mem_singleton.1 hs; rfl
  · simp

/-- All operations of a statement are on the table that it names. -/
theorem concerns_operations (parts : List String) (ts : List Token) :
    ∀ s ∈ (operations parts ts).1, s.Concerns parts := by
  fun_induction operations parts ts with
  | case1 => simp
  | case2 => simp
  | case3 t rest _ _ ih => exact ih
  | case4 t rest _ _ _ added more ih =>
      intro s hs
      rcases List.mem_append.1 hs with hs | hs
      · exact concerns_addition parts rest s hs
      · exact ih s hs
  | case5 t rest _ _ _ ih => exact ih

/-! ### Stored and looked up -/

/-- **A name that is quoted again is the name of the same table.** Take the parts of a name, of
which none holds a quotation mark. In double quotes they name the last part as the table and the one
before it as the schema. So whatever a script adds to the table, by an alteration or by the
declaration of an index, is looked up under the name with which the definition of the table stores
it. -/
theorem quoteParts_names_table {parts : List String} (hne : parts ≠ [])
    (hplain : ∀ part ∈ parts, ∀ c ∈ part.toList, Sql.isQuoteMark c = false) :
    Sql.objectName (Sql.quoteParts parts) = parts.getLast hne ∧
    Sql.schemaPart (Sql.quoteParts parts) = parts.reverse[1]? ∧
    (∀ ts rest read, qualifiedName? (skipIfNotExists ts) = some (parts, rest) →
      createTable ts = .ok read → ∀ s ∈ read.1, ∀ t ∈ s.table?,
        s.qualified? = some (Sql.quoteParts parts) ∧ t.name = parts.getLast hne) ∧
    (∀ ts, ∀ s ∈ (operations parts ts).1, ∀ c ∈ s.change?, c.table = parts.getLast hne) ∧
    (∀ unique ts rest left,
      (indexName (skipIfNotExists (dropWord "CONCURRENTLY" ts))).2 = .keyword .on :: rest →
      qualifiedName? (dropWord "ONLY" rest) = some (parts, left) →
      ∀ s ∈ (createIndex unique ts).1, ∀ c ∈ s.change?, c.table = parts.getLast hne) := by
  have hobject := Sql.objectName_quoteParts hne hplain
  -- The reader takes the last part directly, and the assembly takes it from the quoted name. Both
  -- are the same part.
  have hlast : lastPart parts = parts.getLast hne := by
    rw [lastPart, List.getLast?_eq_some_getLast hne, Option.getD_some]
  rw [← hlast] at hobject ⊢
  refine ⟨hobject, Sql.schemaPart_quoteParts hne hplain, ?_, ?_, ?_⟩
  · intro ts rest read hname hread s hs t ht
    exact (concerns_createTable hname hread s hs).name_table ht
  · intro ts s hs c hc
    exact (concerns_operations parts ts s hs).table_change hobject hc
  · intro unique ts rest left hindex hname s hs c hc
    exact (concerns_createIndex unique hindex hname s hs).table_change hobject hc

/-- A name with a dot in its schema, an empty part and a space. -/
def exampleParts : List String := ["my.shop", "", "order items"]

/-- The table `order items` gets the key that is added to it under these parts. A part with a blank
in it needs its quotes, and an empty part is kept as one. -/
theorem quoteParts_names_table_exampleParts :
    (exampleParts ≠ [] ∧
      ∀ part ∈ exampleParts, ∀ c ∈ part.toList, Sql.isQuoteMark c = false) ∧
    Sql.objectName (Sql.quoteParts exampleParts) = "order items" ∧
    Sql.schemaPart (Sql.quoteParts exampleParts) = some "" ∧
    ∀ ts, ∀ s ∈ (operations exampleParts ts).1, ∀ c ∈ s.change?, c.table = "order items" := by
  have hne : exampleParts ≠ [] := by decide
  have hplain : ∀ part ∈ exampleParts, ∀ c ∈ part.toList, Sql.isQuoteMark c = false := by
    simp [exampleParts, Sql.isQuoteMark]
  obtain ⟨hobject, hschema, -, hchange, -⟩ := quoteParts_names_table hne hplain
  exact ⟨⟨hne, hplain⟩, hobject, hschema, hchange⟩

end Ddl

end EntityDiagram
