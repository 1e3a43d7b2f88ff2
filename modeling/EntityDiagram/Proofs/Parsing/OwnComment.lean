import EntityDiagram.Proofs.Parsing.Fallback
import EntityDiagram.Proofs.Schema.Interleaving
import EntityDiagram.Statement.Grammar

/-!
# `EntityDiagram.Proofs.Parsing.OwnComment`: whose comment a table gets

The statements of a grammar need not carry the comments of their tables. Such a comment is looked
for in the text by a scan, and what the scan finds is matched with the statements by the last
segment of the name alone. `Entry` says how the two readings of a script belong together, so that
each definition has a comment of its own.

* `map_comment_settle`, `addedTables_steps`: the comments of the tables are those with which the
  statements add them.
* `lookup_tableComments`: a name is looked up among all that the scan finds.
* `exists_read_comments`: the main statement. A table gets the first comment that is written for any
  table of its last name, so its own exactly if that one is its own.
-/

set_option autoImplicit false

namespace EntityDiagram

open Excerpt (RawTable)
open Statement (CreateTable)

/-! ### The two readings of a script -/

namespace Parsing

/-- The definition of a table, and what a scan of the text cuts out for it, unless it misses it. -/
structure Definition where
  create : CreateTable
  cutOut : Option RawTable
  sameName : ∀ raw ∈ cutOut,
    Sql.objectName raw.qualifiedName = Sql.objectName create.name.text

namespace Definition

/-- The last segment of the name. -/
def name (d : Definition) : String := Sql.objectName d.create.name.text

/-- The comment that the text gives the table. -/
def written (d : Definition) : Option String := d.cutOut.bind (·.comment)

/-- The comment of the statement or, failing that, the one that the text gives this table. -/
def ownComment (d : Definition) : Option String := d.create.comment.or d.written

end Definition

/-- What is a table to one of the two readings of a script. -/
inductive Entry where
  | defined (d : Definition)
  /-- What only the scan takes for a definition. -/
  | stray (raw : RawTable)

namespace Entry

/-- The definition that is read as a statement. A scan may also cut out something that is none. -/
def definition? : Entry → Option Definition
  | .defined d => some d
  | .stray _ => none

/-- The table that a scan cuts out. -/
def cutOut? : Entry → Option RawTable
  | .defined d => d.cutOut
  | .stray raw => some raw

/-- The last segment of the name. -/
def name : Entry → String
  | .defined d => d.name
  | .stray raw => Sql.objectName raw.qualifiedName

/-- The comment that the text gives the entry. -/
def written (e : Entry) : Option String := e.cutOut?.bind (·.comment)

end Entry

/-- The definitions among the entries. -/
def definitions (entries : List Entry) : List Definition := entries.filterMap Entry.definition?

/-- The comment that is written first for a table of this last name. -/
def firstWritten (entries : List Entry) (name : String) : Option String :=
  entries.findSome? fun e => if e.name = name then e.written else none

end Parsing

/-- The definition that a statement is. -/
def Statement.create? : Statement → Option CreateTable
  | .createTable create => some create
  | _ => none

namespace Parsing

/-- Whether the entries are what the two readings of a script find, each in its order. -/
structure Entries (sql : String) (statements : List Statement) (entries : List Entry) : Prop where
  creates : statements.filterMap Statement.create? = (definitions entries).map (·.create)
  cutOuts : Excerpt.scanTables sql = entries.filterMap Entry.cutOut?

/-! ### Comments in the text -/

/-- An entry goes by one name in both readings. -/
theorem Entry.objectName_cutOut (e : Entry) :
    ∀ raw ∈ e.cutOut?, Sql.objectName raw.qualifiedName = e.name := by
  intro raw hraw
  cases e with
  | defined d => exact d.sameName raw hraw
  | stray raw' =>
      obtain rfl := Option.some.inj hraw
      rfl

/-- A comment is looked up by name among all that the scan finds. -/
theorem lookup_tableComments {sql : String} {entries : List Entry}
    (h : Excerpt.scanTables sql = entries.filterMap Entry.cutOut?) (name : String) :
    (Statement.tableComments sql).lookup name = firstWritten entries name := by
  rw [Statement.tableComments, h]
  clear h
  induction entries with
  | nil => rfl
  | cons e entries ih =>
      rw [firstWritten, List.findSome?_cons, ← firstWritten, ← ih]
      cases hraw : e.cutOut? with
      | none =>
          have hwritten : e.written = none := by rw [Entry.written, hraw]; rfl
          rw [List.filterMap_cons_none hraw, hwritten, ite_self]
      | some raw =>
          have hname := e.objectName_cutOut raw hraw
          have hwritten : e.written = raw.comment := by rw [Entry.written, hraw]; rfl
          rw [List.filterMap_cons_some hraw, List.filterMap_cons, hwritten, hname]
          cases hcomment : raw.comment with
          | none => simp
          | some text =>
              -- Only an entry with both the name and a comment is found. Any other one is passed
              -- over on both sides.
              by_cases heq : e.name = name
              · simp [heq]
              · have hne : (name == e.name) = false := by simpa using Ne.symm heq
                simp [heq, List.lookup_cons, hne]

/-- No comment is found for a name that no entry has. -/
theorem firstWritten_of_notMem {entries : List Entry} {name : String}
    (h : name ∉ entries.map Entry.name) : firstWritten entries name = none := by
  rw [firstWritten, List.findSome?_eq_none_iff]
  intro e he
  rw [if_neg]
  rintro rfl
  exact h (List.mem_map_of_mem he)

/-- Among entries of different names each finds its own comment. -/
theorem firstWritten_of_nodup {entries : List Entry} (h : (entries.map Entry.name).Nodup)
    {e : Entry} (he : e ∈ entries) : firstWritten entries e.name = e.written := by
  induction entries with
  | nil => cases he
  | cons first entries ih =>
      rw [List.map_cons, List.nodup_cons] at h
      rw [firstWritten, List.findSome?_cons, ← firstWritten]
      rcases List.mem_cons.1 he with rfl | he
      · rw [if_pos rfl, firstWritten_of_notMem h.1]
        cases e.written <;> rfl
      · rw [if_neg, ih h.2 he]
        intro heq
        exact h.1 (heq ▸ List.mem_map_of_mem he)

end Parsing

/-! ### Comments of tables -/

/-- A change leaves the comment of its table as it is. -/
theorem Table.comment_withChanges (changes : List Change) (t : Table) :
    (t.withChanges changes).comment = t.comment := by
  exact congrArg (·.comment) (t.takesUp_foldl (changes.filter (·.table == t.name))).rest

/-- Settled tables keep their comments. -/
theorem map_comment_settle (changes : List Change) (ts : List Table) :
    (settle changes ts).map (·.comment) = ts.map (·.comment) := by
  induction ts generalizing changes with
  | nil => rfl
  | cons t ts ih => rw [settle, List.map_cons, Table.comment_withChanges, ih, List.map_cons]

namespace Statement

/-- A constraint of its definition leaves the name of a table as it is. -/
theorem name_applyConstraint (t : Table) (c : TableConstraint) :
    (applyConstraint t c).name = t.name := by
  cases c <;> rfl

/-- So do all constraints. -/
theorem name_applyConstraints (t : Table) (constraints : List TableConstraint) :
    (constraints.foldl applyConstraint t).name = t.name := by
  induction constraints generalizing t with
  | nil => rfl
  | cons c constraints ih => exact (ih _).trans (name_applyConstraint t c)

/-- A table is called by the last segment of its name. -/
theorem name_tableOf (create : CreateTable) :
    (tableOf create).name = Sql.objectName create.name.text := by
  unfold tableOf
  extract_lets name columns declared t keys
  have ht : t.name = name := name_applyConstraints declared create.constraints
  split
  · exact ht
  · exact ht

/-- The table that a definition adds, in a script with these comments. -/
def addedTable (comments : List (String × String)) (create : CreateTable) : Table :=
  let t := tableOf create
  { t with
    comment := create.comment.or (comments.lookup t.name)
    kind := some (t.kind.getD .base) }

/-- The tables that statements add are those of the definitions among them. -/
theorem addedTables_steps (sql : String) (statements : List Statement) :
    addedTables (steps sql statements) =
      (statements.filterMap create?).map (addedTable (tableComments sql)) := by
  have hstatement (s : Statement) : addedTables (stepsOf (tableComments sql) s) =
      s.create?.toList.map (addedTable (tableComments sql)) := by
    cases s with
    | createTable create =>
        have hcomment : (create.comment.orElse fun _ =>
            (tableComments sql).lookup (tableOf create).name) =
              create.comment.or ((tableComments sql).lookup (tableOf create).name) := by
          cases create.comment <;> rfl
        rw [stepsOf, tableSteps, addedTables_append, hcomment]
        split <;> rfl
    | alterTable name added =>
        -- What an alteration adds is a change, not a table.
        refine List.filterMap_eq_nil_iff.2 fun step hstep => ?_
        obtain ⟨c, -, hc⟩ := List.mem_filterMap.1 hstep
        cases c with
        | foreignKey | primaryKey | unique => obtain rfl := Option.some.inj hc; rfl
        | _ => cases hc
    | _ => rfl
  induction statements with
  | nil => rfl
  | cons s statements ih =>
      rw [steps, List.flatMap_cons, addedTables_append, hstatement, ← steps, ih]
      cases hs : s.create? with
      | none => rw [List.filterMap_cons_none hs]; rfl
      | some create => rw [List.filterMap_cons_some hs]; rfl

end Statement

namespace Parsing

/-- **Whose comment a table gets.** The tables are the definitions in order, whatever the grammar
is. A table whose statement carries no comment gets the first one that is written for any table of
its last name, with or without a statement. So each table has its own comment exactly if that
first one is its own, and in particular if no two tables have the same last name. -/
theorem exists_read_comments (grammar : Grammar) (dialect : Sql.Dialect) {sql : String}
    {statements : List Statement} (hgrammar : grammar dialect sql = .ok statements)
    {entries : List Entry} (hentries : Entries sql statements entries)
    (hne : definitions entries ≠ []) :
    ∃ schema warnings, Backend.grammar.read grammar dialect sql = .ok (schema, warnings) ∧
      schema.tables.map (·.name) = (definitions entries).map Definition.name ∧
      schema.tables.map (·.comment) = (definitions entries).map (fun d =>
        d.create.comment.or (firstWritten entries d.name)) ∧
      (schema.tables.map (·.comment) = (definitions entries).map Definition.ownComment ↔
        ∀ d ∈ definitions entries, d.create.comment = none →
          firstWritten entries d.name = d.written) ∧
      ((entries.map Entry.name).Nodup →
        schema.tables.map (·.comment) = (definitions entries).map Definition.ownComment) := by
  have hsteps :
      Backend.grammar.steps grammar dialect sql = .ok (Statement.steps sql statements) := by
    rw [Backend.steps, hgrammar]
  -- One table is added for each definition, in their order.
  have hadded := Statement.addedTables_steps sql statements
  rw [hentries.creates, List.map_map] at hadded
  have hread := Backend.read_of_steps hsteps (by simpa [hadded] using hne)
  have hname : (assemble dialect (Statement.steps sql statements)).1.tables.map (·.name) =
      (definitions entries).map Definition.name := by
    rw [assemble_eq, map_name_settle, hadded, List.map_map]
    exact List.map_congr_left fun d _ => Statement.name_tableOf d.create
  have hcomment : (assemble dialect (Statement.steps sql statements)).1.tables.map (·.comment) =
      (definitions entries).map fun d => d.create.comment.or (firstWritten entries d.name) := by
    rw [assemble_eq, map_comment_settle, hadded, List.map_map]
    refine List.map_congr_left fun d _ => ?_
    rw [← lookup_tableComments hentries.cutOuts, Definition.name, ← Statement.name_tableOf]
    rfl
  -- Where a definition states no comment, the one found by name has to be the one written with it.
  have hown : (assemble dialect (Statement.steps sql statements)).1.tables.map (·.comment) =
      (definitions entries).map Definition.ownComment ↔ ∀ d ∈ definitions entries,
        d.create.comment = none → firstWritten entries d.name = d.written := by
    rw [hcomment, List.map_inj_left]
    refine forall₂_congr fun d _ => ?_
    rw [Definition.ownComment]
    cases d.create.comment with
    | none => simp
    | some text => simp
  refine ⟨(assemble dialect (Statement.steps sql statements)).1,
    (assemble dialect (Statement.steps sql statements)).2, hread, hname, hcomment, hown, ?_⟩
  intro hnodup
  refine hown.2 fun d hd _ => ?_
  obtain ⟨e, he, hdefined⟩ := List.mem_filterMap.1 hd
  cases e with
  | stray raw => cases hdefined
  | defined d' =>
      obtain rfl := Option.some.inj hdefined
      exact firstWritten_of_nodup (e := .defined d') hnodup he

/-- Two tables of one name in two schemas. The first one has a comment. -/
def commentedTwins : String :=
  "CREATE TABLE a.users (id INT) COMMENT='x'; CREATE TABLE b.users (id INT);"

/-- The first of the tables, whose comment the statement carries, too. -/
def firstTwin : Definition where
  create :=
    { name := [⟨"a", none⟩, ⟨"users", none⟩]
      columns := [{ name := ⟨"id", none⟩, type := "INT", options := [] }]
      comment := some "x" }
  cutOut := some { qualifiedName := "a.users", body := "id INT", comment := some "x" }
  sameName := by decide

/-- The second one. -/
def secondTwin : Definition where
  create :=
    { name := [⟨"b", none⟩, ⟨"users", none⟩]
      columns := [{ name := ⟨"id", none⟩, type := "INT", options := [] }] }
  cutOut := some { qualifiedName := "b.users", body := "id INT", comment := none }
  sameName := by decide

/-- What the two readings find in that script. -/
theorem entries_commentedTwins : Entries commentedTwins
    [.createTable firstTwin.create, .createTable secondTwin.create]
    [.defined firstTwin, .defined secondTwin] where
  creates := rfl
  cutOuts := by
    -- The literal is opened by a lemma, since to decode it would take the kernel long.
    have hchars : commentedTwins.toList = _ := String.toList_ofList
    rw [Excerpt.scanTables, Excerpt.scan, hchars]
    decide +kernel

/-- The grammar accepts that script. -/
theorem read_commentedTwins : Statement.read .mySql commentedTwins =
    .ok [.createTable firstTwin.create, .createTable secondTwin.create] := by
  have hchars : commentedTwins.toList = _ := String.toList_ofList
  simp only [Statement.read, Statement.Token.tokens, hchars]
  decide +kernel

/-- What the readings of that script make of it. Two tables of two schemas have the same last
segment. -/
theorem exists_read_comments_commentedTwins :
    Statement.read .mySql commentedTwins =
        .ok [.createTable firstTwin.create, .createTable secondTwin.create] ∧
      ∃ schema warnings,
        Backend.grammar.read Statement.read .mySql commentedTwins = .ok (schema, warnings) ∧
        schema.tables.map (·.name) = ["users", "users"] ∧
        schema.tables.map (·.comment) = [some "x", some "x"] := by
  refine ⟨read_commentedTwins, ?_⟩
  obtain ⟨schema, warnings, hread, hname, hcomment, -⟩ := exists_read_comments Statement.read .mySql
    read_commentedTwins entries_commentedTwins (by simp [definitions, Entry.definition?])
  refine ⟨schema, warnings, hread, hname.trans ?_, hcomment.trans ?_⟩
  · decide
  · decide

/-- The second table gets the comment of the first one, and it has none of its own. The scan has the
comment under the name that both tables share. -/
theorem comments_commentedTwins :
    (Backend.grammar.read Statement.read .mySql commentedTwins).toOption.map
        (fun answer => answer.1.tables.map (·.comment)) = some [some "x", some "x"] ∧
      [firstTwin, secondTwin].map Definition.ownComment = [some "x", none] := by
  rw [Backend.read, Backend.steps, read_commentedTwins]
  dsimp only
  rw [Statement.steps, Statement.tableComments, entries_commentedTwins.cutOuts]
  decide +kernel

end Parsing

end EntityDiagram
