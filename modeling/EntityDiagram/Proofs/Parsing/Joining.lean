import EntityDiagram.Command.Source
import EntityDiagram.Parsing.Backend
import EntityDiagram.Proofs.Ddl.Continuation
import EntityDiagram.Proofs.Ddl.Token.LineEnd

/-!
# `EntityDiagram.Proofs.Parsing.Joining`: the vendor reader on the texts of a folder

The texts of a folder are read as one script, each of them followed by a line break. No statement
ends at a line break: the options of a table, the query of a view and whatever is stepped over reach
to the next semicolon, which may stand in the next text. A comment or quotes that are still open go
on as well. A table of the next text that they reach is lost without a warning.

* `statements_newline`: a script either adds nothing more in front of another statement in the next
  line, or it ends in a semicolon and any next line is read as if it stood alone. So one text with
  one table, `probe`, tells what happens to all others.
* `tableNames?_joinScripts`: a folder loses no table if each of its texts but the last keeps the one
  of `probe`, and a text without a semicolon at its end does not keep it.
-/

set_option autoImplicit false

namespace EntityDiagram

namespace Ddl

open Token (tokens KeepsOpen Quoted Ending)

/-! ### Texts in front of others -/

/-- A statement that starts behind a script may follow it. -/
theorem Follows.create {ts : List Token} (h : .semicolon ∉ ts) :
    Follows (.keyword .create :: ts) where
  starts hend := absurd (hend _ rfl) (by decide)
  semicolon := by simpa using h
  blocks := by
    rintro inside ⟨used, hused, hcreate⟩
    cases used with
    | nil => cases hused
    | cons t used =>
        obtain ⟨rfl, -⟩ := List.cons.inj hused
        exact hcreate List.mem_cons_self

/-- A token in quotes at the end may follow a script, and adds nothing to it. -/
theorem follows_quoted {q : Token} (hq : Quoted q) :
    Follows [q, .eof] ∧ .closeParen ∉ [q, .eof] ∧ statements [q, .eof] = .ok [] := by
  have hblocks : Blocks [q, .eof] := blocks_of_not_mem (by cases hq <;> simp)
  have hstatements : statements [q, .eof] = .ok [] := by
    have hne : q ≠ .eof := by cases hq <;> simp
    have hread : statement q [.eof] = .ok ([], [.eof]) := by cases hq <;> rfl
    rw [statements_cons hne hread, statements, if_pos (by decide)]
    rfl
  refine ⟨⟨fun hend => ?_, ?_, hblocks⟩, ?_, hstatements⟩
  · have hends := hend q rfl
    cases hq <;> cases hends
  · cases hq <;> simp
  · cases hq <;> simp

/-- The end of a script is the last of its tokens only. -/
theorem eof_not_mem_of_tokens {s : List Char} {front : List Token}
    (h : tokens s = front ++ [.eof]) : .eof ∉ front := by
  obtain ⟨ts, hts, heof⟩ := Token.tokens_eq_append_eof s
  rw [hts] at h
  rwa [List.append_cancel_right h] at heof

/-- A text is closed at its end, or the tables in it are the same whatever the next line says that
closes no comment and no quotes. -/
theorem closed_or_addsTables {s : List Char} {names : List String}
    (h : AddsTables (tokens s) names) :
    (∃ front, tokens s = front ++ [.eof] ∧
      ∀ more, tokens (s ++ '\n' :: more) = front ++ tokens more) ∨
    ∀ more, KeepsOpen more → AddsTables (tokens (s ++ '\n' :: more)) names := by
  -- The text ends closed, in a comment or in open quotes, and what follows is seen differently in
  -- each case.
  cases Token.ending s with
  | closed htokens hmore => exact .inl ⟨_, htokens, hmore⟩
  | comment hmore => exact .inr fun more hopen => by rwa [hmore more hopen]
  | @quotes front q hq htokens hmore =>
      refine .inr fun more hopen => ?_
      obtain ⟨q', hq', htokens'⟩ := hmore more hopen
      have heof : .eof ∉ front ++ [q] :=
        eof_not_mem_of_tokens (htokens.trans (List.append_assoc front [q] [.eof]).symm)
      rw [htokens] at h
      rw [htokens']
      obtain ⟨hfollows, hclose, hend⟩ := follows_quoted hq
      obtain ⟨hfollows', -, hend'⟩ := follows_quoted hq'
      exact h.congr_end (fun hmem => heof (List.mem_append_left _ hmem)) hfollows hfollows' hclose
        hend hend'

/-- A line break behind a script changes none of its tables. -/
theorem addsTables_newline {s : List Char} {names : List String}
    (h : AddsTables (tokens s) names) : AddsTables (tokens (s ++ ['\n'])) names := by
  rcases closed_or_addsTables h with ⟨front, htokens, hmore⟩ | hsame
  · rwa [hmore [], Token.tokens_nil, ← htokens]
  · exact hsame [] (by simp [KeepsOpen])

/-- A script either adds nothing more in front of another statement in the next line, or it ends in
a semicolon and whatever is in the next line is read as if it stood alone. -/
theorem statements_newline {s next : List Char} {steps : List Step}
    (h : statements (tokens s) = .ok steps) (hopen : KeepsOpen next)
    (hnext : Follows (tokens next)) :
    AddsTables (tokens (s ++ '\n' :: next)) (addedNames steps) ∨
      (∀ t ∈ (tokens s).dropLast.getLast?, t = .semicolon) ∧
        ∀ more, statements (tokens (s ++ '\n' :: more)) =
          (statements (tokens more)).map (steps ++ ·) := by
  rcases closed_or_addsTables ⟨steps, h, rfl⟩ with ⟨front, htokens, hclosed⟩ | hsame
  · rw [htokens] at h ⊢
    simp only [hclosed, List.dropLast_concat]
    exact (statements_append (eof_not_mem_of_tokens htokens) h hnext).imp_right
      fun ⟨hlast, happend⟩ => ⟨hlast, fun more => happend _⟩
  · exact .inl (hsame next hopen)

end Ddl

namespace Parsing

open Command (joinScripts)
open Ddl (addedNames AddsTables)
open Ddl.Token (tokens KeepsOpen)

/-! ### The tables of a script -/

/-- The names of the tables that a backend finds in a script, if it reads the script. -/
def Backend.tableNames? (grammar : Grammar) (b : Backend) (dialect : Sql.Dialect) (sql : String) :
    Option (List String) :=
  (b.read grammar dialect sql).toOption.map fun answer => answer.1.tables.map (·.name)

/-- The steps that add tables are those whose tables have names. -/
theorem any_addsTable (steps : List Step) :
    steps.any Backend.addsTable = !(addedNames steps).isEmpty := by
  induction steps with
  | nil => rfl
  | cons step steps ih =>
      cases step with
      | addTable qualified t => rfl
      | _ => exact ih

/-- The vendor reader finds the tables that a script adds, if there are any. A script without tables
is a failure of the reader, and not an empty list. -/
theorem tableNames?_vendor {grammar : Grammar} {dialect : Sql.Dialect} {sql : String}
    {names : List String} :
    Backend.vendor.tableNames? grammar dialect sql = some names ↔
      AddsTables (tokens sql.toList) names ∧ names ≠ [] := by
  change _ ↔ (∃ steps, Ddl.script sql = .ok steps ∧ addedNames steps = names) ∧ names ≠ []
  unfold Backend.tableNames? Backend.read Backend.steps
  cases Ddl.script sql with
  | error e => simp [Except.bind, Except.toOption]
  | ok steps =>
      have hnames : (assemble dialect steps).1.tables.map (·.name) = addedNames steps := by
        rw [assemble_eq]
        exact map_name_settle _ _
      show (Backend.schemaOf dialect steps).toOption.map
        (fun answer => answer.1.tables.map (·.name)) = some names ↔ _
      rw [Backend.schemaOf, any_addsTable]
      -- A schema without tables is an error of the backend.
      by_cases hempty : addedNames steps = []
      · rw [if_neg (by simp [hempty])]
        refine iff_of_false (by simp [Except.toOption]) ?_
        rintro ⟨⟨_, h, rfl⟩, hne⟩
        cases h
        exact hne hempty
      · rw [if_pos (by simp [hempty])]
        constructor
        · intro h
          obtain rfl := Option.some.inj h
          exact ⟨⟨steps, rfl, hnames.symm⟩, fun hnil => hempty (hnames.symm.trans hnil)⟩
        · rintro ⟨⟨_, h, rfl⟩, -⟩
          cases h
          exact congrArg some hnames

/-! ### Texts in front of others -/

/-- A text with one table. -/
def probe : String := "CREATE TABLE t (c INT)"

/-- A script is followed by a line break and the other scripts. -/
theorem toList_joinScripts_cons (sql : String) (texts : List String) :
    (joinScripts (sql :: texts)).toList = sql.toList ++ '\n' :: (joinScripts texts).toList := by
  simp [joinScripts, String.join_cons]

variable {grammar : Grammar} {dialect : Sql.Dialect}

/-- The probe alone is read as its one table. -/
theorem tableNames?_probe :
    Backend.vendor.tableNames? grammar dialect (joinScripts [probe]) = some ["t"] := by
  have hnames : (Ddl.script (joinScripts [probe])).toOption.map addedNames = some ["t"] := by
    decide +kernel
  cases hscript : Ddl.script (joinScripts [probe]) with
  | error e =>
      rw [hscript] at hnames
      cases hnames
  | ok steps =>
      rw [hscript] at hnames
      exact tableNames?_vendor.2 ⟨⟨steps, hscript, Option.some.inj hnames⟩, by simp⟩

/-- A text either takes the table of the next text away, or it ends in a semicolon and whatever
texts are next are read as if they stood alone. -/
theorem loses_or_keeps {sql : String} {names : List String}
    (h : Backend.vendor.tableNames? grammar dialect sql = some names) :
    Backend.vendor.tableNames? grammar dialect (joinScripts [sql, probe]) = some names ∨
      (tokens sql.toList).dropLast.getLast? = some .semicolon ∧
        ∀ texts more, Backend.vendor.tableNames? grammar dialect (joinScripts texts) = some more →
          Backend.vendor.tableNames? grammar dialect (joinScripts (sql :: texts)) =
            some (names ++ more) := by
  obtain ⟨⟨steps, hsteps, rfl⟩, hne⟩ := tableNames?_vendor.1 h
  have htokens : tokens (joinScripts [probe]).toList =
      [.keyword .create, .keyword .table, .name "t", .openParen, .name "c", .name "INT",
        .closeParen, .eof] := by
    decide +kernel
  have hfollows : Ddl.Follows (tokens (joinScripts [probe]).toList) := by
    rw [htokens]
    exact .create (by simp)
  have hopen : KeepsOpen (joinScripts [probe]).toList := by decide +kernel
  refine (Ddl.statements_newline hsteps hopen hfollows).imp (fun hadds => ?_) ?_
  · rw [tableNames?_vendor, toList_joinScripts_cons]
    exact ⟨hadds, hne⟩
  · rintro ⟨hlast, happend⟩
    refine ⟨?_, fun texts more hmore => ?_⟩
    · cases hlast' : (tokens sql.toList).dropLast.getLast? with
      | some t => rw [hlast t hlast']
      | none =>
          -- A text without tokens has no table.
          obtain ⟨ts, hts, -⟩ := Ddl.Token.tokens_eq_append_eof sql.toList
          rw [hts, List.dropLast_concat, List.getLast?_eq_none_iff] at hlast'
          rw [hts, hlast', Ddl.statements_semicolons (by simp)] at hsteps
          cases hsteps
          exact absurd rfl hne
    · obtain ⟨⟨steps', hsteps', rfl⟩, -⟩ := tableNames?_vendor.1 hmore
      rw [tableNames?_vendor, toList_joinScripts_cons]
      refine ⟨⟨steps ++ steps', ?_, Ddl.addedNames_append _ _⟩, by simp [hne]⟩
      rw [happend, hsteps']
      rfl

/-- Whether a text that is read keeps the table of the next one. -/
def KeepsNext (grammar : Grammar) (dialect : Sql.Dialect) (sql : String) : Prop :=
  ∃ names, Backend.vendor.tableNames? grammar dialect sql = some names ∧
    Backend.vendor.tableNames? grammar dialect (joinScripts [sql, probe]) = some (names ++ ["t"])

/-- A text that is read either keeps the table of the next one, and then its last token is a
semicolon, or it takes that table away. -/
theorem keepsNext_or_loses {sql : String} {names : List String}
    (h : Backend.vendor.tableNames? grammar dialect sql = some names) :
    KeepsNext grammar dialect sql ∧ (tokens sql.toList).dropLast.getLast? = some .semicolon ∨
      Backend.vendor.tableNames? grammar dialect (joinScripts [sql, probe]) = some names := by
  rcases loses_or_keeps h with hlost | ⟨hlast, hkeeps⟩
  · exact .inr hlost
  · exact .inl ⟨⟨names, h, hkeeps [probe] ["t"] tableNames?_probe⟩, hlast⟩

/-- Texts of which each but the last keeps the table of the next one, by induction on the texts. The
last text has no next one, so nothing is asked of it. -/
theorem tableNames?_of_keepsNext {texts : List String} {names : List (List String)}
    (hne : texts ≠ []) (h : texts.mapM (Backend.vendor.tableNames? grammar dialect) = some names)
    (hkeeps : ∀ sql ∈ texts.dropLast, KeepsNext grammar dialect sql) :
    Backend.vendor.tableNames? grammar dialect (joinScripts texts) = some names.flatten := by
  induction texts generalizing names with
  | nil => exact absurd rfl hne
  | cons sql texts ih =>
      simp only [List.mapM_cons, Option.bind_eq_bind, Option.bind_eq_some_iff] at h
      obtain ⟨first, hfirst, rest, hrest, hpure⟩ := h
      obtain rfl : first :: rest = names := by simpa using hpure
      cases texts with
      | nil =>
          obtain ⟨hadds, hne⟩ := tableNames?_vendor.1 hfirst
          obtain rfl : [] = rest := by simpa using hrest
          rw [tableNames?_vendor, toList_joinScripts_cons, List.flatten_singleton]
          exact ⟨Ddl.addsTables_newline hadds, hne⟩
      | cons next texts =>
          have hjoined := ih (by simp) hrest fun s hs => hkeeps s (by simp [hs])
          obtain ⟨first', hfirst', hnext⟩ := hkeeps sql (by simp)
          obtain rfl : first = first' := Option.some.inj (hfirst.symm.trans hfirst')
          -- A text either loses the table after it or keeps everything, and the hypothesis rules
          -- out the first.
          refine ((loses_or_keeps hfirst).resolve_left fun hlost => ?_).2 _ _ hjoined
          rw [hnext] at hlost
          simp at hlost

/-- **A folder loses no table if each of its texts but the last keeps one.** Whether a text does is
told by one table, and no text does that lacks the semicolon at its end. -/
theorem tableNames?_joinScripts (grammar : Grammar) (dialect : Sql.Dialect) :
    (∀ (texts : List String) (names : List (List String)), texts ≠ [] →
      texts.mapM (Backend.vendor.tableNames? grammar dialect) = some names →
      (∀ sql ∈ texts.dropLast, KeepsNext grammar dialect sql) →
      Backend.vendor.tableNames? grammar dialect (joinScripts texts) = some names.flatten) ∧
    ∀ (sql : String) (names : List String),
      Backend.vendor.tableNames? grammar dialect sql = some names →
      KeepsNext grammar dialect sql ∧
          (tokens sql.toList).dropLast.getLast? = some .semicolon ∨
        Backend.vendor.tableNames? grammar dialect (joinScripts [sql, probe]) = some names :=
  ⟨fun _ _ hne h hkeeps => tableNames?_of_keepsNext hne h hkeeps,
    fun _ _ h => keepsNext_or_loses h⟩

/-- Two tables, of which the first has its semicolon, and the same with a text that lacks it. The
second half shows that the probe is lost, which is what the condition tests. -/
theorem tableNames?_joinScripts_semicolon :
    Backend.vendor.tableNames? (fun _ _ => .error "") .mySql
        (joinScripts ["CREATE TABLE a (id INT);", "CREATE TABLE b (id INT)"]) =
      some ["a", "b"] ∧
    Backend.vendor.tableNames? (fun _ _ => .error "") .mySql
        (joinScripts ["CREATE TABLE a (id INT)", probe]) = some ["a"] := by
  have hkeeps : KeepsNext (fun _ _ => .error "") .mySql "CREATE TABLE a (id INT);" :=
    ⟨["a"], by decide +kernel, by decide +kernel⟩
  refine ⟨(tableNames?_joinScripts (fun _ _ => .error "") .mySql).1
      ["CREATE TABLE a (id INT);", "CREATE TABLE b (id INT)"] [["a"], ["b"]] (by simp)
      (by decide +kernel) (by simpa using hkeeps),
    ((tableNames?_joinScripts (fun _ _ => .error "") .mySql).2
      "CREATE TABLE a (id INT)" ["a"] (by decide +kernel)).resolve_left fun hkept => ?_⟩
  exact absurd hkept.2 (by decide +kernel)

/-- Both of these texts are read by themselves, but in a folder the second table is lost. The first
one lacks its semicolon, and its table options are read on into the next file. -/
theorem joinScripts_loses_table :
    ["CREATE TABLE a (id INT)", "CREATE TABLE b (id INT)"].mapM
        (Backend.vendor.tableNames? (fun _ _ => .error "") .mySql) = some [["a"], ["b"]] ∧
      Backend.vendor.tableNames? (fun _ _ => .error "") .mySql
        (joinScripts ["CREATE TABLE a (id INT)", "CREATE TABLE b (id INT)"]) = some ["a"] := by
  decide +kernel

end Parsing

end EntityDiagram
