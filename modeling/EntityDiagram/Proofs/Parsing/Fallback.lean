import EntityDiagram.Parsing.Fallback
import EntityDiagram.Proofs.Schema.Assembly
import EntityDiagram.Proofs.Text.Affix
import Mathlib.Data.List.Forall2

/-!
# `EntityDiagram.Proofs.Parsing.Fallback`: what a list of backends promises

`parse` goes through the backends in order. For one backend there are three cases: it does not
read the dialect, it answers (`Answers`), or it fails and leaves a note (`Fails`). The note says
why, and no backend both answers and fails.

* `tryInOrder_cases`: the first answer decides, and the notes of the failures before it follow in
  order. Without an answer there is a note from every backend that reads the dialect.
* `Backend.tables_ne_nil_of_read`: no backend answers with an empty schema.
* `parse_contract`: what a result of `parse` says, as a `Contract`, and that the grammar is asked
  about one text in one dialect only.

A contract is stated for the fields of a result one by one: the flag of success, the message, the
schema, the warnings and the errors. It does not mention the two ways in which the program puts a
result together, so that a result with the right schema and, say, errors beside it would break the
contract. That a script mentions a table is said of its words as well (`MentionsTable`), and shown
to be what the program tests.
-/

set_option autoImplicit false

namespace EntityDiagram

/-! ### Notes on a schema -/

namespace Schema

/-- The note of this name. -/
def note? (s : Schema) (name : String) : Option String := s.metadata.lookup name

/-- The first note of a list answers for its own name alone. -/
theorem lookup_note_cons (key value other : String) (notes : List (String × String)) :
    ((key, value) :: notes).lookup other =
      if other = key then some value else notes.lookup other := by
  by_cases h : other = key
  · simp [h]
  · have hne : (other == key) = false := beq_false_of_ne h
    simp [List.lookup_cons, h, hne]

/-- A note that is set can be looked up, and the other notes stay. -/
theorem lookup_setNote (name value other : String) (notes : List (String × String)) :
    (setNote name value notes).lookup other =
      if other = name then some value else notes.lookup other := by
  induction notes with
  | nil => rw [setNote, lookup_note_cons]
  | cons note notes ih =>
      obtain ⟨key, old⟩ := note
      rw [setNote]
      by_cases hkey : key = name
      · rw [if_pos (by simpa using hkey), hkey, lookup_note_cons, lookup_note_cons]
        by_cases h : other = name <;> simp [h]
      · rw [if_neg (by simpa using hkey), lookup_note_cons, ih, lookup_note_cons]
        by_cases h : other = key
        · simp [h, hkey]
        · simp [h]

/-- A schema with a note set. -/
theorem note?_withNote (s : Schema) (name value other : String) :
    (s.withNote name value).note? other = if other = name then some value else s.note? other :=
  lookup_setNote name value other s.metadata

end Schema

/-- A dialect that has been settled is one of the families. -/
theorem Sql.Dialect.resolve_ne_auto (d : Sql.Dialect) (content : String) :
    d.resolve content ≠ .auto := by
  have hdetect : Sql.Dialect.detect content ≠ .auto := by
    unfold Sql.Dialect.detect
    dsimp only
    repeat' split
    all_goals decide
  cases d with
  | auto => exact hdetect
  | _ => nofun

namespace Parsing

/-! ### Scripts that mention a table -/

/-- Whether the words say that a table is created: `CREATE` is followed by `TABLE`, or by one word
that starts with `TEMP` and then by `TABLE`. This is what a script in any letter case and spacing
is searched for, once it is cut into words in upper case. -/
def SaysCreateTable (words : List String) : Prop :=
  ∃ before after, words = before ++ "CREATE" :: "TABLE" :: after ∨
    ∃ temporary : String, "TEMP".toList <+: temporary.toList ∧
      words = before ++ "CREATE" :: temporary :: "TABLE" :: after

/-- Whether a script mentions the definition of a table, in any letter case and with any white
space between the words. A backend that finds no table in such a script has failed. -/
def MentionsTable (sql : String) : Prop :=
  SaysCreateTable ((Text.words sql.toList).map fun w => String.ofList (Text.upper w))

/-- Tests hold of the words that come next exactly if there are as many words as tests and each
test holds of the word at its place. -/
theorem startsWithWords_iff (tests : List (String → Bool)) (words : List String) :
    startsWithWords tests words = true ↔
      ∃ front rest, words = front ++ rest ∧
        List.Forall₂ (fun test w => test w = true) tests front := by
  induction tests generalizing words with
  | nil => simp [startsWithWords]
  | cons test tests ih =>
      -- Words that run out before the tests do are no match.
      cases words with
      | nil => simp [startsWithWords]
      | cons w words =>
          rw [startsWithWords, Bool.and_eq_true_iff, ih]
          constructor
          · rintro ⟨htest, front, rest, rfl, hfront⟩
            exact ⟨w :: front, rest, rfl, .cons htest hfront⟩
          · rintro ⟨_, rest, hwords, hfront⟩
            cases hfront with
            | cons htest hfront =>
                obtain ⟨rfl, rfl⟩ := List.cons.inj hwords
                exact ⟨htest, _, rest, rfl, hfront⟩

/-- The words start with a mention exactly if the first two say so, or the first three with a word
for a temporary table between. -/
theorem startsWithWords_mention_iff (w : String) (words : List String) :
    (startsWithWords [(· == "CREATE"), (· == "TABLE")] (w :: words)
      || startsWithWords [(· == "CREATE"),
          fun w => (Text.dropLead? "TEMP".toList w.toList).isSome, (· == "TABLE")] (w :: words))
        = true ↔
      ∃ after, w :: words = "CREATE" :: "TABLE" :: after ∨
        ∃ temporary : String, "TEMP".toList <+: temporary.toList ∧
          w :: words = "CREATE" :: temporary :: "TABLE" :: after := by
  have htemporary (w : String) : (Text.dropLead? "TEMP".toList w.toList).isSome = true ↔
      "TEMP".toList <+: w.toList := by
    simp only [Option.isSome_iff_exists, Text.dropLead?_eq_some_iff]
    exact ⟨fun ⟨rest, h⟩ => ⟨rest, h.symm⟩, fun ⟨rest, h⟩ => ⟨rest, h.symm⟩⟩
  rw [Bool.or_eq_true_iff, startsWithWords_iff, startsWithWords_iff, exists_or]
  simp only [List.forall₂_cons_left_iff, List.forall₂_nil_left_iff, beq_iff_eq, htemporary]
  -- The two patterns are gone through word by word, in both directions.
  constructor
  · rintro (⟨_, rest, h, _, _, rfl, ⟨_, _, rfl, rfl, rfl⟩, rfl⟩ |
      ⟨_, rest, h, _, _, rfl, ⟨between, _, hbetween, ⟨_, _, rfl, rfl, rfl⟩, rfl⟩, rfl⟩)
    · exact .inl ⟨rest, h⟩
    · exact .inr ⟨rest, between, hbetween, h⟩
  · rintro (⟨rest, h⟩ | ⟨rest, between, hbetween, h⟩)
    · exact .inl ⟨_, rest, h, _, _, rfl, ⟨_, _, rfl, rfl, rfl⟩, rfl⟩
    · exact .inr ⟨_, rest, h, _, _, rfl, ⟨between, _, hbetween, ⟨_, _, rfl, rfl, rfl⟩, rfl⟩, rfl⟩

/-- The search through the words finds a mention wherever it stands among them. -/
theorem saysCreateTable_iff (words : List String) :
    saysCreateTable words = true ↔ SaysCreateTable words := by
  induction words with
  | nil => simp [saysCreateTable, SaysCreateTable]
  | cons w words ih =>
      -- The mention begins at the first word or further on.
      rw [saysCreateTable, Bool.or_eq_true_iff, startsWithWords_mention_iff, ih]
      constructor
      · rintro (⟨after, h⟩ | ⟨before, after, h⟩)
        · exact ⟨[], after, h⟩
        · refine ⟨w :: before, after, ?_⟩
          rcases h with rfl | ⟨temporary, htemporary, rfl⟩
          · exact .inl rfl
          · exact .inr ⟨temporary, htemporary, rfl⟩
      · rintro ⟨before, after, h⟩
        cases before with
        | nil => exact .inl ⟨after, h⟩
        | cons first before =>
            refine .inr ⟨before, after, ?_⟩
            rcases h with h | ⟨temporary, htemporary, h⟩
            · exact .inl (List.cons.inj h).2
            · exact .inr ⟨temporary, htemporary, (List.cons.inj h).2⟩

/-- The test of the search is what it means for a script to mention a table. -/
theorem mentionsCreateTable_iff (sql : String) :
    mentionsCreateTable sql = true ↔ MentionsTable sql :=
  saysCreateTable_iff _

/-! ### Backends -/

/-- A backend that takes steps which add a table answers with what they make. -/
theorem Backend.read_of_steps {grammar : Grammar} {b : Backend} {dialect : Sql.Dialect}
    {sql : String} {steps : List Step} (h : b.steps grammar dialect sql = .ok steps)
    (hne : addedTables steps ≠ []) : b.read grammar dialect sql = .ok (assemble dialect steps) := by
  have hany : steps.any Backend.addsTable = true := by
    obtain ⟨t, ht⟩ := List.exists_mem_of_ne_nil _ hne
    obtain ⟨step, hstep, hadds⟩ := List.mem_filterMap.1 ht
    refine List.any_eq_true.2 ⟨step, hstep, ?_⟩
    cases step with
    | addTable => rfl
    | _ => cases hadds
  rw [Backend.read, h]
  exact if_pos hany

/-- No backend answers with an empty schema. -/
theorem Backend.tables_ne_nil_of_read {grammar : Grammar} {b : Backend} {dialect : Sql.Dialect}
    {sql : String} {s : Schema} {warnings : List String}
    (h : b.read grammar dialect sql = .ok (s, warnings)) : s.tables ≠ [] := by
  rw [Backend.read] at h
  cases hsteps : b.steps grammar dialect sql with
  | error e =>
      rw [hsteps] at h
      cases h
  | ok steps =>
      rw [hsteps] at h
      change Backend.schemaOf dialect steps = _ at h
      rw [Backend.schemaOf] at h
      split at h
      · rename_i hany
        -- A step that adds a table leaves it among the tables, whatever changes come later.
        obtain ⟨step, hstep, hadds⟩ := List.any_eq_true.1 hany
        have hadded : addedTables steps ≠ [] := by
          cases step with
          | addTable qualified t =>
              exact List.ne_nil_of_mem (List.mem_filterMap.2 ⟨_, hstep, rfl⟩)
          | _ => cases hadds
        have htables : s.tables = settle (waitingChanges steps) (addedTables steps) := by
          rw [assemble_eq] at h
          cases h
          rfl
        intro hnil
        have hnames := map_name_settle (waitingChanges steps) (addedTables steps)
        rw [← htables, hnil] at hnames
        exact hadded (List.map_eq_nil_iff.1 hnames.symm)
      · cases h

section Attempts

variable (grammar : Grammar) (dialect : Sql.Dialect) (sql : String)

/-- The backend reads the dialect and finds a schema in the script, which has tables if the script
mentions a table definition. -/
def Answers (b : Backend) (s : Schema) (warnings : List String) : Prop :=
  b.supports dialect = true ∧ b.read grammar dialect sql = .ok (s, warnings) ∧
    (MentionsTable sql → s.tables ≠ [])

/-- The backend does not get a schema out of the script, and the note says so. -/
inductive Fails (b : Backend) : String → Prop where
  | error {e : ReadError} (h : b.read grammar dialect sql = .error e) :
    Fails b (b.name ++ ": " ++ e.message)
  | empty {s : Schema} {warnings : List String} (h : b.read grammar dialect sql = .ok (s, warnings))
      (htables : s.tables = []) (hmentions : MentionsTable sql) :
    Fails b (b.name ++ ": no tables parsed")

variable {grammar dialect sql}

/-- A backend that fails does not answer. -/
theorem Fails.not_answers {b : Backend} {note : String} (h : Fails grammar dialect sql b note)
    (s : Schema) (warnings : List String) : ¬ Answers grammar dialect sql b s warnings := by
  rintro ⟨-, hread, htables⟩
  cases h with
  | error h =>
      rw [h] at hread
      cases hread
  | empty h hnil hmentions =>
      rw [h] at hread
      cases hread
      exact htables hmentions hnil

variable (grammar dialect sql)

/-- One step through the list: a backend that does not read the dialect is passed over, one that
fails leaves a note, and one that answers ends the search. -/
theorem tryInOrder_cons (failures : List String) (b : Backend) (more : List Backend) :
    (b.supports dialect = false ∧
      tryInOrder grammar dialect sql failures (b :: more) =
        tryInOrder grammar dialect sql failures more) ∨
    (∃ note, b.supports dialect = true ∧ Fails grammar dialect sql b note ∧
      tryInOrder grammar dialect sql failures (b :: more) =
        tryInOrder grammar dialect sql (failures ++ [note]) more) ∨
    (∃ s warnings, Answers grammar dialect sql b s warnings ∧
      tryInOrder grammar dialect sql failures (b :: more) =
        .succeeded (annotate s b dialect)
          (("Parsed with " ++ b.name) :: warnings ++ failures)) := by
  cases hsupports : b.supports dialect with
  | false => exact .inl ⟨rfl, by rw [tryInOrder, hsupports]; rfl⟩
  | true =>
      right
      cases hread : b.read grammar dialect sql with
      | error e =>
          refine .inl ⟨_, rfl, .error hread, ?_⟩
          rw [tryInOrder, hsupports, if_pos rfl, hread]
      | ok r =>
          obtain ⟨s, warnings⟩ := r
          -- An answer without tables counts as a failure if the text mentions one.
          by_cases hempty : (s.tables.isEmpty && mentionsCreateTable sql) = true
          · obtain ⟨htables, hmentions⟩ := Bool.and_eq_true_iff.1 hempty
            refine .inl ⟨_, rfl, .empty hread (List.isEmpty_iff.1 htables)
              ((mentionsCreateTable_iff sql).1 hmentions), ?_⟩
            rw [tryInOrder, hsupports, if_pos rfl, hread]
            exact if_pos hempty
          · refine .inr ⟨s, warnings, ⟨hsupports, hread, fun hmentions hnil => hempty ?_⟩, ?_⟩
            · rw [hnil, (mentionsCreateTable_iff sql).2 hmentions]
              rfl
            · rw [tryInOrder, hsupports, if_pos rfl, hread]
              exact if_neg hempty

/-- The whole search: the first answer decides, or else every backend that reads the dialect has
failed. The notes stand in the order of the backends. -/
theorem tryInOrder_cases (failures : List String) (backends : List Backend) :
    (∃ earlier b later s warnings notes, backends = earlier ++ b :: later ∧
      Answers grammar dialect sql b s warnings ∧
      List.Forall₂ (Fails grammar dialect sql) (earlier.filter (·.supports dialect)) notes ∧
      tryInOrder grammar dialect sql failures backends =
        .succeeded (annotate s b dialect)
          (("Parsed with " ++ b.name) :: warnings ++ (failures ++ notes))) ∨
    (∃ notes,
      List.Forall₂ (Fails grammar dialect sql) (backends.filter (·.supports dialect)) notes ∧
      tryInOrder grammar dialect sql failures backends =
        .failed "All parsing strategies failed" (failures ++ notes)) := by
  induction backends generalizing failures with
  | nil => exact .inr ⟨[], .nil, by simp [tryInOrder]⟩
  | cons b more ih =>
      obtain ⟨hsupports, hstep⟩ | ⟨note, hsupports, hfails, hstep⟩ |
        ⟨s, warnings, hanswers, hstep⟩ := tryInOrder_cons grammar dialect sql failures b more
      · -- The backend takes no part, so it stands before the answer and leaves nothing.
        have hfilter (l : List Backend) :
            (b :: l).filter (·.supports dialect) = l.filter (·.supports dialect) :=
          List.filter_cons_of_neg (by simp [hsupports])
        rw [hstep, hfilter]
        obtain ⟨earlier, c, later, s, warnings, notes, rfl, hc, hnotes, hrun⟩ | hfailed :=
          ih failures
        · exact .inl ⟨b :: earlier, c, later, s, warnings, notes, rfl, hc,
            by rwa [hfilter], hrun⟩
        · exact .inr hfailed
      · have hfilter (l : List Backend) :
            (b :: l).filter (·.supports dialect) = b :: l.filter (·.supports dialect) :=
          List.filter_cons_of_pos (by simp [hsupports])
        rw [hstep, hfilter]
        obtain ⟨earlier, c, later, s, warnings, notes, rfl, hc, hnotes, hrun⟩ |
          ⟨notes, hnotes, hrun⟩ := ih (failures ++ [note])
        · refine .inl ⟨b :: earlier, c, later, s, warnings, note :: notes, rfl, hc, ?_, ?_⟩
          · rw [hfilter]
            exact .cons hfails hnotes
          · rw [hrun, List.append_assoc]
            rfl
        · refine .inr ⟨note :: notes, .cons hfails hnotes, ?_⟩
          rw [hrun, List.append_assoc]
          rfl
      · refine .inl ⟨[], b, more, s, warnings, [], rfl, hanswers, .nil, ?_⟩
        rw [hstep, List.append_nil]

variable {grammar dialect sql}

/-- The grammar is asked about this text in this dialect and about nothing else. So the result of
parsing depends on the grammar at one place only. -/
theorem tryInOrder_congr {other : Grammar} (h : other dialect sql = grammar dialect sql)
    (failures : List String) (backends : List Backend) :
    tryInOrder other dialect sql failures backends =
      tryInOrder grammar dialect sql failures backends := by
  have hread (b : Backend) : b.read other dialect sql = b.read grammar dialect sql := by
    cases b with
    | grammar => simp only [Backend.read, Backend.steps, h]
    | _ => rfl
  induction backends generalizing failures with
  | nil => rfl
  | cons b more ih => simp only [tryInOrder, hread, ih]

end Attempts

/-! ### The contract -/

/-- What a result says about a script that is not blank: `sql` is the script without client
commands and `dialect` the dialect it is read in. -/
structure Contract (grammar : Grammar) (dialect : Sql.Dialect) (sql : String)
    (backends : List Backend) (result : ParseResult) : Prop where
  /-- The dialect is settled before the backends are asked. -/
  dialect_ne_auto : dialect ≠ .auto
  /-- There is a schema exactly if one of the backends answers. -/
  success_iff : result.success = true ↔
    ∃ b ∈ backends, ∃ s warnings, Answers grammar dialect sql b s warnings
  /-- The schema is that of the first backend that answers, with two notes of its own and nothing
  else changed. The warnings name the backend, then come its own, then one note for each failure
  before it, in the order of the backends. There are no errors. -/
  of_success : result.success = true →
    ∃ earlier b later s warnings notes found,
      backends = earlier ++ b :: later ∧
      (∀ c ∈ earlier, ∀ s' warnings', ¬ Answers grammar dialect sql c s' warnings') ∧
      Answers grammar dialect sql b s warnings ∧
      List.Forall₂ (Fails grammar dialect sql) (earlier.filter (·.supports dialect)) notes ∧
      result.schema = some found ∧ found.tables ≠ [] ∧
      result.warnings = ("Parsed with " ++ b.name) :: (warnings ++ notes) ∧
      result.errors = [] ∧ result.message = "Parse succeeded" ∧
      { found with metadata := s.metadata } = s ∧
      found.note? "parser" = some b.name ∧ found.note? "dialect" = some dialect.name ∧
      ∀ name, name ≠ "parser" → name ≠ "dialect" → found.note? name = s.note? name
  /-- A failure comes without schema and without warnings, and its errors are one note for each
  backend that reads the dialect, in the order of the backends. -/
  of_failure : result.success = false →
    result.schema = none ∧ result.warnings = [] ∧
      List.Forall₂ (Fails grammar dialect sql) (backends.filter (·.supports dialect))
        result.errors ∧
      result.message = "All parsing strategies failed"

/-- A backend that does not read the dialect or fails does not answer. There is one note for each
backend that was asked. -/
theorem not_answers_of_fails {grammar : Grammar} {dialect : Sql.Dialect} {sql : String}
    {backends : List Backend} {notes : List String}
    (h : List.Forall₂ (Fails grammar dialect sql) (backends.filter (·.supports dialect)) notes)
    {b : Backend} (hb : b ∈ backends) (s : Schema) (warnings : List String) :
    ¬ Answers grammar dialect sql b s warnings := by
  intro hanswers
  have hmem : b ∈ backends.filter (·.supports dialect) := List.mem_filter.2 ⟨hb, hanswers.1⟩
  obtain ⟨i, hi, rfl⟩ := List.mem_iff_getElem.1 hmem
  exact (h.get hi (h.length_eq ▸ hi)).not_answers s warnings hanswers

/-- The result of the search keeps the contract. -/
theorem tryInOrder_contract (grammar : Grammar) {dialect : Sql.Dialect} (sql : String)
    (backends : List Backend) (hdialect : dialect ≠ .auto) :
    Contract grammar dialect sql backends (tryInOrder grammar dialect sql [] backends) := by
  obtain ⟨earlier, b, later, s, warnings, notes, rfl, hanswers, hnotes, hrun⟩ |
    ⟨notes, hnotes, hrun⟩ := tryInOrder_cases grammar dialect sql [] backends
  · rw [hrun]
    refine ⟨hdialect, ⟨fun _ => ⟨b, by simp, s, warnings, hanswers⟩, fun _ => rfl⟩, fun _ => ?_,
      nofun⟩
    have htables : s.tables ≠ [] := Backend.tables_ne_nil_of_read hanswers.2.1
    -- The first backend that answers decides, and the fields are those of its schema with the two
    -- notes added.
    refine ⟨earlier, b, later, s, warnings, notes, annotate s b dialect, rfl,
      fun c hc => not_answers_of_fails hnotes hc, hanswers, hnotes, rfl, htables, ?_, rfl, rfl, rfl,
      ?_, ?_, ?_⟩
    · simp [ParseResult.succeeded]
    · simp [annotate, Schema.note?_withNote]
    · simp [annotate, Schema.note?_withNote]
    · intro name hparser hdialect
      simp [annotate, Schema.note?_withNote, hparser, hdialect]
  · rw [hrun]
    refine ⟨hdialect, ⟨nofun, ?_⟩, nofun, fun _ => ⟨rfl, rfl, hnotes, rfl⟩⟩
    -- Every backend has failed, so none of them can have answered.
    rintro ⟨b, hb, s, warnings, hanswers⟩
    exact absurd hanswers (not_answers_of_fails hnotes hb s warnings)

/-- What a result of `parse` says, whatever the grammar, the backends, the script and the hint. A
blank script is a failure of its own kind without errors or warnings, and no backend is asked. Of
any other script the backends see the text without client commands, in a settled dialect, and the
result keeps the `Contract`. The grammar is asked about that text in that dialect only. -/
theorem parse_contract (grammar : Grammar) (backends : List Backend) (sql hint : String) :
    if sql.toList.all Text.isSpace then
      let result := parse grammar backends sql hint
      result.success = false ∧ result.schema = none ∧ result.warnings = [] ∧ result.errors = [] ∧
        result.message = "SQL text is empty"
    else
      let cleaned := Sql.withoutClientCommands sql
      let dialect := (Sql.Dialect.ofHint hint).resolve cleaned
      Contract grammar dialect cleaned backends (parse grammar backends sql hint) ∧
        ∀ other : Grammar, other dialect cleaned = grammar dialect cleaned →
          parse other backends sql hint = parse grammar backends sql hint := by
  split
  next h =>
    have hparse : parse grammar backends sql hint = .failed "SQL text is empty" [] :=
      if_pos h
    rw [hparse]
    exact ⟨rfl, rfl, rfl, rfl, rfl⟩
  next h =>
    have hparse (g : Grammar) : parse g backends sql hint =
        tryInOrder g ((Sql.Dialect.ofHint hint).resolve (Sql.withoutClientCommands sql))
          (Sql.withoutClientCommands sql) [] backends := if_neg h
    rw [hparse]
    -- A hint is resolved before the backends are tried, so that none of them sees the dialect
    -- `auto`.
    refine ⟨tryInOrder_contract grammar _ backends (Sql.Dialect.resolve_ne_auto _ _), ?_⟩
    intro other hother
    rw [hparse, tryInOrder_congr hother]

end Parsing

end EntityDiagram
