import EntityDiagram.Proofs.Excerpt.Addition
import EntityDiagram.Proofs.Excerpt.Column
import EntityDiagram.Proofs.Excerpt.Progress
import EntityDiagram.Proofs.Excerpt.Scan
import EntityDiagram.Proofs.Parsing.BareTable

/-!
# `EntityDiagram.Proofs.Parsing.BareTable.Regex`: excerpts with unquoted names

The patterns tell a column from a constraint by the run of word characters that it starts with. No
name is such a word here, but a dollar sign ends the run, so a name may start with one.

* `BareColumn.constraintWord_part_eq`: a column passes for a constraint if it starts with such a
  word.
* `BareColumn.addPart_part`: a column adds itself if it does not pass for a constraint, and else
  nothing.
* `BareTable.exists_first_tableHead`: the head of a statement is found.
* `BareTable.excerptScript_text`: the statement adds one table, with the columns that are left.

The body is cut out by a count of parentheses and split at the commas outside of them, before any
pattern is tried on a column; so here, unlike in the reader of tokens, a column cannot take anything
from its neighbour. The pattern of the head has optional parts and white space between them, and its
first match is built up part by part (`First.bind`). In the rest of the script no other head and no
addition is found, which is again a search for keyed patterns.
-/

set_option autoImplicit false

namespace EntityDiagram.Parsing

open Text (isSpace isWordChar eqIgnoreCase Pattern Place Span)
open Text.Pattern
open Excerpt
open Ddl (PlainOption Spaced Stops isNameChar)
open Sql (isQuote)

/-! ### Columns -/

namespace BareColumn

variable (c : BareColumn)

/-- A column ends with its type. -/
theorem exists_type_eq : ∃ u d, c.type.text.toList = u ++ [d] ∧ isSpace d = false := by
  have hplain := c.type.isPlain
  rcases List.eq_nil_or_concat' c.type.text.toList with hnil | ⟨u, d, htype⟩
  · rw [hnil] at hplain
    cases hplain
  · have hd := Text.forall_isPlain hplain d (by simp [htype])
    exact ⟨u, d, htype, (Text.isPlain_facts hd).1⟩

/-- Without the white space around it, a column is its part. -/
theorem trim_chars : Text.trim c.chars = c.part := by
  obtain ⟨u, d, htype, hspace⟩ := c.exists_type_eq
  have hfirst : isSpace c.name.first = false :=
    (Ddl.isNameChar_facts (Ddl.isNameChar_of_startsAsciiWord c.name.starts)).1
  have hpart : c.part ++ c.after.chars =
      (c.name.chars ++ (c.between.chars ++ u)) ++ d :: c.after.chars := by
    rw [part, htype]
    simp
  rw [Text.trim, chars, Text.trimStart_append c.before.isSpace, hpart,
    Text.trimEnd_append_cons hspace, Text.trimEnd_spaces c.after.isSpace, part, htype]
  · simp
  · rintro e ⟨⟩
    exact hfirst

/-- No parenthesis stands in a part. -/
theorem paren_notMem_part : '(' ∉ c.part := by
  intro hmem
  rcases c.isNameChar_of_mem_chars '(' (by simp [chars, hmem]) with h | h <;>
    exact absurd h (by decide)

/-- The run of word characters at the start of a column. -/
theorem takeWhile_part : c.part.takeWhile isWordChar = c.name.chars.takeWhile isWordChar :=
  takeWhile_append_of_head _ fun d hd =>
    Text.isWordChar_of_isSpace (c.between.head?_append c.type.text.toList d hd)

/-- A column passes for a constraint if it starts with a word that opens one. -/
theorem constraintWord_part_eq : constraintWord.occursIn c.part = c.startsConstraint := by
  have hascii : ∀ d ∈ (String.ofList (c.name.chars.takeWhile isWordChar)).toList,
      Text.isAscii d = true := by
    intro d hd
    rw [String.toList_ofList] at hd
    exact Ddl.isAscii_of_isNameChar (c.name.isNameChar d ((List.takeWhile_sublist _).mem hd))
  rw [Bool.eq_iff_iff, occursIn_constraintWord_iff, startsConstraint, List.any_eq_true,
    c.takeWhile_part]
  refine exists_congr fun w => and_congr_right fun hw => ⟨fun hspells => ?_, fun heq => ?_⟩
  · exact eqIgnoreCase_of_spells hascii (by rwa [String.toList_ofList])
  · simpa using spells_of_eqIgnoreCase (constraintWords_plain w hw).1 heq

/-- The name of a column is read up to the white space behind it. -/
theorem exists_first_columnHead : ∃ name before,
    First columnHead (.start c.part) name ⟨before, c.type.text.toList⟩ ∧
      nameOf name = c.name.text := by
  have hchars : ∀ d ∈ c.name.chars, (isWordChar d || d == '$') = true :=
    fun d hd => (Ddl.isNameChar_facts (c.name.isNameChar d hd)).2.2.2
  have hopen : ∀ d ∈ (c.name.chars ++ (c.between.chars ++ c.type.text.toList)).head?,
      (d == '`' || d == '"' || d == '[') = false := by
    rintro d ⟨⟩
    have hmark := (Ddl.isNameChar_facts
      (c.name.isNameChar c.name.first (by simp [AsciiWord.chars]))).2.1
    simp only [Sql.isQuoteMark, Bool.or_eq_false_iff] at hmark ⊢
    exact ⟨⟨hmark.1.1.1.1, hmark.1.1.1.2⟩, hmark.1.1.2⟩
  -- White space ends the run of the name, and no mark closes it.
  have hend : ∀ d ∈ (c.between.chars ++ c.type.text.toList).head?,
      (isWordChar d || d == '$') = false ∧ (d == '`' || d == '"' || d == ']') = false := by
    intro d hd
    have hspace := c.between.head?_append _ d hd
    have hnot := Text.forall_isSpace (p := fun d => d ∉ ['`', '"', ']', '$']) (by decide) hspace
    simp only [List.mem_cons, List.not_mem_nil, or_false, not_or] at hnot
    simp [Text.isWordChar_of_isSpace hspace, hnot]
  have htype : ∀ d ∈ c.type.text.toList.head?, isSpace d = false := fun d hd =>
    (Text.isPlain_facts (Text.forall_isPlain c.type.isPlain d (List.mem_of_mem_head? hd))).1
  have hname : First plainName (.start c.part)
      ⟨⟨none, c.part⟩, ⟨Pattern.after none c.name.chars, c.between.chars ++ c.type.text.toList⟩⟩
      ⟨Pattern.after none c.name.chars, c.between.chars ++ c.type.text.toList⟩ := by
    refine First.span (a := ()) ((First.optional_none (Fails.char hopen)).bind ?_)
    refine (First.some1 (by simp [AsciiWord.chars]) hchars (fun d hd => (hend d hd).1) _).bind ?_
    exact (First.optional_none (Fails.char fun d hd => (hend d hd).2)).bind (First.pure _ _)
  refine ⟨_, _, (First.textStart _).bind (hname.bind ((First.spaces1 c.between.nonempty
    c.between.isSpace htype _).bind (First.pure _ _))), ?_⟩
  rw [nameOf, Span.text, part, chars_append]
  exact Sql.objectName_unquoted fun d hd =>
    have hname := c.name.isNameChar d hd
    ⟨(Ddl.isNameChar_facts hname).1, (Ddl.isNameChar_facts hname).2.1,
      (Ddl.continuesWord_of_isNameChar hname).2⟩

/-- The type of a column is read to its end. -/
theorem column?_type (table : String) :
    column? table c.name.text c.type.text.toList = some { column := c.column } := by
  have hnone : Spaced (([] : List PlainOption).flatMap PlainOption.lexemes) [] := .nil
  have hcut := cutType?_append (u := []) (t := []) c.type.isPlain c.isTypeWord (by simp [Stops])
    (fun before => ⟨before, first_typeArguments_none hnone before⟩) hnone
  simp only [List.append_nil] at hcut
  rw [column?_of_cutType? hcut hnone, column, Ddl.columnOfType]
  simp

/-- What a column adds to what has been read of a table. -/
def append (read : Table × Option PrimaryKey) : Table × Option PrimaryKey :=
  if c.startsConstraint then read
  else ({ read.1 with columns := read.1.columns ++ [c.column] }, read.2)

/-- A column adds itself if it does not pass for a constraint, and else nothing. -/
theorem addPart_part (read : Table × Option PrimaryKey) : addPart read c.part = c.append read := by
  obtain ⟨t, key⟩ := read
  cases hword : c.startsConstraint with
  -- A name that reads as a constraint keyword. The part has no parenthesis, so no clause matches,
  -- and it is passed over.
  | true =>
      have hparen := c.paren_notMem_part
      rw [addPart, primaryKey?_of_notMem hparen, foreignKey?_of_notMem hparen,
        index?_of_notMem hparen, c.constraintWord_part_eq, append, hword]
      rfl
  | false =>
      obtain ⟨name, before, hhead, hname⟩ := c.exists_first_columnHead
      obtain ⟨u, d, htype, -⟩ := c.exists_type_eq
      obtain ⟨rest, hclause, hrest⟩ := find?_columnClause_of_first hhead (by simp [htype])
      have htrim : Text.trim c.type.text.toList = c.type.text.toList := Text.trim_eq_self
        fun d hd => (Text.isPlain_facts (Text.forall_isPlain c.type.isPlain d hd)).1
      have hcolumn : column? t.name (nameOf name) (Text.trim rest.chars) =
          some { column := c.column } := by
        rw [hname, hrest, htrim, c.column?_type]
      rw [addPart_column (fails_of_occursIn (c.constraintWord_part_eq.trans hword)) hclause hcolumn,
        append, hword]
      simp

/-- Columns add those that do not pass for constraints. -/
theorem foldl_append (cs : List BareColumn) (read : Table × Option PrimaryKey) :
    cs.foldl (fun read c => c.append read) read = ({ read.1 with
      columns := read.1.columns ++ (cs.filter (!·.startsConstraint)).map column }, read.2) := by
  induction cs generalizing read with
  | nil => simp
  | cons c cs ih =>
      rw [List.foldl_cons, ih, append]
      cases hword : c.startsConstraint <;> simp [hword]

end BareColumn

/-! ### Heads -/

namespace BareTable

variable (t : BareTable)

/-- A name is followed by its parenthesis, so it is not read as `IF`. The words `IF NOT EXISTS` are
taken first where they stand. -/
theorem exists_first_fromName (before : Option Char) : ∃ span,
    First (do
        let _ ← optional (do word "IF"; spaces1; word "NOT"; spaces1; word "EXISTS"; spaces1)
        let name ← qualifiedName
        spaces; char (· == '(')
        return name)
      ⟨before, t.ifNotExists.elim [] IfNotExists.chars ++ t.fromName⟩ span
      ⟨some '(', t.body ++ ')' :: t.ending⟩ ∧ span.chars = t.name.chars := by
  have hname := fun c hc => (isQualifiedChar_facts (t.name.isQualifiedChar c hc)).1
  cases t.ifNotExists with
  | none =>
      obtain ⟨span, hread, hspan⟩ := t.name.exists_first_open t.afterName.isSpace before
        (t.body ++ ')' :: t.ending)
      exact ⟨span, (First.optional_none (fails_ifNotExists hname t.afterName.isSpace _ _)).bind
        hread, hspan⟩
  | some i =>
      -- The three words are taken by the optional part, which leaves the name.
      have hif : ∃ before', First
          (do word "IF"; spaces1; word "NOT"; spaces1; word "EXISTS"; spaces1)
          ⟨before, i.chars ++ t.fromName⟩ () ⟨before', t.fromName⟩ := by
        rw [IfNotExists.chars, List.append_assoc, List.append_assoc]
        exact ⟨_, i.ifWord.first_bind (i.not.head?_append _)
          (i.not.first_bind (i.exists_.head?_append _)
            (i.exists_.first_spaces1 (t.name.head?_append _) _))⟩
      obtain ⟨before', hif⟩ := hif
      obtain ⟨span, hread, hspan⟩ := t.name.exists_first_open t.afterName.isSpace before'
        (t.body ++ ')' :: t.ending)
      exact ⟨span, (First.optional hif).bind hread, hspan⟩

/-- The head of a statement is found. Its words may be in any letter case, with any white space
between them. -/
theorem exists_first_tableHead {before : Option Char}
    (hbefore : ∀ c ∈ before, isWordChar c = false) : ∃ span,
    First tableHead
      ⟨before, t.create.chars ++ (t.temporary.elim [] HeadWord.chars ++ t.fromTable)⟩ span
      ⟨some '(', t.body ++ ')' :: t.ending⟩ ∧ span.chars = t.name.chars := by
  have hstart : ∀ s, ∃ c ∈ (t.create.chars ++ s).head?, isWordChar c = true := by
    intro s
    obtain ⟨c, rest, htext⟩ := t.create.exists_text_eq
    have hword := (spells_of_eqIgnoreCase (by decide) t.create.spells).isWordChar (by decide)
    exact ⟨c, by simp [HeadWord.chars, htext], hword c (by simp [htext])⟩
  have htable : ∀ c ∈ t.fromTable.head?, isSpace c = false := t.table.head?_append _
  have hname : ∀ c ∈ (t.ifNotExists.elim [] IfNotExists.chars ++ t.fromName).head?,
      isSpace c = false := by
    cases t.ifNotExists with
    | none => exact t.name.head?_append _
    | some i =>
        rw [Option.elim, IfNotExists.chars, List.append_assoc]
        exact i.ifWord.head?_append _
  cases htemporary : t.temporary with
  | none =>
      obtain ⟨span, hread, hspan⟩ := t.exists_first_fromName
        (Pattern.after (Pattern.after before t.create.chars) t.table.chars)
      -- The word `TABLE` is tried as `TEMPORARY` and clashes.
      have hnone (before : Option Char) : Fails (do word "TEMPORARY"; spaces1)
          ⟨before, t.fromTable⟩ := Fails.bind_left (t.table.fails_word (by decide) _ _)
      exact ⟨span, (First.boundary hbefore (hstart _)).bind (t.create.first_bind htable
        ((First.optional_none (hnone _)).bind (t.table.first_bind hname hread))), hspan⟩
  | some w =>
      obtain ⟨span, hread, hspan⟩ := t.exists_first_fromName (Pattern.after
        (Pattern.after (Pattern.after before t.create.chars) w.chars) t.table.chars)
      have hsome := First.optional (w.first_spaces1 htable (Pattern.after before t.create.chars))
      exact ⟨span, (First.boundary hbefore (hstart _)).bind (t.create.first_bind
        (w.head?_append _) (hsome.bind (t.table.first_bind hname hread))), hspan⟩

/-! ### Tables -/

/-- The body falls into its columns. -/
theorem splitTopLevel_body : Sql.splitTopLevel t.body = t.columns.map BareColumn.part := by
  -- A column is written without quotes, parentheses and commas, so the splitter passes over it as
  -- one piece.
  have hpass : ∀ x ∈ t.columns.map BareColumn.chars, Passes {} x {} := by
    intro x hx
    obtain ⟨c, -, rfl⟩ := List.mem_map.1 hx
    refine Passes.of_notMem fun d hd hmem => ?_
    simp only [List.mem_cons, List.not_mem_nil, or_false] at hmem
    rcases c.isNameChar_of_mem_chars d hd with h | h <;>
      rcases hmem with rfl | rfl | rfl | rfl | rfl | rfl <;> exact absurd h (by decide)
  have hpart : ∀ c : BareColumn, (Text.trim c.chars).isEmpty = false := by
    intro c
    rw [c.trim_chars]
    rfl
  rw [body, Sql.splitTopLevel]
  by_cases hcolumns : t.columns = []
  · rw [hcolumns]
    rfl
  · rw [piecesFrom_joinWith (by simpa using hcolumns) hpass, List.map_map,
      List.filter_eq_self.2 fun x hx => ?_]
    · exact List.map_congr_left fun c _ => c.trim_chars
    · obtain ⟨c, -, rfl⟩ := List.mem_map.1 hx
      simp [hpart]

/-- The table that is cut out. -/
def raw : RawTable where
  qualifiedName := String.ofList t.name.chars
  body := String.ofList t.body
  comment := none

/-- The table has the columns that do not pass for constraints. -/
theorem toTable_raw : t.raw.toTable =
    { name := Sql.objectName (String.ofList t.name.chars)
      columns := (t.columns.filter (!·.startsConstraint)).map BareColumn.column } := by
  have hadds : (fun read c => addPart read (BareColumn.part c)) = fun read c => c.append read :=
    funext fun read => funext fun c => c.addPart_part read
  rw [RawTable.toTable, raw, String.toList_ofList, t.splitTopLevel_body, List.foldl_map, hadds,
    BareColumn.foldl_append]
  dsimp only
  rw [List.nil_append, BareColumn.filter_inPrimaryKey]
  rfl

/-! ### Scripts -/

/-- There are no comments to be removed. -/
theorem stripComments_text : stripComments t.text.toList = t.text.toList := by
  refine (stripFrom_eq_self fun c hc hmem => ?_).1
  simp only [List.mem_cons, List.not_mem_nil, or_false] at hmem
  rcases t.isNameChar_of_mem_text c hc with h | h | h <;>
    rcases hmem with rfl | rfl | rfl | rfl <;> exact absurd h (by decide)

/-- The body ends at its parenthesis. -/
theorem closeGroup_body : closeGroup {} (t.body ++ ')' :: t.ending) = some (t.body, t.ending) := by
  have hnot : ∀ c ∈ t.body, c ∉ ['\'', '"', '`', '-', '/', '(', ')'] := by
    intro c hc hmem
    simp only [List.mem_cons, List.not_mem_nil, or_false] at hmem
    rcases t.isNameChar_of_mem_body c hc with h | h | h <;>
      rcases hmem with rfl | rfl | rfl | rfl | rfl | rfl | rfl <;> exact absurd h (by decide)
  have hinert : Inert t.body := by
    refine .of_all (List.all_eq_true.2 fun c hc => ?_)
    simpa [isQuote, and_assoc] using hnot c hc
  exact (hinert.staysOpen 0).closeGroup_close t.ending

/-- There are no words behind it. -/
theorem isWordChar_of_mem_ending : ∀ c ∈ t.ending, isWordChar c = false := by
  intro c hc
  rcases t.isEnding c hc with h | rfl
  · exact Text.isWordChar_of_isSpace h
  · decide

/-- The scan finds the table. -/
theorem scan_text : scan t.text = { tables := [t.raw] } := by
  have hbefore : ∀ c ∈ Pattern.after none t.start.chars, isWordChar c = false := by
    intro c hc
    rw [Pattern.after, Option.or_none] at hc
    exact Text.isWordChar_of_isSpace (t.start.isSpace c (List.mem_of_getLast? hc))
  obtain ⟨span, hread, hspan⟩ := t.exists_first_tableHead hbefore
  have hsearch : ∃ start, tableHead.search (.start t.text.toList) =
      some ⟨start, span, ⟨some '(', t.body ++ ')' :: t.ending⟩⟩ := by
    rw [text, String.toList_ofList]
    exact ⟨_, (keyed_tableHead.searchFrom_spaces t.start.isSpace none _).trans
      (searchFrom_of_first hread)⟩
  obtain ⟨start, hsearch⟩ := hsearch
  -- Behind the body stands only what no further table can begin with.
  have hrest : scanAt ⟨some ')', t.ending⟩ = {} :=
    scanAt_of_none (searchFrom_eq_none (fun s hs before => keyed_tableHead.fails_of_head
      (fun c hc => t.isWordChar_of_mem_ending c (hs.subset (List.mem_of_mem_head? hc))) before) _)
  have hcomment : commentIn t.ending = none := by
    refine commentIn_of_notMem fun hmem => ?_
    rcases t.isEnding _ ((List.takeWhile_sublist _).mem hmem) with h | h <;>
      exact absurd h (by decide)
  rw [scan_eq_scanAt, t.stripComments_text, scanAt_of_closed hsearch t.closeGroup_body, hrest,
    hcomment, Span.text, hspan]
  rfl

/-- A search for additions steps over the name, whatever word it is: no word follows it. -/
theorem searchFrom_addClause_fromName (before : Option Char) :
    ∃ before', searchFrom addClause before t.fromName =
      searchFrom addClause before' (t.body ++ ')' :: t.ending) := by
  have hname : searchFrom addClause before t.fromName = searchFrom addClause
      (Pattern.after before t.name.chars)
      (t.afterName.chars ++ '(' :: (t.body ++ ')' :: t.ending)) := by
    refine searchFrom_append_of_fails (fun z _ hz before => ?_) before
    refine Fails.bind fun m hm => ?_
    obtain ⟨rfl, -⟩ := mem_boundary hm
    exact Fails.word_spaces1_word (by decide) (by decide) (by decide) _
      (fun c hc => (isQualifiedChar_facts (t.name.isQualifiedChar c (hz.subset hc))).1)
      t.afterName.isSpace (by rintro c ⟨⟩; decide) before
  rw [hname, keyed_addClause.searchFrom_spaces t.afterName.isSpace,
    keyed_addClause.searchFrom_cons (by decide)]
  exact ⟨_, rfl⟩

/-- Nothing is added to a table. -/
theorem additions_text : additions t.text = [] := by
  have hsearch : ∃ before, searchFrom addClause none t.text.toList =
      searchFrom addClause before (t.body ++ ')' :: t.ending) := by
    rw [text, String.toList_ofList, keyed_addClause.searchFrom_spaces t.start.isSpace,
      t.create.searchFrom_append keyed_addClause (by decide)]
    have htemporary (before : Option Char) : ∃ before',
        searchFrom addClause before (t.temporary.elim [] HeadWord.chars ++ t.fromTable) =
          searchFrom addClause before' t.fromTable := by
      cases t.temporary with
      | none => exact ⟨before, rfl⟩
      | some w => exact ⟨_, w.searchFrom_append keyed_addClause (by decide) _ _⟩
    have hif (before : Option Char) : ∃ before',
        searchFrom addClause before (t.ifNotExists.elim [] IfNotExists.chars ++ t.fromName) =
          searchFrom addClause before' t.fromName := by
      cases t.ifNotExists with
      | none => exact ⟨before, rfl⟩
      | some i =>
          rw [Option.elim, IfNotExists.chars, List.append_assoc, List.append_assoc,
            i.ifWord.searchFrom_append keyed_addClause (by decide),
            i.not.searchFrom_append keyed_addClause (by decide),
            i.exists_.searchFrom_append keyed_addClause (by decide)]
          exact ⟨_, rfl⟩
    obtain ⟨before, htemporary⟩ := htemporary _
    rw [htemporary, fromTable, t.table.searchFrom_append keyed_addClause (by decide)]
    obtain ⟨before, hif⟩ := hif _
    rw [hif]
    exact t.searchFrom_addClause_fromName before
  -- Behind the head, no parenthesis opens, and without one nothing is added.
  have hparen : '(' ∉ t.body ++ ')' :: t.ending := by
    intro hmem
    rcases List.mem_append.1 hmem with hmem | hmem
    · rcases t.isNameChar_of_mem_body _ hmem with h | h | h <;> exact absurd h (by decide)
    · rcases List.mem_cons.1 hmem with h | hmem
      · exact absurd h (by decide)
      · rcases t.isEnding _ hmem with h | h <;> exact absurd h (by decide)
  obtain ⟨before, hsearch⟩ := hsearch
  rw [additions_eq, t.stripComments_text]
  exact (additionsAt_congr hsearch).trans (additionsAt_of_notMem hparen)

/-- The statement adds one table. -/
theorem excerptScript_text : Excerpt.script t.text =
    [.warn "Regex fallback may miss dialect-specific syntax",
      .addTable (String.ofList t.name.chars) t.raw.toTable] := by
  rw [Excerpt.script, t.scan_text, t.additions_text]
  rfl

end BareTable

end EntityDiagram.Parsing
