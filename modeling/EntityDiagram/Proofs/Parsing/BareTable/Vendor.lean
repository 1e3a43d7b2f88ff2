import EntityDiagram.Proofs.Ddl.Continuation
import EntityDiagram.Proofs.Parsing.BareTable

/-!
# `EntityDiagram.Proofs.Parsing.BareTable.Vendor`: the reader of tokens on unquoted names

The lexer makes a keyword of a word wherever it stands. In the body of a table, a keyword that opens
no constraint is stepped over up to the next comma, and the column that it was to name is gone.

* `BareColumn.elements_tokens`: a column adds itself if its name is no keyword, and else nothing.
* `BareTable.tokens_fromName`: the tokens of a statement from the name of its table on.
* `BareTable.ddlScript_text`: the statement adds one table, with the columns that are left.

A word in any letter case becomes a keyword if its upper case is one, so that it has to be shown of
the head as well that its words are the keywords they seem to be. The body is an induction over the
columns, in which what has been read is the columns that were kept. A column that is stepped over
ends at the comma behind it: the parentheses of its type are a group, and a comma inside of them
does not end the column.
-/

set_option autoImplicit false

namespace EntityDiagram.Parsing

open Text (isSpace)
open Ddl (Keyword Token TableReading EndsClause Stops commaTokens)
open Ddl.Token (tokens continuesWord)
open Excerpt (DottedName NamePart)

/-! ### Words -/

/-- White space has no tokens. -/
theorem Break.tokens_append (b : Break) (s : List Char) : tokens (b.chars ++ s) = tokens s :=
  b.toGap.tokens_append s

/-- Where a break stands, a word stops. -/
theorem Break.stops_append (b : Break) (s : List Char) : Stops (b.chars ++ s) :=
  fun c hc => .inl (b.head?_append s c hc)

/-- A word of a head is one token. -/
theorem HeadWord.tokens_append {w : String} (h : HeadWord w) (s : List Char) :
    tokens (h.chars ++ s) = Token.ofWord h.text.toList :: tokens s := by
  obtain ⟨c, rest, hchars⟩ := h.exists_text_eq
  have hword := h.startsAsciiWord
  rw [hchars] at hword
  have hread := Ddl.tokens_asciiWord (hword c (by simp))
    (fun d hd => Ddl.isNameChar_of_startsAsciiWord (hword d (List.mem_cons_of_mem _ hd)))
    fun d hd => ((h.behind.stops_append s).facts d hd).2.1
  rw [h.behind.tokens_append] at hread
  rw [HeadWord.chars, List.append_assoc, hchars]
  exact hread

/-- A keyword is read in any letter case. -/
theorem HeadWord.tokens_keyword {w : String} (h : HeadWord w) {k : Keyword} (hk : k.word = w)
    (s : List Char) : tokens (h.chars ++ s) = .keyword k :: tokens s := by
  subst hk
  have htoken : Token.ofWord h.text.toList = .keyword k := by
    have hupper := Text.upperText_of_eqIgnoreCase h.isPlainWord h.spells
    rw [Text.upperText] at hupper
    rw [Token.ofWord, hupper]
    cases k <;> rfl
  rw [h.tokens_append, htoken]

/-! ### Columns -/

namespace BareColumn

variable (c : BareColumn)

/-- The tokens of a column. -/
def tokens : List Token := [Token.ofWord c.name.chars, .name c.type.text]

/-- A column is read as its two words. -/
theorem tokens_chars {s : List Char} (hs : Stops s) :
    Token.tokens (c.chars ++ s) = c.tokens ++ Token.tokens s := by
  have hafter := c.after.stops_append hs
  have hname := Ddl.tokens_asciiWord c.name.starts c.name.isName
    fun d hd =>
      ((c.between.stops_append (c.type.text.toList ++ (c.after.chars ++ s))).facts d hd).2.1
  have htype := (Ddl.Lexeme.word c.type).tokens_chars (s := c.after.chars ++ s)
    fun d hd => (hafter.facts d hd).2.1
  rw [c.between.tokens_append] at hname
  simp only [chars, part, AsciiWord.chars, List.append_assoc, List.cons_append] at hname ⊢
  rw [c.before.tokens_append, hname]
  refine congrArg (Token.ofWord _ :: ·) (htype.trans ?_)
  rw [c.after.tokens_append]
  rfl

/-- A word that is no keyword is a name. -/
theorem ofWord_of_isNamed (h : c.isNamed = true) :
    Token.ofWord c.name.chars = .name c.name.text := by
  rw [isNamed, Option.isNone_iff_eq_none, Text.upperText, AsciiWord.text, String.toList_ofList] at h
  rw [Token.ofWord, h]
  rfl

/-- Any other word is a keyword, and one that opens no constraint. -/
theorem exists_keyword_of_not_isNamed (h : c.isNamed = false) :
    ∃ k, Token.ofWord c.name.chars = .keyword k ∧ k.word ∉ Excerpt.constraintWords := by
  rw [isNamed, Option.isNone_eq_false_iff, Option.isSome_iff_exists] at h
  obtain ⟨k, hk⟩ := h
  have hword : k.word = Text.upperText c.name.text := by
    simpa using List.find?_some hk
  refine ⟨k, ?_, fun hmem => ?_⟩
  · rw [Text.upperText, AsciiWord.text, String.toList_ofList] at hk
    rw [Token.ofWord, hk]
  · have hascii : ∀ d ∈ c.name.text.toList, Text.isAscii d = true := by
      rw [AsciiWord.text, String.toList_ofList]
      exact fun d hd => Ddl.isAscii_of_isNameChar (c.name.isNameChar d hd)
    have hnot := c.notOpening _ hmem
    rw [hword, Text.eqIgnoreCase_upperText hascii] at hnot
    cases hnot

/-- A name and a type make a column. -/
theorem nameClause_type (table : String) (r : TableReading) {ts : List Token} (h : EndsClause ts) :
    r.nameClause table c.name.text (.name c.type.text :: ts) =
      ({ r with columns := r.columns ++ [c.column] }, ts) := by
  -- A name that opens another kind of clause is ruled out by the conditions on a column's name.
  have hother : Ddl.opensOtherConstraint c.name.text (.name c.type.text :: ts) = false := by
    simp [Ddl.opensOtherConstraint, c.notOpening "EXCLUDE" (by decide),
      c.notOpening "PERIOD" (by decide)]
  have hspecial : Ddl.opensSpecialIndex c.name.text (.name c.type.text :: ts) = false := by
    simp [Ddl.opensSpecialIndex, c.notOpening "FULLTEXT" (by decide),
      c.notOpening "SPATIAL" (by decide)]
  have htype : Ddl.declaredType (.name c.type.text :: ts) = (c.type.text.toList, ts) :=
    Ddl.typeFrom_of_endsType _ (Ddl.ColumnLayout.endsType_items [] h)
  have hdefinition : Ddl.columnDefinition table c.name.text (.name c.type.text :: ts) =
      ({ column := c.column }, ts) := by
    rw [Ddl.columnDefinition, htype]
    exact Ddl.ColumnItem.options_lexemes [] table _ h
  rw [TableReading.nameClause, hother, hspecial]
  simp [TableReading.columnClause, hdefinition]

/-- What a column adds to what has been read of a table body. -/
def extend (r : TableReading) : TableReading :=
  if c.isNamed then { r with columns := r.columns ++ [c.column] } else r

/-- A column adds itself if its name is no keyword, and else nothing. -/
theorem elements_tokens (table : String) (r : TableReading) {ts : List Token} (h : EndsClause ts) :
    r.elements table (c.tokens ++ ts) = (c.extend r).elements table ts := by
  cases hnamed : c.isNamed with
  | true =>
      rw [tokens, c.ofWord_of_isNamed hnamed, extend, hnamed]
      simp only [List.cons_append, List.nil_append]
      rw [TableReading.elements, if_neg (by simp), if_neg (by simp), TableReading.element,
        c.nameClause_type table r h]
      rfl
  | false =>
      obtain ⟨k, htoken, hword⟩ := c.exists_keyword_of_not_isNamed hnamed
      -- The keyword and the type are stepped over.
      have helement : r.element table (.keyword k) (.name c.type.text :: ts) = (r, ts) := by
        have hskip : Ddl.skipElementAfter (.keyword k) (.name c.type.text :: ts) = ts :=
          Ddl.skipElement_eq_self h
        cases k
        case constraint | primary | foreign | unique | index | key => exact absurd hword (by decide)
        all_goals exact congrArg (Prod.mk r) hskip
      rw [tokens, htoken, extend, hnamed]
      simp only [List.cons_append, List.nil_append]
      rw [TableReading.elements, if_neg (by simp), if_neg (by simp), helement]
      rfl

end BareColumn

/-! ### Names of tables -/

/-- A part of a name is one token. -/
theorem tokens_namePart {p : NamePart} (hp : ReadsAsName p) {s : List Char}
    (hs : ∀ d ∈ s.head?, continuesWord d = false ∧ d ≠ '`') :
    tokens (p.chars ++ s) = .name p.name.text :: tokens s := by
  rw [NamePart.chars]
  split
  · have hmark : '`' ∉ p.name.text.toList := fun hmem =>
      absurd (Ddl.isNameChar_facts (p.name.isNameChar _ hmem)).2.1 (by decide)
    have hread := Token.step_quotedName (.inl rfl) p.name.text.toList fun h => (hs _ h).2 rfl
    rw [Token.doubleQuotes_eq_self hmark, String.ofList_toList] at hread
    simpa using Token.tokens_of_step hread
  · rename_i hticked
    -- Without quotes the word is only a name if it is no keyword.
    obtain ⟨hstart, hkeyword⟩ := hp.resolve_left hticked
    have htoken : Token.ofWord p.name.text.toList = .name p.name.text := by
      rw [Text.upperText] at hkeyword
      rw [Token.ofWord, hkeyword, String.ofList_toList]
    obtain ⟨c, rest, hchars⟩ := List.exists_cons_of_ne_nil p.name.nonempty
    have hname := p.name.isNameChar
    rw [← htoken]
    rw [hchars] at hstart hname ⊢
    exact Ddl.tokens_asciiWord (hstart c rfl) (fun d hd => hname d (by simp [hd]))
      fun d hd => (hs d hd).1

/-- The tokens of further parts of a name. -/
def dottedTokens (ps : List NamePart) : List Token :=
  ps.flatMap fun p => [.dot, .name p.name.text]

/-- Further parts of a name are read one after the other. What follows must end the last part, as
each dot ends the part in front of it. -/
theorem tokens_dottedParts {ps : List NamePart} (hps : ∀ p ∈ ps, ReadsAsName p) {s : List Char}
    (hs : ∀ d ∈ s.head?, continuesWord d = false ∧ d ≠ '`') :
    tokens (ps.flatMap (fun p => '.' :: p.chars) ++ s) = dottedTokens ps ++ tokens s ∧
      ∀ d ∈ (ps.flatMap (fun p => '.' :: p.chars) ++ s).head?,
        continuesWord d = false ∧ d ≠ '`' := by
  induction ps with
  | nil => exact ⟨rfl, hs⟩
  | cons p ps ih =>
      -- What follows a part is a dot or the end of the name, and neither goes on with the word.
      obtain ⟨htokens, hhead⟩ := ih fun q hq => hps q (by simp [hq])
      constructor
      · rw [List.flatMap_cons, List.cons_append, List.cons_append, List.append_assoc,
          Token.tokens_symbol (t := .dot) (by decide), tokens_namePart (hps p (by simp)) hhead,
          htokens]
        rfl
      · rintro d ⟨⟩
        decide

/-- The parts of a name are read off their tokens. -/
theorem dottedParts_tokens (ps : List NamePart) {ts : List Token} (hts : ts.head? ≠ some .dot) :
    Ddl.dottedParts (dottedTokens ps ++ ts) = (ps.map fun p => p.name.text, ts) := by
  induction ps with
  | nil =>
      cases ts with
      | nil => rfl
      | cons t ts =>
          cases t with
          | dot => exact absurd rfl hts
          | _ => rfl
  | cons p ps ih =>
      rw [dottedTokens, List.flatMap_cons, ← dottedTokens, List.append_assoc]
      simp only [List.cons_append, List.nil_append, Ddl.dottedParts]
      rw [ih]
      rfl

/-! ### Statements -/

namespace BareTable

variable (t : BareTable)

/-- The tokens of the name of the table. -/
def nameTokens : List Token := .name t.name.first.name.text :: dottedTokens t.name.more

/-- The inside of the parentheses is read column by column. -/
theorem tokens_columns (cs : List BareColumn) (s : List Char) :
    tokens (Text.joinWith [','] (cs.map BareColumn.chars) ++ ')' :: s) =
      commaTokens (cs.map BareColumn.tokens) ++ .closeParen :: tokens s := by
  have hclosing : Stops (')' :: s) := by simp [Stops, Ddl.isSymbol]
  induction cs with
  | nil => exact Token.tokens_symbol (t := .closeParen) (by decide) s
  | cons c cs ih =>
      cases cs with
      | nil =>
          rw [List.map_singleton, Text.joinWith_singleton, c.tokens_chars hclosing,
            Token.tokens_symbol (t := .closeParen) (by decide)]
          rfl
      | cons next more =>
          -- A comma behind the column stops its type in the same way as the closing parenthesis
          -- does.
          have hcomma (s : List Char) : Stops (',' :: s) := by simp [Stops, Ddl.isSymbol]
          rw [List.map_cons, List.map_cons, Text.joinWith_cons_cons, ← List.map_cons,
            List.append_assoc, List.append_assoc, List.singleton_append, c.tokens_chars (hcomma _),
            Token.tokens_symbol (t := .comma) (by decide), ih]
          simp [commaTokens]

/-- Behind the parentheses there are semicolons. -/
theorem exists_tokens_ending : ∃ ts, tokens t.ending = ts ++ [.eof] ∧
    ∀ u ∈ ts, u = Token.semicolon := by
  have key {s : List Char} (h : ∀ c ∈ s, isSpace c = true ∨ c = ';') :
      ∃ ts, tokens s = ts ++ [.eof] ∧ ∀ u ∈ ts, u = Token.semicolon := by
    induction s with
    | nil => exact ⟨[], Token.tokens_nil, by simp⟩
    | cons c s ih =>
        obtain ⟨ts, htokens, hts⟩ := ih fun d hd => h d (by simp [hd])
        rcases h c (by simp) with hspace | rfl
        · exact ⟨ts, (Token.tokens_of_step (Token.step_space hspace s)).trans htokens, hts⟩
        · refine ⟨.semicolon :: ts, ?_, by simpa using hts⟩
          rw [Token.tokens_symbol (t := .semicolon) (by decide), htokens]
          rfl
  exact key t.isEnding

/-- The tokens from the name of the table on. -/
theorem tokens_fromName : tokens t.fromName = t.nameTokens ++ .openParen ::
    (commaTokens (t.columns.map BareColumn.tokens) ++ .closeParen :: tokens t.ending) := by
  have hparen (s : List Char) :
      ∀ d ∈ (t.afterName.chars ++ '(' :: s).head?, continuesWord d = false ∧ d ≠ '`' := by
    intro d hd
    have hfacts := (t.afterName.stops_append (s := '(' :: s) (by simp [Stops, Ddl.isSymbol])).facts
      d hd
    exact ⟨hfacts.2.1, fun h => hfacts.2.2.2 (by simp [h])⟩
  obtain ⟨hmore, hhead⟩ := tokens_dottedParts
    (fun p hp => t.isName p (List.mem_cons_of_mem _ hp)) (hparen _)
  rw [fromName, DottedName.chars, List.append_assoc,
    tokens_namePart (t.isName _ (by simp)) hhead, hmore, t.afterName.tokens_append,
    Token.tokens_symbol (t := .openParen) (by decide), body, tokens_columns]
  simp [nameTokens]

/-- The words `IF NOT EXISTS` are stepped over. -/
theorem skipIfNotExists_tokens : Ddl.skipIfNotExists (tokens
    (t.ifNotExists.elim [] IfNotExists.chars ++ t.fromName)) = tokens t.fromName := by
  have hname : ∃ n ts, tokens t.fromName = .name n :: ts := by
    rw [tokens_fromName, nameTokens]
    exact ⟨_, _, rfl⟩
  obtain ⟨n, ts, hname⟩ := hname
  cases t.ifNotExists with
  | none =>
      rw [Option.elim, List.nil_append, hname]
      rfl
  | some i =>
      rw [Option.elim, IfNotExists.chars, List.append_assoc, List.append_assoc,
        i.ifWord.tokens_keyword (k := .ifWord) rfl, i.not.tokens_keyword (k := .not) rfl,
        i.exists_.tokens_keyword (k := .exists) rfl, hname]
      rfl

/-- What has been read of the table at its closing parenthesis. -/
def reading : TableReading := t.columns.foldl (fun r c => c.extend r) {}

/-- What is read are the columns whose names are no keywords. -/
theorem reading_eq : t.reading =
    { columns := (t.columns.filter BareColumn.isNamed).map BareColumn.column } := by
  have key (cs : List BareColumn) (r : TableReading) : cs.foldl (fun r c => c.extend r) r =
      { r with
        columns := r.columns ++ (cs.filter BareColumn.isNamed).map BareColumn.column } := by
    induction cs generalizing r with
    | nil => simp
    | cons c cs ih =>
        rw [List.foldl_cons, ih, BareColumn.extend]
        cases hnamed : c.isNamed <;> simp [hnamed]
  exact (key t.columns {}).trans (by simp)

/-- The statement adds one table. -/
def step : Step := .addTable (Sql.quoteParts t.names) (t.reading.toTable (Ddl.lastPart t.names))

/-- The table is created from its name and its body. All that follows the body is left for the next
statement. -/
theorem createTable_tokens {ts : List Token} (hts : tokens t.ending = ts ++ [.eof])
    (hsemicolons : ∀ u ∈ ts, u = Token.semicolon) :
    Ddl.createTable (tokens (t.ifNotExists.elim [] IfNotExists.chars ++ t.fromName)) =
      .ok ([t.step], tokens t.ending) := by
  have hqualified : Ddl.qualifiedName? (tokens t.fromName) = some (t.names, .openParen ::
      (commaTokens (t.columns.map BareColumn.tokens) ++ .closeParen :: tokens t.ending)) := by
    rw [tokens_fromName, nameTokens, List.cons_append, Ddl.qualifiedName?,
      dottedParts_tokens _ (by simp)]
    rfl
  have hbody : Ddl.tableBody (Ddl.lastPart t.names)
      (commaTokens (t.columns.map BareColumn.tokens) ++ .closeParen :: tokens t.ending) =
      .ok (t.reading.toTable (Ddl.lastPart t.names), tokens t.ending) := by
    rw [Ddl.tableBody, TableReading.elements_commaTokens _ (fun r c => c.extend r)
      (fun c r ts _ h => c.elements_tokens _ r h)
      (fun r c => by rw [BareColumn.extend]; split <;> rfl) t.columns rfl]
    rfl
  -- What follows the body is a semicolon or the end, and neither is an option.
  have hoptions : Ddl.tableOptions none (tokens t.ending) = (none, tokens t.ending) := by
    rw [hts]
    cases ts with
    | nil => rfl
    | cons u ts =>
        obtain rfl := hsemicolons u (by simp)
        exact Ddl.tableOptions_semicolon none _
  rw [Ddl.createTable, skipIfNotExists_tokens, hqualified]
  dsimp only
  rw [hbody]
  show Except.ok ([Step.addTable _ { t.reading.toTable _ with
    comment := (Ddl.tableOptions none _).1 }], (Ddl.tableOptions none _).2) = _
  rw [hoptions, step, ← TableReading.comment_toTable t.reading (Ddl.lastPart t.names)]

/-- The statement is read as its step. -/
theorem ddlScript_text : Ddl.script t.text = .ok [t.step] := by
  obtain ⟨ts, hts, hsemicolons⟩ := t.exists_tokens_ending
  have hcreate := t.createTable_tokens hts hsemicolons
  have htokens : tokens t.text.toList = .keyword .create ::
      tokens (t.temporary.elim [] HeadWord.chars ++ t.fromTable) := by
    rw [text, String.toList_ofList, t.start.tokens_append,
      t.create.tokens_keyword (k := .create) rfl]
  have hmodifiers : Ddl.skipModifiers false
      (tokens (t.temporary.elim [] HeadWord.chars ++ t.fromTable)) = .keyword .table ::
        tokens (t.ifNotExists.elim [] IfNotExists.chars ++ t.fromName) := by
    have htable : tokens t.fromTable = .keyword .table ::
        tokens (t.ifNotExists.elim [] IfNotExists.chars ++ t.fromName) :=
      t.table.tokens_keyword (k := .table) rfl _
    cases t.temporary with
    | none =>
        rw [Option.elim, List.nil_append, htable]
        rfl
    | some w =>
        -- The lexer has no keyword for `TEMPORARY`, so it is told by its upper case.
        have hupper := Text.upperText_of_eqIgnoreCase w.isPlainWord w.spells
        have htoken : Token.ofWord w.text.toList = .name w.text := by
          rw [Text.upperText] at hupper
          rw [Token.ofWord, hupper, String.ofList_toList]
          rfl
        rw [Option.elim, w.tokens_append, htable, htoken, Ddl.skipModifiers,
          hupper]
        rfl
  have hstatement : Ddl.statement (.keyword .create)
      (tokens (t.temporary.elim [] HeadWord.chars ++ t.fromTable)) =
        .ok ([t.step], tokens t.ending) := by
    show Ddl.create _ = _
    rw [Ddl.create, hmodifiers]
    exact hcreate
  rw [Ddl.script, htokens, Ddl.statements_cons (by simp) hstatement]
  dsimp only
  rw [hts, Ddl.statements_semicolons hsemicolons]
  rfl

end BareTable

end EntityDiagram.Parsing
