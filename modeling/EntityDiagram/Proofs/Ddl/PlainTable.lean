import EntityDiagram.Proofs.Ddl.PlainLexeme
import EntityDiagram.Proofs.Ddl.Statement

/-!
# `EntityDiagram.Proofs.Ddl.PlainTable`: tables in plain notation

A `PlainTable` is a statement that creates a table in plain notation: columns with types, numbers
and options, and clauses for keys, in any order. `PlainTable.table` is the table that it declares.

The reader of scripts is followed over the tokens of such a statement. Options and keys are those of
`EntityDiagram.Proofs.Ddl.Reading`; what is new here are the arguments of a type, any list of
numbers, each with any digits. `PlainTable.script_spaced` says that a script in plain notation makes
the step of each table.
-/

set_option autoImplicit false

namespace EntityDiagram.Ddl

open Text (isWordChar)

/-! ### Tables -/

/-- Whether a word is a type on its own: it neither continues a type nor may follow the words
`EXCLUDE` and `PERIOD`. -/
structure IsTypeWord (w : String) : Prop where
  isWord : w.toList.all isWordChar = true
  notContinuing : continuesType w = false
  notUsing : w ≠ "USING"
  notFor : w ≠ "FOR"

/-- The characters of a word can be tested one by one. -/
instance (w : String) : Decidable (IsTypeWord w) :=
  decidable_of_iff (w.toList.all isWordChar = true ∧ continuesType w = false ∧ w ≠ "USING" ∧
      w ≠ "FOR")
    ⟨fun ⟨isWord, notContinuing, notUsing, notFor⟩ => ⟨isWord, notContinuing, notUsing, notFor⟩,
      fun h => ⟨h.isWord, h.notContinuing, h.notUsing, h.notFor⟩⟩

/-- A type in plain notation: a word with any numbers in parentheses behind it. -/
structure PlainType where
  word : PlainName
  isTypeWord : IsTypeWord word.text
  arguments : List Numeral
deriving DecidableEq, Repr

namespace PlainType

/-- The lexemes of the arguments of a type. -/
def argumentLexemes : List Numeral → List PlainLexeme
  | [] => []
  | n :: ns =>
    .openParen :: PlainLexeme.separated ((n :: ns).map fun n => [.numeral n]) ++ [.closeParen]

/-- The lexemes of a type. -/
def lexemes (t : PlainType) : List PlainLexeme :=
  .word t.word t.isTypeWord.isWord :: argumentLexemes t.arguments

/-- The type that is declared. -/
def columnType (t : PlainType) : Sql.ColumnType :=
  .ofParts t.word.text.toList (t.arguments.map Numeral.digits)

end PlainType

/-- An option of a column in plain notation. -/
inductive PlainOption where
  | notNull
  | autoIncrement
  | primaryKey
deriving DecidableEq, Repr

namespace PlainOption

/-- The lexemes of an option. -/
def lexemes : PlainOption → List PlainLexeme
  | .notNull => [.keyword .not, .keyword .null]
  | .autoIncrement => [.word .autoIncrement (by decide)]
  | .primaryKey => [.keyword .primary, .keyword .key]

/-- The option among everything that may stand after the type of a column. -/
def item : PlainOption → ColumnItem
  | .notNull => .option .notNull
  | .autoIncrement => .option .autoIncrement
  | .primaryKey => .primaryKey

end PlainOption

/-- A column in plain notation. -/
structure PlainColumn where
  name : QuotedName
  type : PlainType
  options : List PlainOption
deriving DecidableEq, Repr

namespace PlainColumn

/-- The lexemes of a column. -/
def lexemes (c : PlainColumn) : List PlainLexeme :=
  .name c.name :: c.type.lexemes ++ c.options.flatMap PlainOption.lexemes

/-- The column that is declared. -/
def column (c : PlainColumn) : Column where
  name := c.name.text
  dataType := c.type.columnType.dataType
  baseType := c.type.columnType.baseType
  length := c.type.columnType.length
  precision := c.type.columnType.precision
  scale := c.type.columnType.scale
  nullable := !c.options.contains .notNull && !c.options.contains .primaryKey
  inPrimaryKey := c.options.contains .primaryKey
  autoIncrement := c.type.columnType.isSerial || c.options.contains .autoIncrement

end PlainColumn

/-- A list of names that is not empty. -/
structure NameList where
  names : List QuotedName
  nonempty : names ≠ []
deriving DecidableEq, Repr

/-- The names of the list as texts. -/
def NameList.texts (ns : NameList) : List String := ns.names.map QuotedName.text

namespace ReferenceAction

/-- The plain lexemes of an action. -/
def plainLexemes : ReferenceAction → List PlainLexeme
  | .cascade => [.word .cascade (by decide)]
  | .restrict => [.word .restrict (by decide)]
  | .setNull => [.word .set (by decide), .keyword .null]
  | .setDefault => [.word .set (by decide), .keyword .default]
  | .noAction => [.word .no (by decide), .word .action (by decide)]

/-- The plain lexeme that names an event. -/
def plainEvent : KeyEvent → PlainLexeme
  | .delete => .word .delete (by decide)
  | .update => .word .update (by decide)

/-- The plain lexemes of the action on an event, if there is one. -/
def plainClause (event : KeyEvent) : Option ReferenceAction → List PlainLexeme
  | none => []
  | some a => .keyword .on :: plainEvent event :: a.plainLexemes

/-- The plain lexemes of the actions on both events, in either order. -/
def plainClauses (updateFirst : Bool) (onDelete onUpdate : Option ReferenceAction) :
    List PlainLexeme :=
  if updateFirst then plainClause .update onUpdate ++ plainClause .delete onDelete
  else plainClause .delete onDelete ++ plainClause .update onUpdate

/-- Each lexeme of the actions belongs to the action on an event. -/
theorem mem_plainClauses {updateFirst : Bool} {onDelete onUpdate : Option ReferenceAction}
    {l : PlainLexeme} (h : l ∈ plainClauses updateFirst onDelete onUpdate) :
    ∃ event a, l ∈ plainClause event (some a) := by
  have clause {event : KeyEvent} {a : Option ReferenceAction} (h : l ∈ plainClause event a) :
      ∃ event a, l ∈ plainClause event (some a) := by
    cases a with
    | none => cases h
    | some a => exact ⟨event, a, h⟩
  rw [plainClauses] at h
  split at h
  all_goals
    rcases List.mem_append.1 h with h | h
    all_goals exact clause h

end ReferenceAction

/-- What the columns of a foreign key refer to, in plain notation. -/
structure PlainReference where
  toTable : QuotedName
  toColumns : NameList
  onDelete : Option ReferenceAction
  onUpdate : Option ReferenceAction
  updateFirst : Bool
deriving DecidableEq, Repr

namespace PlainReference

/-- The lexemes of a reference. -/
def lexemes (r : PlainReference) : List PlainLexeme :=
  .keyword .references :: .name r.toTable :: (PlainLexeme.nameList r.toColumns.names ++
    ReferenceAction.plainClauses r.updateFirst r.onDelete r.onUpdate)

/-- The reference among all that may be written. -/
def reference (r : PlainReference) : Reference where
  toTable := r.toTable.text
  toColumns := r.toColumns.texts
  onDelete := r.onDelete
  onUpdate := r.onUpdate
  updateFirst := r.updateFirst

end PlainReference

/-- An element of a table body in plain notation. -/
inductive PlainElement where
  | column (c : PlainColumn)
  | primaryKey (constraint : Option QuotedName) (columns : NameList)
  | foreignKey (constraint : Option QuotedName) (columns : NameList) (r : PlainReference)
deriving DecidableEq, Repr

namespace PlainElement

/-- The lexemes of an element. -/
def lexemes : PlainElement → List PlainLexeme
  | .column c => c.lexemes
  | .primaryKey constraint columns =>
    PlainLexeme.constraintClause constraint ++ .keyword .primary :: .keyword .key ::
      PlainLexeme.nameList columns.names
  | .foreignKey constraint columns r =>
    PlainLexeme.constraintClause constraint ++ .keyword .foreign :: .keyword .key ::
      (PlainLexeme.nameList columns.names ++ r.lexemes)

/-- What an element adds to a table body. -/
def extend (table : String) (r : TableReading) : PlainElement → TableReading
  | .column c => { r with columns := r.columns ++ [c.column] }
  | .primaryKey constraint columns =>
    { r with
      primaryKey := some { name := constraint.map QuotedName.text, columns := columns.texts } }
  | .foreignKey constraint columns ref =>
    { r with
      foreignKeys := r.foreignKeys ++
        [(ref.reference.foreignKey (constraint.map QuotedName.text) columns.texts).foreignKey
          table] }

end PlainElement

/-- A table in plain notation. -/
structure PlainTable where
  name : QuotedName
  elements : List PlainElement
deriving DecidableEq, Repr

namespace PlainTable

/-- The lexemes of the statement, with its semicolon. -/
def lexemes (t : PlainTable) : List PlainLexeme :=
  [.keyword .create, .keyword .table, .name t.name, .openParen] ++
    (PlainLexeme.separated (t.elements.map PlainElement.lexemes) ++ [.closeParen, .semicolon])

/-- What the elements of the table say. -/
def body (t : PlainTable) : TableReading :=
  t.elements.foldl (PlainElement.extend t.name.text) {}

/-- The table that is declared. -/
def table (t : PlainTable) : Table := { t.body.toTable t.name.text with kind := some .base }

end PlainTable

/-! ### Lists -/

/-- The tokens of parts with commas between them. -/
theorem map_token_separated (parts : List (List PlainLexeme)) :
    (PlainLexeme.separated parts).map PlainLexeme.token =
      commaTokens (parts.map (List.map PlainLexeme.token)) := by
  induction parts with
  | nil => rfl
  | cons part parts ih =>
      cases parts with
      | nil => rfl
      | cons next more => simp [PlainLexeme.separated, commaTokens, PlainLexeme.token, ih]

/-- A list of names has the same tokens in plain notation. -/
theorem map_token_nameList (ns : List QuotedName) :
    (PlainLexeme.nameList ns).map PlainLexeme.token =
      tokensOf (nameList (ns.map QuotedName.text)) := by
  simp [PlainLexeme.nameList, nameList, map_token_separated, tokensOf_separated,
    PlainLexeme.token, Lexeme.token?, Function.comp_def]

/-- The name of a constraint has the same tokens in plain notation. -/
theorem map_token_constraintClause (name : Option QuotedName) :
    (PlainLexeme.constraintClause name).map PlainLexeme.token =
      tokensOf (constraintClause (name.map QuotedName.text)) := by
  cases name <;> rfl

/-! ### Types -/

namespace PlainType

/-- The arguments as the reader puts them together. -/
def argumentChars : List Numeral → List Char
  | [] => []
  | n :: ns => '(' :: Text.joinWith [','] ((n :: ns).map Numeral.digits) ++ [')']

/-- The tokens of numbers with commas between them. -/
abbrev numberTokens (ns : List Numeral) : List Token :=
  (PlainLexeme.separated (ns.map fun n => [.numeral n])).map PlainLexeme.token

/-- Numbers in parentheses are one group. -/
theorem groupFrom_numberTokens (ns : List Numeral) (ts : List Token) :
    groupFrom 0 (numberTokens ns ++ .closeParen :: ts) = (numberTokens ns, ts) := by
  -- Numbers and commas do not change the depth, so the group lasts to the parenthesis behind them.
  have key {us : List Token} (h : ∀ t ∈ us, t = .comma ∨ ∃ s, t = .number s) :
      groupFrom 0 (us ++ .closeParen :: ts) = (us, ts) := by
    induction us with
    | nil => rfl
    | cons t us ih =>
        have htail := ih fun u hu => h u (List.mem_cons_of_mem _ hu)
        rcases h t (by simp) with rfl | ⟨s, rfl⟩
        all_goals
          rw [List.cons_append, groupFrom, htail]
          all_goals simp
  refine key ?_
  induction ns with
  | nil => simp [numberTokens, PlainLexeme.separated]
  | cons n ns ih =>
      cases ns with
      | nil => simp [numberTokens, PlainLexeme.separated, PlainLexeme.token]
      | cons next more =>
          simpa [numberTokens, PlainLexeme.separated, PlainLexeme.token] using ih

/-- The numbers are put together without white space. -/
theorem sources_numberTokens (ns : List Numeral) :
    sources (numberTokens ns) = Text.joinWith [','] (ns.map Numeral.digits) := by
  induction ns with
  | nil => rfl
  | cons n ns ih =>
      cases ns with
      | nil => simp [numberTokens, PlainLexeme.separated, PlainLexeme.token, sources, Token.source,
          Text.joinWith]
      | cons next more =>
          have htokens : numberTokens (n :: next :: more) =
              .number (String.ofList n.digits) :: .comma :: numberTokens (next :: more) := rfl
          rw [htokens, List.map_cons, List.map_cons, Text.joinWith_cons_cons, ← List.map_cons, ← ih]
          simp [sources, Token.source]

/-- The arguments of a type are added to its word. They are only taken if none have been taken
before. -/
theorem typeFrom_arguments {read : List Char} (hread : read.getLast? ≠ some ')')
    (ns : List Numeral) {ts : List Token} (h : EndsType ts) :
    typeFrom read ((argumentLexemes ns).map PlainLexeme.token ++ ts) =
      (read ++ argumentChars ns, ts) := by
  have hbeq : (read.getLast? == some ')') = false := by simpa using hread
  cases ns with
  | nil => simpa [argumentLexemes, argumentChars] using typeFrom_of_endsType read h
  | cons n ns =>
      have htokens : (argumentLexemes (n :: ns)).map PlainLexeme.token ++ ts =
          .openParen :: (numberTokens (n :: ns) ++ .closeParen :: ts) := by
        simp [argumentLexemes, numberTokens, PlainLexeme.token]
      rw [htokens, typeFrom, hbeq]
      simp only [Bool.false_eq_true, if_false]
      rw [groupFrom_numberTokens, sources_numberTokens, typeFrom_of_endsType _ h]
      simp [argumentChars]

/-- The word of a type says more than its sign. -/
theorem signWords_word (t : PlainType) :
    Sql.ColumnType.signWords.contains (String.ofList t.word.text.toList) = false := by
  rw [String.ofList_toList]
  exact signWords_of_not_continuesType t.word.isPlain t.isTypeWord.notContinuing

/-- The digits of a number are plain, and there are some. -/
theorem digits_plain (t : PlainType) :
    ∀ d ∈ t.arguments.map Numeral.digits, d ≠ [] ∧ ∀ c ∈ d, Text.isPlain c = true := by
  intro d hd
  obtain ⟨n, -, rfl⟩ := List.mem_map.1 hd
  exact ⟨n.nonempty, n.isPlain⟩

/-- A type is read as it is declared. -/
theorem declaredType_lexemes (t : PlainType) {ts : List Token} (h : EndsType ts) :
    (declaredType (t.lexemes.map PlainLexeme.token ++ ts)).2 = ts ∧
      Sql.ColumnType.ofText (declaredType (t.lexemes.map PlainLexeme.token ++ ts)).1 =
        t.columnType := by
  -- A plain word does not end in a parenthesis.
  have hlast : t.word.text.toList.getLast? ≠ some ')' := by
    intro hlast
    have hplain := Text.forall_isPlain t.word.isPlain _ (List.mem_of_getLast? hlast)
    exact absurd hplain (by decide)
  have hread : declaredType (t.lexemes.map PlainLexeme.token ++ ts) =
      (t.word.text.toList ++ argumentChars t.arguments, ts) :=
    typeFrom_arguments hlast t.arguments h
  rw [hread]
  refine ⟨rfl, ?_⟩
  cases harguments : t.arguments with
  | nil =>
      rw [argumentChars, List.append_nil,
        Sql.ColumnType.ofText_word t.word.isPlain t.signWords_word, columnType, harguments]
      rfl
  | cons n ns =>
      have hpadded : List.Forall₂ Text.Padded (t.arguments.map Numeral.digits)
          (t.arguments.map Numeral.digits) :=
        List.forall₂_same.2 fun d _ => ⟨[], [], by simp⟩
      have htype := Sql.ColumnType.ofText_arguments (g := []) t.word.isPlain t.signWords_word
        (by simp) (by simp [harguments]) t.digits_plain hpadded
      rw [harguments] at htype
      rw [columnType, harguments, ← htype]
      simp [argumentChars]

/-- A quoted name before a type opens a column, whatever the name is. Words such as `FULLTEXT` open
an index only if an index word or a list follows them, and not a type. -/
theorem nameClause_type (t : PlainType) (table name : String) (r : TableReading)
    (ts : List Token) :
    r.nameClause table name (t.lexemes.map PlainLexeme.token ++ ts) =
      r.columnClause table name (t.lexemes.map PlainLexeme.token ++ ts) :=
  ColumnLayout.nameClause_word t.isTypeWord.notUsing t.isTypeWord.notFor table name r
    ((argumentLexemes t.arguments).map PlainLexeme.token ++ ts)

end PlainType

/-! ### Columns -/

namespace PlainOption

/-- The options have the same tokens in plain notation. -/
theorem map_token_flatMap (os : List PlainOption) :
    (os.flatMap lexemes).map PlainLexeme.token =
      tokensOf ((os.map item).flatMap ColumnItem.lexemes) := by
  induction os with
  | nil => rfl
  | cons o os ih =>
      rw [List.flatMap_cons, List.map_append, ih, List.map_cons, List.flatMap_cons,
        tokensOf_append]
      cases o <;> rfl

/-- What plain options do to a column. -/
theorem foldl_amend (os : List PlainOption) (table : String) (c : Column) :
    (os.map item).foldl (ColumnItem.amend table) { column := c } =
      { column :=
          { c with
            nullable := c.nullable && !os.contains .notNull && !os.contains .primaryKey
            inPrimaryKey := c.inPrimaryKey || os.contains .primaryKey
            autoIncrement := c.autoIncrement || os.contains .autoIncrement } } := by
  induction os generalizing c with
  | nil => simp
  | cons o os ih =>
      -- One option changes nothing but the column, from which the rest goes on.
      have hstep : ((o :: os).map item).foldl (ColumnItem.amend table) { column := c } =
          (os.map item).foldl (ColumnItem.amend table)
            { column := (o.item.amend table { column := c }).column } := by
        cases o <;> rfl
      rw [hstep, ih]
      cases o <;> simp [item, ColumnItem.amend, ColumnReading.mapColumn, ColumnOption.amend,
        Column.asKey]

end PlainOption

namespace PlainColumn

/-- A column is read as it is declared. -/
theorem elements_lexemes (c : PlainColumn) (table : String) (r : TableReading)
    {ts : List Token} (h : EndsClause ts) :
    r.elements table (c.lexemes.map PlainLexeme.token ++ ts) =
      { r with columns := r.columns ++ [c.column] }.elements table ts := by
  have hoptions : (c.options.flatMap PlainOption.lexemes).map PlainLexeme.token ++ ts =
      tokensOf ((c.options.map PlainOption.item).flatMap ColumnItem.lexemes) ++ ts := by
    rw [PlainOption.map_token_flatMap]
  obtain ⟨hleft, htype⟩ := c.type.declaredType_lexemes
    (ColumnLayout.endsType_items (c.options.map PlainOption.item) h)
  -- Options end where the clause does, so what follows is left to the next element.
  have hdefinition : columnDefinition table c.name.text
      (c.type.lexemes.map PlainLexeme.token ++
        (tokensOf ((c.options.map PlainOption.item).flatMap ColumnItem.lexemes) ++ ts)) =
      ({ column := c.column }, ts) := by
    rw [columnDefinition, hleft, htype, ColumnItem.options_lexemes _ table _ h,
      PlainOption.foldl_amend]
    simp [column, columnOfType]
  have htokens : c.lexemes.map PlainLexeme.token ++ ts =
      .name c.name.text :: (c.type.lexemes.map PlainLexeme.token ++
        (tokensOf ((c.options.map PlainOption.item).flatMap ColumnItem.lexemes) ++ ts)) := by
    rw [← hoptions]
    simp [lexemes, PlainLexeme.token]
  rw [htokens, TableReading.elements, if_neg (by simp), if_neg (by simp), TableReading.element,
    PlainType.nameClause_type, TableReading.columnClause, hdefinition]
  simp

end PlainColumn

/-! ### Statements -/

namespace ReferenceAction

/-- An action on an event has the same tokens in plain notation. -/
theorem map_token_plainClause (event : KeyEvent) (a : Option ReferenceAction) :
    (plainClause event a).map PlainLexeme.token = tokensOf (clause event a) := by
  cases a with
  | none => rfl
  | some a => cases a <;> cases event <;> rfl

/-- Actions have the same tokens in plain notation. -/
theorem map_token_plainClauses (updateFirst : Bool) (onDelete onUpdate : Option ReferenceAction) :
    (plainClauses updateFirst onDelete onUpdate).map PlainLexeme.token =
      tokensOf (clauses updateFirst onDelete onUpdate) := by
  cases updateFirst <;> simp [plainClauses, clauses, map_token_plainClause]

end ReferenceAction

namespace PlainElement

/-- The clause of a key has the same tokens in plain notation. -/
theorem map_token_primaryKey (constraint : Option QuotedName) (columns : NameList) :
    (primaryKey constraint columns).lexemes.map PlainLexeme.token =
      tokensOf (KeyClause.primary ⟨constraint.map QuotedName.text, columns.texts⟩).lexemes := by
  simp [lexemes, KeyClause.lexemes, KeyDefinition.lexemes, map_token_constraintClause,
    map_token_nameList, NameList.texts, PlainLexeme.token, Lexeme.token?]

/-- The clause of a foreign key has the same tokens in plain notation. So what is known of the
general notation can be used for the plain one. -/
theorem map_token_foreignKey (constraint : Option QuotedName) (columns : NameList)
    (r : PlainReference) :
    (foreignKey constraint columns r).lexemes.map PlainLexeme.token =
      tokensOf (KeyClause.foreign (constraint.map QuotedName.text) columns.texts
        r.reference).lexemes := by
  simp [lexemes, KeyClause.lexemes, PlainReference.lexemes, Reference.lexemes,
    PlainReference.reference, map_token_constraintClause, map_token_nameList,
    ReferenceAction.map_token_plainClauses, NameList.texts, PlainLexeme.token, Lexeme.token?]

/-- An element is read as what it adds to the table body. -/
theorem elements_lexemes (e : PlainElement) (table : String) (r : TableReading)
    (ts : List Token) (hr : r.constraint = none) (h : EndsClause ts) :
    r.elements table (e.lexemes.map PlainLexeme.token ++ ts) =
      (e.extend table r).elements table ts := by
  cases e with
  | column c => exact c.elements_lexemes table r h
  | primaryKey constraint columns =>
      rw [map_token_primaryKey, KeyClause.elements_lexemes _ table hr h]
      simp [extend, KeyClause.key?, KeyClause.foreignKey?, KeyDefinition.primaryKey]
  | foreignKey constraint columns ref =>
      rw [map_token_foreignKey, KeyClause.elements_lexemes _ table hr h]
      simp [extend, KeyClause.key?, KeyClause.foreignKey?]

end PlainElement

/-- A table body has no comment. -/
theorem TableReading.comment_toTable (r : TableReading) (name : String) :
    (r.toTable name).comment = none := by
  rw [toTable]
  cases r.key? <;> rfl

namespace PlainTable

/-- What a statement that creates a table does to the schema. -/
def step (t : PlainTable) : Step :=
  .addTable (Sql.quoteParts [t.name.text]) (t.body.toTable t.name.text)

/-- A statement that creates a table makes its step, and the statements after it follow. -/
theorem statements_lexemes (t : PlainTable) (ts : List Token) :
    statements (t.lexemes.map PlainLexeme.token ++ ts) = (statements ts).map (t.step :: ·) := by
  have htokens : t.lexemes.map PlainLexeme.token ++ ts =
      .keyword .create :: .keyword .table :: .name t.name.text :: .openParen ::
        (commaTokens (t.elements.map fun e => e.lexemes.map PlainLexeme.token) ++
          .closeParen :: .semicolon :: ts) := by
    simp [lexemes, map_token_separated, PlainLexeme.token, Function.comp_def]
  have hbody : tableBody t.name.text
      (commaTokens (t.elements.map fun e => e.lexemes.map PlainLexeme.token) ++
        .closeParen :: .semicolon :: ts) = .ok (t.body.toTable t.name.text, .semicolon :: ts) := by
    rw [tableBody, TableReading.elements_commaTokens _ (fun r e => e.extend t.name.text r)
      (fun e r ts hr h => e.elements_lexemes t.name.text r ts hr h)
      (fun r e => by cases e <;> rfl) t.elements rfl]
    rfl
  -- Behind the body there is no option, only the semicolon.
  have hread : statement (.keyword .create) (.keyword .table :: .name t.name.text :: .openParen ::
      (commaTokens (t.elements.map fun e => e.lexemes.map PlainLexeme.token) ++
        .closeParen :: .semicolon :: ts)) = .ok ([t.step], .semicolon :: ts) := by
    show (tableBody t.name.text _).map _ = _
    rw [hbody]
    show Except.ok ([Step.addTable _ { t.body.toTable t.name.text with
      comment := (tableOptions none _).1 }], (tableOptions none _).2) = _
    rw [tableOptions_semicolon, step, ← TableReading.comment_toTable t.body t.name.text]
    rfl
  rw [htokens, statements_cons (by simp) hread, statements_semicolon]
  rfl

/-- A script in plain notation makes the steps of its tables, in order. -/
theorem script_spaced {ts : List PlainTable} {sql : String}
    (h : Spaced (ts.flatMap lexemes) sql.toList) : script sql = .ok (ts.map step) := by
  have key (ts : List PlainTable) :
      statements ((ts.flatMap lexemes).map PlainLexeme.token ++ [.eof]) = .ok (ts.map step) := by
    induction ts with
    | nil => simp [statements]
    | cons t ts ih =>
        rw [List.flatMap_cons, List.map_append, List.append_assoc, statements_lexemes, ih]
        rfl
  rw [script, h.tokens_eq, key]

end PlainTable

end EntityDiagram.Ddl
