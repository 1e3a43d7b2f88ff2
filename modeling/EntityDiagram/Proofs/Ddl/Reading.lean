import EntityDiagram.Proofs.Ddl.Layout

/-!
# `EntityDiagram.Proofs.Ddl.Reading`: reading the parts of a table back

The reader of scripts is steered by keywords, with a branch for each kind of option and clause.
This module follows it over the tokens that a definition writes, one lemma for each reader:

* `columnNames_nameList`, `declaredType_lexemes`: lists of names, and types.
* `Reference.foreignKey_lexemes`: a reference with its actions, in either order.
* `ColumnLayout.elements_lexemes`: a column with its options and keys.
* `KeyClause.elements_lexemes`: the clause of a key.

Each lemma names the tokens after what is read, as `ts`, and says what they must not begin with.

The condition on `ts` is what the grammar calls a look ahead: a type ends where no word continues
it, an action where no `ON` follows, a column at a comma or parenthesis. Behind the parts of a
definition these conditions hold by themselves, and the lemmas for whole elements have none left but
that a comma or the closing parenthesis comes next.

The order of the options of a column is free, and an option may come twice; the induction is over
the options, with what has been read of the column so far as the state (`ColumnReading`).
-/

set_option autoImplicit false

namespace EntityDiagram.Ddl

open Text (eqIgnoreCase isPlainWord upperText)
open Sql (digits)

/-! ### Tokens of lexemes -/

/-- No lexemes have no tokens. -/
@[simp] theorem tokensOf_nil : tokensOf [] = [] := rfl

/-- A lexeme has one token, or none if it is white space or a comment. -/
@[simp] theorem tokensOf_cons (l : Lexeme) (ls : List Lexeme) :
    tokensOf (l :: ls) = l.token?.toList ++ tokensOf ls := by
  cases h : l.token? <;> simp [tokensOf, h]

/-- The tokens of lexemes come in the order of the lexemes. -/
@[simp] theorem tokensOf_append (ls ls' : List Lexeme) :
    tokensOf (ls ++ ls') = tokensOf ls ++ tokensOf ls' := List.filterMap_append

/-- Two plain words are the same word, or no word at all. -/
theorem isWord_plain {v w : String} (hv : isPlainWord v.toList = true)
    (hw : isPlainWord w.toList = true) (hne : v ≠ w) : (Token.name v).isWord w = false := by
  rw [Token.isWord, Bool.eq_false_iff]
  exact fun h => hne ((Text.eqIgnoreCase_plain_iff hv hw).1 h)

/-! ### Lists of names -/

/-- The names between the parentheses of a list are read in order. -/
theorem listedNames_separated (names : List String) (ts : List Token) :
    listedNames true 0 (tokensOf (separated (names.map fun name => [.quoted name])) ++
      .closeParen :: ts) = (names, ts) := by
  induction names with
  | nil => rfl
  | cons name names ih =>
      cases names with
      | nil => rfl
      | cons next more =>
          -- After a name the reader waits for the comma, and after the comma for a name.
          simp only [List.map_cons, separated, List.cons_append, List.nil_append, tokensOf_cons,
            Lexeme.token?, Option.toList_some] at ih ⊢
          rw [listedNames, if_pos rfl, listedNames, ih]

/-- A list of names is read as these names. -/
theorem columnNames_nameList (names : List String) (ts : List Token) :
    columnNames (tokensOf (nameList names) ++ ts) = (names, ts) := by
  have h := listedNames_separated names ts
  simpa [nameList, columnNames, Lexeme.token?] using h

/-! ### Types -/

/-- Whether a type ends before the tokens. -/
def EndsType (ts : List Token) : Prop :=
  ts.head? ≠ some .openParen ∧ ∀ w, ts.head? = some (.name w) → continuesType w = false

/-- Nothing continues a type before tokens that end it. -/
theorem typeFrom_of_endsType (read : List Char) {ts : List Token} (h : EndsType ts) :
    typeFrom read ts = (read, ts) := by
  obtain ⟨hparen, hname⟩ := h
  unfold typeFrom
  split
  · simp at hparen
  · rename_i w rest
    rw [if_neg (by simp [hname w rfl])]
  · rfl

/-- The arguments of a type are added to its word. -/
theorem typeFrom_arguments {read : List Char} (hread : read.getLast? ≠ some ')')
    (a : Sql.TypeArguments) {ts : List Token} (h : EndsType ts) :
    typeFrom read (tokensOf (DeclaredType.argumentLexemes a) ++ ts) = (read ++ a.chars, ts) := by
  -- A second group of parentheses would end the type, so the word must not end in one.
  have hbeq : (read.getLast? == some ')') = false := by simpa using hread
  cases a with
  | none => simpa [DeclaredType.argumentLexemes, Sql.TypeArguments.chars] using
      typeFrom_of_endsType read h
  | length n =>
      simp only [DeclaredType.argumentLexemes, tokensOf_cons, Lexeme.token?, Option.toList_some,
        tokensOf_nil, List.cons_append, List.nil_append]
      rw [typeFrom, hbeq]
      simp only [groupFrom, Bool.false_eq_true, if_false]
      rw [typeFrom_of_endsType _ h]
      simp [sources, Token.source, Sql.TypeArguments.chars]
  | precision p s =>
      simp only [DeclaredType.argumentLexemes, tokensOf_cons, Lexeme.token?, Option.toList_some,
        tokensOf_nil, List.cons_append, List.nil_append]
      rw [typeFrom, hbeq]
      simp only [groupFrom, Bool.false_eq_true, if_false]
      rw [typeFrom_of_endsType _ h]
      simp [sources, Token.source, Sql.TypeArguments.chars]

/-- A word that does not continue a type says more than its sign. -/
theorem signWords_of_not_continuesType {w : String} (hw : isPlainWord w.toList = true)
    (h : continuesType w = false) : Sql.ColumnType.signWords.contains w = false := by
  rw [continuesType, Text.upperText_plain hw] at h
  rw [Bool.eq_false_iff] at h ⊢
  intro hsign
  apply h
  simp only [Sql.ColumnType.signWords, typeContinuations, List.contains_eq_mem, List.mem_cons,
    List.not_mem_nil, or_false, decide_eq_true_eq] at hsign ⊢
  rcases hsign with rfl | rfl | rfl <;> decide

/-- A type is read as it is declared. -/
theorem declaredType_lexemes (t : DeclaredType) {ts : List Token} (h : EndsType ts) :
    (declaredType (tokensOf t.lexemes ++ ts)).2 = ts ∧
      Sql.ColumnType.ofText (declaredType (tokensOf t.lexemes ++ ts)).1 = t.columnType := by
  -- A plain word does not end in a parenthesis.
  have hlast : t.word.text.toList.getLast? ≠ some ')' := by
    intro hlast
    have := Text.forall_isPlain t.word.isPlain _ (List.mem_of_getLast? hlast)
    exact absurd this (by decide)
  have hread : declaredType (tokensOf t.lexemes ++ ts) =
      (t.word.text.toList ++ t.arguments.chars, ts) := by
    simpa [DeclaredType.lexemes, Lexeme.token?, declaredType] using
      typeFrom_arguments hlast t.arguments h
  rw [hread]
  refine ⟨rfl, Sql.ColumnType.ofText_declared t.word.isPlain ?_ t.arguments⟩
  rw [String.ofList_toList]
  exact signWords_of_not_continuesType t.word.isPlain t.notContinuing

/-! ### References -/

namespace ReferenceAction

/-- An action is read as the name under which it is kept. -/
theorem action_lexemes (a : ReferenceAction) (ts : List Token) :
    action (tokensOf a.lexemes ++ ts) = (a.label, ts) := by
  -- The reader compares words in upper case, and all that it compares here is fixed.
  have hword : (Token.name "CASCADE").isWord "SET" = false ∧
      (Token.name "CASCADE").isWord "NO" = false ∧ upperText "CASCADE" = "CASCADE" ∧
      (Token.name "RESTRICT").isWord "SET" = false ∧
      (Token.name "RESTRICT").isWord "NO" = false ∧ upperText "RESTRICT" = "RESTRICT" ∧
      (Token.name "SET").isWord "SET" = true ∧ (Token.name "NO").isWord "SET" = false ∧
      (Token.name "NO").isWord "NO" = true := by decide
  cases a with
  | cascade =>
      show action (.name "CASCADE" :: ts) = _
      simp [action, current, upperSource, Token.source, hword, label]
  | restrict =>
      show action (.name "RESTRICT" :: ts) = _
      simp [action, current, upperSource, Token.source, hword, label]
  | setNull =>
      show action (.name "SET" :: .keyword .null :: ts) = _
      simp [action, current, upperSource, Token.source, hword, label]
      decide
  | setDefault =>
      show action (.name "SET" :: .keyword .default :: ts) = _
      simp [action, current, upperSource, Token.source, hword, label]
      decide
  | noAction =>
      show action (.name "NO" :: .name "ACTION" :: ts) = _
      simp [action, current, hword, label]

/-- The action on an event is read after `ON`. -/
theorem eventAction_lexemes (event : KeyEvent) (a : ReferenceAction) (ts : List Token) :
    eventAction (.name (eventWord event).text :: (tokensOf a.lexemes ++ ts)) =
      (some (event, a.label), ts) := by
  have h : event? (.name (eventWord event).text :: (tokensOf a.lexemes ++ ts)) = some event := by
    cases event <;> rfl
  rw [eventAction, h]
  show (some (event, (action (tokensOf a.lexemes ++ ts)).1),
    (action (tokensOf a.lexemes ++ ts)).2) = _
  rw [action_lexemes]

/-- The tokens of the action on an event. -/
theorem tokensOf_clause (event : KeyEvent) (a : ReferenceAction) :
    tokensOf (clause event (some a)) =
      .keyword .on :: .name (eventWord event).text :: tokensOf a.lexemes := by
  simp [clause, Lexeme.token?]

/-- The key with an action on an event, if there is one. -/
def setOn (event : KeyEvent) (a : Option ReferenceAction) (key : ForeignKey) : ForeignKey :=
  (a.map label).elim key (setAction key event)

/-- The action on an event is set, if there is one. -/
theorem withActions_clause (event : KeyEvent) (a : Option ReferenceAction) (key : ForeignKey)
    (ts : List Token) :
    withActions key (tokensOf (clause event a) ++ ts) = withActions (setOn event a key) ts := by
  cases a with
  | none => rfl
  | some a =>
      rw [tokensOf_clause, List.cons_append, List.cons_append, withActions, eventAction_lexemes]
      rfl

/-- No action is read where none stands. -/
theorem withActions_of_head_ne_on (key : ForeignKey) {ts : List Token}
    (h : ts.head? ≠ some (.keyword .on)) : withActions key ts = (key, ts) := by
  unfold withActions
  split
  · exact absurd rfl h
  · rfl

end ReferenceAction

namespace Reference

/-- A reference without its actions, as the key of the columns. -/
def bareKey (r : Reference) (table : String) (name : Option String) (columns : List String) :
    ForeignKey where
  name := name
  fromTable := table
  fromColumns := columns
  toTable := r.toTable
  toColumns := r.toColumns

/-- The tokens of a reference. -/
theorem tokensOf_lexemes (r : Reference) : tokensOf r.lexemes =
    .keyword .references :: .name r.toTable :: (tokensOf (nameList r.toColumns) ++
      tokensOf (ReferenceAction.clauses r.updateFirst r.onDelete r.onUpdate)) := by
  simp [lexemes, Lexeme.token?]

/-- The referenced table is one name, since a quoted name holds no dot token. -/
theorem reference?_nameList (r : Reference) (ts : List Token) :
    reference? (.name r.toTable :: (tokensOf (nameList r.toColumns) ++ ts)) =
      some ((r.toTable, r.toColumns), ts) := by
  have hname : qualifiedName? (.name r.toTable :: (tokensOf (nameList r.toColumns) ++ ts)) =
      some ([r.toTable], tokensOf (nameList r.toColumns) ++ ts) := by
    simp [qualifiedName?, nameList, Lexeme.token?, dottedParts]
  rw [reference?, hname, Option.map_some, columnNames_nameList]
  rfl

/-- The order of the two actions does not matter to the key. Each of them sets a field of its
own. -/
theorem setOn_bareKey (r : Reference) (table : String) (name : Option String)
    (columns : List String) :
    (ReferenceAction.setOn .update r.onUpdate
        (ReferenceAction.setOn .delete r.onDelete (r.bareKey table name columns)) =
      (r.foreignKey name columns).foreignKey table) ∧
    (ReferenceAction.setOn .delete r.onDelete
        (ReferenceAction.setOn .update r.onUpdate (r.bareKey table name columns)) =
      (r.foreignKey name columns).foreignKey table) := by
  cases hd : r.onDelete <;> cases hu : r.onUpdate <;>
    simp [ReferenceAction.setOn, foreignKey, ForeignKeyDefinition.foreignKey, bareKey, setAction,
      hd, hu]

/-- The actions of a reference are read in either order. What follows must not begin with `ON`,
where the reader would look for a further action. -/
theorem withActions_clauses (r : Reference) (table : String) (name : Option String)
    (columns : List String) {ts : List Token} (h : ts.head? ≠ some (.keyword .on)) :
    withActions (r.bareKey table name columns)
        (tokensOf (ReferenceAction.clauses r.updateFirst r.onDelete r.onUpdate) ++ ts) =
      ((r.foreignKey name columns).foreignKey table, ts) := by
  obtain ⟨hdelete, hupdate⟩ := r.setOn_bareKey table name columns
  cases hfirst : r.updateFirst
  · simp only [ReferenceAction.clauses, Bool.false_eq_true, if_false, tokensOf_append,
      List.append_assoc, ReferenceAction.withActions_clause,
      ReferenceAction.withActions_of_head_ne_on _ h, hdelete]
  · simp only [ReferenceAction.clauses, if_true, tokensOf_append, List.append_assoc,
      ReferenceAction.withActions_clause, ReferenceAction.withActions_of_head_ne_on _ h, hupdate]

/-- A foreign key is read after the word that opens it. The word itself has been used to tell the
kind of the clause. -/
theorem foreignKey_lexemes (r : Reference) (table : String) (name : Option String)
    (columns : List String) {ts : List Token} (h : ts.head? ≠ some (.keyword .on)) :
    Ddl.foreignKey table name
        (.keyword .key :: (tokensOf (nameList columns) ++ (tokensOf r.lexemes ++ ts))) =
      (some ((r.foreignKey name columns).foreignKey table), ts) := by
  have hdrop (left : List Token) :
      dropName (dropKeyword .key (.keyword .key :: (tokensOf (nameList columns) ++ left))) =
        tokensOf (nameList columns) ++ left := rfl
  rw [Ddl.foreignKey, hdrop, columnNames_nameList, tokensOf_lexemes]
  simp only [List.cons_append, List.append_assoc]
  rw [reference?_nameList]
  show (some (withActions (r.bareKey table name columns) _).1,
    (withActions (r.bareKey table name columns) _).2) = _
  rw [withActions_clauses r table name columns h]

end Reference

/-! ### Columns -/

/-- Whether a clause of a table body ends before the tokens. -/
def EndsClause (ts : List Token) : Prop :=
  ts.head? = some .comma ∨ ts.head? = some .closeParen

/-- The tokens at the end of a clause begin with a token that ends it. -/
theorem EndsClause.exists_cons {ts : List Token} (h : EndsClause ts) :
    ∃ t rest, ts = t :: rest ∧ (t = .comma ∨ t = .closeParen) := by
  cases ts with
  | nil => simp [EndsClause] at h
  | cons t rest => exact ⟨t, rest, rfl, by simpa [EndsClause] using h⟩

/-- No action stands where a clause ends. -/
theorem EndsClause.head_ne_on {ts : List Token} (h : EndsClause ts) :
    ts.head? ≠ some (.keyword .on) := by
  obtain ⟨t, rest, rfl, rfl | rfl⟩ := h.exists_cons <;> simp

namespace ColumnOption

/-- What the option does to a column. -/
def amend (o : ColumnOption) (c : Column) : Column :=
  match o with
  | .notNull => { c with nullable := false }
  | .autoIncrement => { c with autoIncrement := true }
  | .default text => { c with defaultValue := some text }
  | .comment text => { c with comment := some text }

/-- Reading an option does to the column what the option says. -/
theorem options_cons (o : ColumnOption) (table : String) (r : ColumnReading) (ts : List Token) :
    r.options table (tokensOf o.lexemes ++ ts) = (r.mapColumn o.amend).options table ts := by
  -- These two options are words and not keywords, which the reader compares in upper case.
  have hautoIncrement : upperText "AUTO_INCREMENT" = "AUTO_INCREMENT" := by decide
  have hcomment : upperText "COMMENT" = "COMMENT" := by decide
  cases o with
  | notNull =>
      show r.options table (.keyword .not :: .keyword .null :: ts) = _
      rw [ColumnReading.options, if_neg (by decide)]
      rfl
  | autoIncrement =>
      show r.options table (.name "AUTO_INCREMENT" :: ts) = _
      rw [ColumnReading.options, if_neg (by decide)]
      simp only [ColumnReading.option, ColumnReading.word, hautoIncrement]
      rfl
  | default text =>
      show r.options table (.keyword .default :: .text text :: ts) = _
      rw [ColumnReading.options, if_neg (by decide)]
      rfl
  | comment text =>
      show r.options table (.name "COMMENT" :: .text text :: ts) = _
      rw [ColumnReading.options, if_neg (by decide)]
      simp only [ColumnReading.option, ColumnReading.word, hcomment]
      rfl

/-- What options do to a column: each field follows the last option that sets it. -/
theorem foldl_amend (os : List ColumnOption) (c : Column) :
    os.foldl (fun c o => o.amend c) c =
      { c with
        nullable := c.nullable && !os.contains .notNull
        autoIncrement := c.autoIncrement || os.contains .autoIncrement
        defaultValue := (os.filterMap default?).getLast?.or c.defaultValue
        comment := (os.filterMap comment?).getLast?.or c.comment } := by
  induction os generalizing c with
  | nil => simp
  | cons o os ih =>
      rw [List.foldl_cons, ih]
      cases o <;> simp [amend, default?, comment?, List.getLast?_cons]

end ColumnOption

namespace ColumnItem

/-- What the item does to what has been read of a column. Of several references the last one is
kept. Of the options each field follows the last one that sets it. -/
def amend (table : String) (r : ColumnReading) : ColumnItem → ColumnReading
  | .option o => r.mapColumn o.amend
  | .primaryKey => r.mapColumn Column.asKey
  | .references ref =>
    { r with foreignKey := some ((ref.foreignKey none [r.column.name]).foreignKey table) }

/-- The action on an event is set in the reference before it. -/
theorem options_clause (event : KeyEvent) (a : Option ReferenceAction) (table : String)
    (r : ColumnReading) (key : ForeignKey) (ts : List Token) :
    { r with foreignKey := some key }.options table
        (tokensOf (ReferenceAction.clause event a) ++ ts) =
      { r with foreignKey := some (ReferenceAction.setOn event a key) }.options table ts := by
  cases a with
  | none => rfl
  | some a =>
      rw [ReferenceAction.tokensOf_clause, List.cons_append, List.cons_append,
        ColumnReading.options, if_neg (by decide)]
      simp only [ColumnReading.option, ColumnReading.onEvent, ReferenceAction.eventAction_lexemes]
      rfl

/-- Reading an item does to the column what the item says. -/
theorem options_cons (i : ColumnItem) (table : String) (r : ColumnReading) (ts : List Token) :
    r.options table (tokensOf i.lexemes ++ ts) = (i.amend table r).options table ts := by
  cases i with
  | option o => exact o.options_cons table r ts
  | primaryKey =>
      show r.options table (.keyword .primary :: .keyword .key :: ts) = _
      rw [ColumnReading.options, if_neg (by decide)]
      rfl
  | references ref =>
      obtain ⟨hdelete, hupdate⟩ := ref.setOn_bareKey table none [r.column.name]
      show r.options table (tokensOf ref.lexemes ++ ts) = _
      rw [Reference.tokensOf_lexemes, List.cons_append, ColumnReading.options,
        if_neg (by decide)]
      simp only [ColumnReading.option, ColumnReading.reference, List.cons_append,
        List.append_assoc, Reference.reference?_nameList]
      show { r with foreignKey := some (ref.bareKey table none [r.column.name]) }.options table
        (_ ++ ts) = _
      -- The actions set different members of the key, in the order in which they are written.
      cases hfirst : ref.updateFirst
      · simp only [ReferenceAction.clauses, Bool.false_eq_true, if_false, tokensOf_append,
          List.append_assoc, options_clause, hdelete]
        rfl
      · simp only [ReferenceAction.clauses, if_true, tokensOf_append, List.append_assoc,
          options_clause, hupdate]
        rfl

/-- Reading the items of a column does to it what they say, one after the other. -/
theorem options_lexemes (is : List ColumnItem) (table : String) (r : ColumnReading)
    {ts : List Token} (h : EndsClause ts) :
    r.options table (tokensOf (is.flatMap lexemes) ++ ts) = (is.foldl (amend table) r, ts) := by
  induction is generalizing r with
  | nil =>
      obtain ⟨t, rest, rfl, ht⟩ := h.exists_cons
      rw [List.flatMap_nil, tokensOf_nil, List.nil_append, ColumnReading.options, if_pos]
      · rfl
      · rcases ht with rfl | rfl <;> decide
  | cons i is ih =>
      rw [List.flatMap_cons, tokensOf_append, List.append_assoc, options_cons, ih]
      rfl

/-- The name of the column stays. -/
theorem name_amend (table : String) (r : ColumnReading) (i : ColumnItem) :
    (i.amend table r).column.name = r.column.name := by
  cases i with
  | option o => cases o <;> rfl
  | _ => rfl

/-- What the items do to a column: its options and keys count wherever they stand, and the last
reference is the foreign key. -/
theorem foldl_amend (is : List ColumnItem) (table : String) (r : ColumnReading) :
    is.foldl (amend table) r =
      { r with
        column :=
          let amended := (is.filterMap option?).foldl (fun c o => o.amend c) r.column
          if is.contains .primaryKey then amended.asKey else amended
        foreignKey := ((is.filterMap (·.foreignKey? r.column.name)).getLast?.map
          (ForeignKeyDefinition.foreignKey table)).or r.foreignKey } := by
  induction is generalizing r with
  | nil => simp
  | cons i is ih =>
      rw [List.foldl_cons, ih, name_amend]
      -- An option never makes a column nullable, so a key may come before or after it.
      cases i with
      | option o =>
          simp [amend, option?, foreignKey?, ColumnReading.mapColumn]
      | primaryKey =>
          simp [amend, option?, foreignKey?, ColumnReading.mapColumn, ColumnOption.foldl_amend,
            Column.asKey, List.filterMap_cons]
      | references ref =>
          have hkeys : (references ref :: is).filterMap (·.foreignKey? r.column.name) =
              ref.foreignKey none [r.column.name] ::
                is.filterMap (·.foreignKey? r.column.name) := rfl
          rw [hkeys, List.getLast?_cons]
          generalize (is.filterMap (·.foreignKey? r.column.name)).getLast? = last
          cases last <;> simp [amend, option?, List.filterMap_cons]

end ColumnItem

namespace ColumnLayout

/-- Whether the column is declared as the primary key. -/
def isKey (c : ColumnLayout) : Bool := c.items.contains .primaryKey

/-- The column as its definition declares it, in the key if it is declared as one. -/
def column (c : ColumnLayout) : Column := c.definition.column (if c.isKey then [c.name] else [])

/-- A type ends before the items of its column. -/
theorem endsType_items (is : List ColumnItem) {ts : List Token} (h : EndsClause ts) :
    EndsType (tokensOf (is.flatMap ColumnItem.lexemes) ++ ts) := by
  cases is with
  | nil =>
      obtain ⟨t, rest, rfl, ht⟩ := h.exists_cons
      rcases ht with rfl | rfl <;> simp [EndsType]
  | cons i is =>
      have hautoIncrement : continuesType "AUTO_INCREMENT" = false := by decide
      have hcomment : continuesType "COMMENT" = false := by decide
      cases i with
      | option o =>
          cases o <;> simp [EndsType, ColumnItem.lexemes, ColumnOption.lexemes, Lexeme.token?,
            PlainName.autoIncrement, PlainName.comment, hautoIncrement, hcomment]
      | primaryKey => simp [EndsType, ColumnItem.lexemes, Lexeme.token?]
      | references ref => simp [EndsType, ColumnItem.lexemes, Reference.lexemes, Lexeme.token?]

/-- The definition of a column is read as the column, with its last reference. A reference before
the last one is overwritten. -/
theorem columnDefinition_lexemes (c : ColumnLayout) (table : String) {ts : List Token}
    (h : EndsClause ts) :
    columnDefinition table c.name (tokensOf c.type.lexemes ++
      (tokensOf (c.items.flatMap ColumnItem.lexemes) ++ ts)) =
        ({ column := c.column
           foreignKey :=
             c.foreignKeys.getLast?.map (ForeignKeyDefinition.foreignKey table) }, ts) := by
  obtain ⟨hleft, htype⟩ := declaredType_lexemes c.type (endsType_items c.items h)
  rw [columnDefinition, hleft, htype, ColumnItem.options_lexemes c.items table _ h,
    ColumnItem.foldl_amend, ColumnOption.foldl_amend]
  by_cases hkey : ColumnItem.primaryKey ∈ c.items <;>
    simp [column, isKey, definition, ColumnDefinition.column, foreignKeys, columnOfType,
      Column.asKey, hkey]

/-- A quoted name before the word of a type opens a column, whatever the name is. A word that could
belong to a special index instead is excluded by the two hypotheses. -/
theorem nameClause_word {w : PlainName} (husing : w.text ≠ "USING") (hfor : w.text ≠ "FOR")
    (table name : String) (r : TableReading) (ts : List Token) :
    r.nameClause table name (.name w.text :: ts) =
      r.columnClause table name (.name w.text :: ts) := by
  -- The reader looks at the word after the name to tell a column from an index or constraint that
  -- has no keyword of its own.
  have hcurrent : current (.name w.text :: ts) = .name w.text := rfl
  have husing' : (Token.name w.text).isWord "USING" = false :=
    isWord_plain w.isPlain (by decide) husing
  have hfor' : (Token.name w.text).isWord "FOR" = false := isWord_plain w.isPlain (by decide) hfor
  have hother : opensOtherConstraint name (.name w.text :: ts) = false := by
    simp [opensOtherConstraint, hcurrent, husing', hfor']
  have hspecial : opensSpecialIndex name (.name w.text :: ts) = false := by
    simp [opensSpecialIndex, startsIndex, hcurrent]
  rw [TableReading.nameClause, hother, hspecial]
  rfl

/-- A quoted name before a type opens a column, whatever the name is. -/
theorem nameClause_type (t : DeclaredType) (table name : String) (r : TableReading)
    (ts : List Token) :
    r.nameClause table name (tokensOf t.lexemes ++ ts) =
      r.columnClause table name (tokensOf t.lexemes ++ ts) :=
  nameClause_word t.notUsing t.notFor table name r (tokensOf (DeclaredType.argumentLexemes
    t.arguments) ++ ts)

/-- The definition of a column adds the column and its last reference. -/
theorem elements_lexemes (c : ColumnLayout) (table : String) (r : TableReading)
    {ts : List Token} (h : EndsClause ts) :
    r.elements table (tokensOf c.lexemes ++ ts) =
      { r with
        columns := r.columns ++ [c.column]
        foreignKeys := r.foreignKeys ++ c.foreignKeys.getLast?.toList.map
          (ForeignKeyDefinition.foreignKey table) }.elements table ts := by
  have htokens : tokensOf c.lexemes ++ ts = .name c.name :: (tokensOf c.type.lexemes ++
      (tokensOf (c.items.flatMap ColumnItem.lexemes) ++ ts)) := by
    simp [lexemes, Lexeme.token?]
  rw [htokens, TableReading.elements, if_neg (by simp), if_neg (by simp), TableReading.element,
    nameClause_type, TableReading.columnClause, columnDefinition_lexemes c table h]
  cases c.foreignKeys.getLast? <;> simp

end ColumnLayout

/-! ### Keys -/

/-- Nothing is stepped over where a clause ends. -/
theorem skipElement_eq_self {ts : List Token} (h : EndsClause ts) :
    skipElement ts = ts := by
  obtain ⟨t, rest, rfl, ht⟩ := h.exists_cons
  rcases ht with rfl | rfl <;> rfl

/-- The name of a constraint is kept for the clause after it. Only a clause that may be named
follows it, which is what the hypothesis on the token says. -/
theorem elements_constraintClause (name : Option String) (table : String) {r : TableReading}
    (hr : r.constraint = none) {t : Token} (ht : opensNamedConstraint t = true)
    (ts : List Token) :
    r.elements table (tokensOf (constraintClause name) ++ t :: ts) =
      { r with constraint := name }.elements table (t :: ts) := by
  -- A clause without a name leaves the reading as it is, since no name was waiting.
  cases name with
  | none =>
      have hr' : { r with constraint := none } = r := by rw [← hr]
      rw [hr']
      rfl
  | some name =>
      have hname : r.constraintName (.name name :: t :: ts) =
          ({ r with constraint := some name }, t :: ts) := by
        have hcurrent : current (takeName (.name name :: t :: ts)).2 = t := rfl
        rw [TableReading.constraintName, hcurrent, if_pos ht]
        rfl
      show r.elements table (.keyword .constraint :: .name name :: t :: ts) = _
      rw [TableReading.elements, if_neg (by simp), if_neg (by simp), TableReading.element, hname]

/-- The definition of a primary key sets the key. Its name is the one that was kept, or none. -/
theorem KeyDefinition.elements_lexemes (k : KeyDefinition) (table : String) {r : TableReading}
    (hr : r.constraint = none) {ts : List Token} (h : EndsClause ts) :
    r.elements table (tokensOf k.lexemes ++ ts) =
      { r with primaryKey := some k.primaryKey }.elements table ts := by
  have htokens : tokensOf k.lexemes ++ ts = tokensOf (constraintClause k.name) ++
      .keyword .primary :: .keyword .key :: (tokensOf (nameList k.columns) ++ ts) := by
    simp [lexemes, Lexeme.token?]
  -- The clause takes the name of the constraint with it.
  have husing : TableReading.primaryClause { r with constraint := k.name }
      (.keyword .key :: (tokensOf (nameList k.columns) ++ ts)) =
        ({ r with primaryKey := some k.primaryKey, constraint := none }, ts) := by
    rw [TableReading.primaryClause]
    show ({ r with
        primaryKey := some ⟨k.name, (columnNames (tokensOf (nameList k.columns) ++ ts)).1⟩
        constraint := none },
      skipElement (columnNames (tokensOf (nameList k.columns) ++ ts)).2) = _
    rw [columnNames_nameList, skipElement_eq_self h]
    rfl
  rw [htokens, elements_constraintClause k.name table hr (by decide), TableReading.elements,
    if_neg (by simp), if_neg (by simp), TableReading.element, husing, ← hr]

namespace KeyClause

/-- The clause of a key adds the key. -/
theorem elements_lexemes (c : KeyClause) (table : String) {r : TableReading}
    (hr : r.constraint = none) {ts : List Token} (h : EndsClause ts) :
    r.elements table (tokensOf c.lexemes ++ ts) =
      { r with
        primaryKey := (c.key?.map KeyDefinition.primaryKey).or r.primaryKey
        foreignKeys := r.foreignKeys ++
          c.foreignKey?.toList.map (ForeignKeyDefinition.foreignKey table) }.elements table ts := by
  -- A primary key may stand in place of one read before, while foreign keys are collected.
  cases c with
  | primary k => simpa [lexemes, key?, foreignKey?] using k.elements_lexemes table hr h
  | foreign name columns ref =>
      have htokens : tokensOf (KeyClause.foreign name columns ref).lexemes ++ ts =
          tokensOf (constraintClause name) ++ .keyword .foreign :: .keyword .key ::
            (tokensOf (nameList columns) ++ (tokensOf ref.lexemes ++ ts)) := by
        simp [lexemes, Lexeme.token?]
      rw [htokens, elements_constraintClause name table hr (by decide), TableReading.elements,
        if_neg (by simp), if_neg (by simp), TableReading.element, TableReading.foreignClause,
        ref.foreignKey_lexemes table name columns h.head_ne_on, skipElement_eq_self h]
      simp [key?, foreignKey?, hr]

end KeyClause

end EntityDiagram.Ddl
