import EntityDiagram.Proofs.Ddl.Reading

/-!
# `EntityDiagram.Proofs.Ddl.Statement`: reading statements back

Here the reader of scripts is followed over whole statements. A table body adds up element by
element, and the table that it makes does not depend on where its key is declared. An alteration
makes a step for each key that it adds. Any other statement makes none.

* `Element.elements_separated`, `Element.foldl_extend`: the elements of a table body.
* `TableLayout.toTable_body`: the table that a body makes.
* `TableLayout.statements_lexemes`, `Declaration.statements_lexemes`: statements with their steps.
* `TableDefinition.statements_lexemes`: a table with each key in a clause of its own.
* `statements_addsNothing`: a statement that defines nothing.

The body of a table is read with an accumulator, `TableReading`, in which keys and columns come in
the order of the text. `Element.extend` says what one element adds to it, and the fold of `extend`
over the elements is the whole body. Then the table is put together: its columns in order, and the
key marked on them, wherever in the body it stood.
-/

set_option autoImplicit false

namespace EntityDiagram.Ddl

/-! ### Table bodies -/

/-- Lists of tokens with a comma between neighbours. -/
def commaTokens : List (List Token) → List Token
  | [] => []
  | [ts] => ts
  | ts :: next :: more => ts ++ .comma :: commaTokens (next :: more)

/-- The tokens of parts with commas between them. -/
theorem tokensOf_separated (parts : List (List Lexeme)) :
    tokensOf (separated parts) = commaTokens (parts.map tokensOf) := by
  induction parts with
  | nil => rfl
  | cons part parts ih =>
      cases parts with
      | nil => rfl
      | cons next more => simp [separated, commaTokens, Lexeme.token?, ih]

namespace TableReading

/-- A comma only ends the name of a constraint. -/
theorem elements_comma (table : String) {r : TableReading} (hr : r.constraint = none)
    (ts : List Token) : r.elements table (.comma :: ts) = r.elements table ts := by
  rw [elements, if_neg (by decide), if_neg (by decide), element, ← hr]

/-- Where each element is read on its own, a whole table body is read element by element. It is used
for the general notation as well as for the plain one. -/
theorem elements_commaTokens {α : Type} {table : String} (tokens : α → List Token)
    (extend : TableReading → α → TableReading)
    (hread : ∀ (e : α) (r : TableReading) (ts : List Token), r.constraint = none →
      EndsClause ts → r.elements table (tokens e ++ ts) = (extend r e).elements table ts)
    (hkeep : ∀ (r : TableReading) (e : α), (extend r e).constraint = r.constraint)
    (es : List α) {r : TableReading} (hr : r.constraint = none) (ts : List Token) :
    r.elements table (commaTokens (es.map tokens) ++ .closeParen :: ts) =
      .ok (es.foldl extend r, ts) := by
  induction es generalizing r with
  | nil => simp [commaTokens, elements]
  | cons e es ih =>
      have hr' : (extend r e).constraint = none := (hkeep r e).trans hr
      -- The last element is followed by the closing parenthesis, and each of the others by a comma.
      cases es with
      | nil =>
          rw [List.map_singleton, commaTokens, hread e r _ hr (.inr rfl)]
          exact ih hr'
      | cons next more =>
          have htokens : commaTokens ((e :: next :: more).map tokens) =
              tokens e ++ .comma :: commaTokens ((next :: more).map tokens) := rfl
          rw [htokens, List.append_assoc, List.cons_append, hread e r _ hr (.inl rfl),
            elements_comma table hr']
          exact ih hr'

end TableReading

namespace Element

/-- The foreign keys of the element that the reader keeps: of a column the last one. -/
def keptForeignKeys : Element → List ForeignKeyDefinition
  | .column c => c.foreignKeys.getLast?.toList
  | .clause c => c.foreignKey?.toList

/-- The primary key to which the element is a clause. -/
def clauseKey? : Element → Option KeyDefinition
  | .column _ => none
  | .clause c => c.key?

/-- What an element adds to a table body. -/
def extend (table : String) (r : TableReading) (e : Element) : TableReading :=
  { r with
    columns := r.columns ++ e.column?.toList.map ColumnLayout.column
    foreignKeys := r.foreignKeys ++ e.keptForeignKeys.map (ForeignKeyDefinition.foreignKey table)
    primaryKey := (e.clauseKey?.map KeyDefinition.primaryKey).or r.primaryKey }

/-- Reading an element adds to the table body what the element says. -/
theorem elements_lexemes (e : Element) (table : String) {r : TableReading}
    (hr : r.constraint = none) {ts : List Token} (h : EndsClause ts) :
    r.elements table (tokensOf e.lexemes ++ ts) = (e.extend table r).elements table ts := by
  cases e with
  | column c =>
      simpa [lexemes, extend, column?, keptForeignKeys, clauseKey?] using
        c.elements_lexemes table r h
  | clause c =>
      simpa [lexemes, extend, column?, keptForeignKeys, clauseKey?] using
        c.elements_lexemes table hr h

/-- Reading the elements of a table body adds what they say, one after the other. The closing
parenthesis ends the body and is taken with it. -/
theorem elements_separated (es : List Element) (table : String) {r : TableReading}
    (hr : r.constraint = none) (ts : List Token) :
    r.elements table (tokensOf (separated (es.map lexemes)) ++ .closeParen :: ts) =
      .ok (es.foldl (extend table) r, ts) := by
  rw [tokensOf_separated, List.map_map]
  exact TableReading.elements_commaTokens (tokensOf ∘ lexemes) (extend table)
    (fun e _ _ hr h => e.elements_lexemes table hr h) (fun _ _ => rfl) es hr ts

/-- The elements of a table body add up, each field from its own. -/
theorem foldl_extend (es : List Element) (table : String) (r : TableReading) :
    es.foldl (extend table) r =
      { r with
        columns := r.columns ++ (es.filterMap column?).map ColumnLayout.column
        foreignKeys := r.foreignKeys ++
          (es.flatMap keptForeignKeys).map (ForeignKeyDefinition.foreignKey table)
        primaryKey := ((es.filterMap clauseKey?).getLast?.map KeyDefinition.primaryKey).or
          r.primaryKey } := by
  induction es generalizing r with
  | nil => simp
  | cons e es ih =>
      rw [List.foldl_cons, ih]
      -- An element is a column, a key, a foreign key or neither, and each adds to its own list
      -- alone.
      cases hcolumn : e.column? <;> cases hkey : e.clauseKey?
      all_goals
        simp only [extend, List.filterMap_cons, List.flatMap_cons, List.getLast?_cons, hcolumn,
          hkey]
        generalize es.filterMap clauseKey? = ks
        cases ks.getLast? <;> simp

end Element

/-! ### Tables -/

/-- A column that is declared as the key declares it alone. -/
theorem ColumnLayout.mem_keys {c : ColumnLayout} {k : KeyDefinition} :
    k ∈ c.keys ↔ c.isKey = true ∧ k = { name := none, columns := [c.name] } := by
  rw [keys, isKey, List.mem_filterMap, List.contains_iff_mem]
  constructor
  · rintro ⟨i, hi, hk⟩
    cases i with
    | primaryKey => exact ⟨hi, (Option.some.inj hk).symm⟩
    | _ => cases hk
  · rintro ⟨hi, rfl⟩
    exact ⟨_, hi, rfl⟩

namespace Element

/-- Elements without keys have neither a clause nor a column that declares one. -/
theorem of_keys_eq_nil {es : List Element} (h : es.flatMap keys = []) :
    es.filterMap clauseKey? = [] ∧ (es.filterMap column?).filter (·.isKey) = [] := by
  have hkeys := List.flatMap_eq_nil_iff.1 h
  rw [List.filterMap_eq_nil_iff, List.filter_eq_nil_iff]
  refine ⟨fun e he => ?_, fun c hc hkey => ?_⟩
  · cases e with
    | column c => rfl
    | clause c => exact Option.toList_eq_nil_iff.1 (hkeys _ he)
  · obtain ⟨e, he, hcolumn⟩ := List.mem_filterMap.1 hc
    cases e with
    | column d =>
        obtain rfl := Option.some.inj hcolumn
        exact List.ne_nil_of_mem (ColumnLayout.mem_keys.2 ⟨hkey, rfl⟩) (hkeys _ he)
    | clause d => cases hcolumn

/-- The only key of the elements is declared by a clause or on a column. On a column, it names the
column and nothing else. -/
theorem of_keys_eq_singleton {es : List Element} {k : KeyDefinition}
    (h : es.flatMap keys = [k]) :
    es.filterMap clauseKey? = [k] ∨
      es.filterMap clauseKey? = [] ∧ ∃ column, k = { name := none, columns := [column] } ∧
        ((es.filterMap column?).filter (·.isKey)).map (·.name) = [column] := by
  induction es with
  | nil => simp at h
  | cons e es ih =>
      rw [List.flatMap_cons] at h
      -- The key is the one of the first element, or it is declared behind that one.
      rcases List.append_eq_singleton_iff.1 h with ⟨he, hes⟩ | ⟨he, hes⟩
      · obtain ⟨hclause, hcolumn⟩ := of_keys_eq_nil (by simpa using he : [e].flatMap keys = [])
        have happ : (e :: es) = [e] ++ es := rfl
        rw [happ, List.filterMap_append, List.filterMap_append, List.filter_append, hclause,
          hcolumn]
        exact ih hes
      · obtain ⟨hclause, hcolumn⟩ := of_keys_eq_nil hes
        cases e with
        | column c =>
            right
            have hkeys : c.keys = [k] := he
            obtain ⟨hkey, rfl⟩ := ColumnLayout.mem_keys.1 (hkeys ▸ List.mem_singleton_self k)
            simp [List.filterMap_cons, clauseKey?, column?, hclause, hcolumn, hkey]
        | clause c =>
            left
            have hc : c.key? = some k := Option.toList_eq_singleton_iff.1 he
            simp [clauseKey?, hc, hclause]

end Element

namespace TableLayout

/-- The foreign keys of the body that the reader keeps. -/
def keptForeignKeys (l : TableLayout) : List ForeignKeyDefinition :=
  l.elements.flatMap Element.keptForeignKeys

/-- What is read of the body of a table. -/
def body (l : TableLayout) : TableReading where
  columns := l.columns.map ColumnLayout.column
  foreignKeys := l.keptForeignKeys.map (ForeignKeyDefinition.foreignKey l.name)
  primaryKey := (l.elements.filterMap Element.clauseKey?).getLast?.map KeyDefinition.primaryKey

/-- A column that is declared as the key declares a key of the table. -/
theorem mem_keys {l : TableLayout} {c : ColumnLayout} (hc : c ∈ l.columns)
    (hkey : c.isKey = true) : { name := none, columns := [c.name] } ∈ l.keys := by
  obtain ⟨e, he, hcolumn⟩ := List.mem_filterMap.1 hc
  cases e with
  | column d =>
      obtain rfl := Option.some.inj hcolumn
      exact List.mem_flatMap.2 ⟨_, he, ColumnLayout.mem_keys.2 ⟨hkey, rfl⟩⟩
  | clause d => cases hcolumn

/-- A column with the flags of the key is the column that is defined, whether or not it was
declared as the key itself. -/
theorem flagged_columns {key : List String} {cs : List ColumnLayout}
    (h : ∀ c ∈ cs, c.isKey = true → c.name ∈ key) :
    Table.flagged key (cs.map ColumnLayout.column) = cs.map (·.definition.column key) := by
  rw [Table.flagged, List.map_map]
  refine List.map_congr_left fun c hc => ?_
  show (if c.name ∈ key then c.column.asKey else c.column) = c.definition.column key
  by_cases hmem : c.name ∈ key <;> cases hkey : c.isKey
  all_goals
    simp [ColumnLayout.column, ColumnDefinition.column, ColumnLayout.definition, Column.asKey,
      hmem, hkey]
  exact hmem (h c hc hkey)

/-- The key of a body, wherever it is declared. -/
theorem key?_body {l : TableLayout} {key : Option KeyDefinition} (h : l.keys = key.toList) :
    l.body.key? = key.map KeyDefinition.primaryKey := by
  -- A column is a key column as it is read exactly if it is declared as the key.
  have hcolumns : (l.body.columns.filter (·.inPrimaryKey)).map (·.name) =
      (l.columns.filter (·.isKey)).map (·.name) := by
    rw [body, List.filter_map, List.map_map]
    have hflag : (fun c : Column => c.inPrimaryKey) ∘ ColumnLayout.column =
        ColumnLayout.isKey := by
      funext c
      cases hkey : c.isKey <;>
        simp [ColumnLayout.column, ColumnDefinition.column, ColumnLayout.definition, hkey]
    rw [hflag]
    rfl
  rw [TableReading.key?, hcolumns]
  cases key with
  | none =>
      obtain ⟨hclause, hcolumn⟩ := Element.of_keys_eq_nil h
      simp [body, columns, hclause, hcolumn]
  | some k =>
      rcases Element.of_keys_eq_singleton h with hclause | ⟨hclause, column, rfl, hcolumn⟩
      · simp [body, hclause]
      · simp [body, columns, hclause, hcolumn, KeyDefinition.primaryKey]

/-- The body of a table makes the table, apart from its comment, its kind and the foreign keys that
the reader does not keep. -/
theorem toTable_body {l : TableLayout} {t : TableDefinition} (hname : l.name = t.name)
    (hcolumns : l.columns.map ColumnLayout.definition = t.columns)
    (hkeys : l.keys = t.key.toList) :
    l.body.toTable l.name =
      { t.table with
        comment := none
        kind := none
        foreignKeys := l.keptForeignKeys.map (ForeignKeyDefinition.foreignKey t.name) } := by
  have hflags : ∀ c ∈ l.columns, c.isKey = true → c.name ∈ t.keyColumns := by
    intro c hc hkey
    have hmem := mem_keys hc hkey
    rw [hkeys, Option.mem_toList] at hmem
    simp [TableDefinition.keyColumns, Option.mem_def.1 hmem]
  have hnames : l.body.columns.map (·.name) = t.columns.map (·.name) := by
    rw [← hcolumns, body, List.map_map, List.map_map]
    rfl
  have hflagged := flagged_columns hflags
  rw [TableReading.toTable, key?_body hkeys]
  cases hkey : t.key with
  | none =>
      have hkeyColumns : t.keyColumns = [] := by simp [TableDefinition.keyColumns, hkey]
      have hunflagged : l.columns.map ColumnLayout.column =
          l.columns.map (·.definition.column []) := by
        rw [hkeyColumns] at hflagged
        simpa [Table.flagged] using hflagged
      simp [body, hunflagged, hkeyColumns, TableDefinition.table, hkey, ← hcolumns, hname]
  | some k =>
      -- The key names columns that are declared, so that the lookup flags exactly those.
      have hdeclared : k.primaryKey.columns ⊆ l.body.columns.map (·.name) := by
        rw [hnames]
        exact t.declared k hkey
      have hkeyColumns : k.primaryKey.columns = t.keyColumns := by
        simp [TableDefinition.keyColumns, hkey, KeyDefinition.primaryKey]
      rw [Option.map_some]
      dsimp only
      rw [Table.markPrimaryKey_declared _ (hnames ▸ t.distinct) hdeclared]
      simp [body, hkeyColumns, hflagged, TableDefinition.table, hkey, ← hcolumns, hname]

end TableLayout

/-! ### Statements -/

/-- A statement that is read makes its steps, and those after it follow. -/
theorem statements_cons {t : Token} (ht : t ≠ .eof) {ts : List Token} {read : Reading (List Step)}
    (h : statement t ts = .ok read) :
    statements (t :: ts) = (statements read.2).map (read.1 ++ ·) := by
  rw [statements, if_neg (by simpa using ht)]
  split
  · rename_i herror
    rw [h] at herror
    cases herror
  · rename_i hok
    rw [h] at hok
    cases hok
    rfl

/-- A semicolon makes no step. -/
theorem statements_semicolon (ts : List Token) : statements (.semicolon :: ts) = statements ts := by
  rw [statements_cons (by simp) rfl]
  cases statements ts <;> rfl

/-- The options of a table end at its semicolon. -/
theorem tableOptions_semicolon (comment : Option String) (ts : List Token) :
    tableOptions comment (.semicolon :: ts) = (comment, .semicolon :: ts) := by
  rw [tableOptions.eq_def]
  rfl

/-- The options after the body are read as the comment. -/
theorem tableOptions_commentClause (comment : Option String) (ts : List Token) :
    tableOptions none (tokensOf (TableDefinition.commentClause comment) ++ .semicolon :: ts) =
      (comment, .semicolon :: ts) := by
  cases comment with
  | none => exact tableOptions_semicolon none ts
  | some text =>
      have hword : (Token.name "COMMENT").isWord "COMMENT" = true := by decide
      show tableOptions none (.name "COMMENT" :: .text text :: .semicolon :: ts) = _
      rw [tableOptions, if_neg (by decide), if_pos hword]
      exact tableOptions_semicolon (some text) ts

namespace TableLayout

/-- The elements of a table are read up to the closing parenthesis. -/
theorem tableBody_elements (l : TableLayout) (ts : List Token) :
    tableBody l.name
        (tokensOf (separated (l.elements.map Element.lexemes)) ++ .closeParen :: ts) =
      .ok (l.body.toTable l.name, ts) := by
  rw [tableBody, Element.elements_separated l.elements l.name rfl, Element.foldl_extend]
  simp [body, columns, keptForeignKeys, Except.map]

/-- What a statement that creates a table does to the schema. -/
def step (l : TableLayout) : Step :=
  .addTable (Sql.quoteParts [l.name]) { l.body.toTable l.name with comment := l.comment }

/-- A statement that creates a table makes its step, and the statements after it follow. -/
theorem statements_lexemes (l : TableLayout) (ts : List Token) :
    statements (tokensOf l.lexemes ++ ts) = (statements ts).map (l.step :: ·) := by
  have htokens : tokensOf l.lexemes ++ ts = .keyword .create :: .keyword .table :: .name l.name ::
      .openParen :: (tokensOf (separated (l.elements.map Element.lexemes)) ++
        .closeParen :: (tokensOf (TableDefinition.commentClause l.comment) ++
          .semicolon :: ts)) := by
    simp [lexemes, Lexeme.token?]
  -- The statement is read up to its semicolon, which then counts as a statement of its own.
  have hread : statement (.keyword .create) (.keyword .table :: .name l.name :: .openParen ::
      (tokensOf (separated (l.elements.map Element.lexemes)) ++
        .closeParen :: (tokensOf (TableDefinition.commentClause l.comment) ++ .semicolon :: ts))) =
      .ok ([l.step], .semicolon :: ts) := by
    show (tableBody l.name _).map _ = _
    rw [tableBody_elements]
    show Except.ok ([Step.addTable _ { l.body.toTable l.name with
      comment := (tableOptions none _).1 }], (tableOptions none _).2) = _
    rw [tableOptions_commentClause]
    rfl
  rw [htokens, statements_cons (by simp) hread, statements_semicolon]
  rfl

end TableLayout

/-- The clause as an element of a body. -/
def Clause.element : Clause → Element
  | .column d => .column { name := d.name, type := d.type, items := d.options.map .option }
  | .key k => .clause (.primary k)
  | .foreignKey f => .clause (.foreign f.name f.columns
      { toTable := f.toTable, toColumns := f.toColumns, onDelete := f.onDelete
        onUpdate := f.onUpdate, updateFirst := false })

namespace TableDefinition

/-- The table with each key in a clause of its own. -/
def layout (t : TableDefinition) : TableLayout where
  name := t.name
  elements := t.clauses.map Clause.element
  comment := t.comment

/-- A table with each key in a clause of its own is written as before. -/
theorem lexemes_layout (t : TableDefinition) : t.layout.lexemes = t.lexemes := by
  have hclauses : t.layout.elements.map Element.lexemes = t.clauses.map Clause.lexemes := by
    rw [layout, List.map_map]
    refine List.map_congr_left fun c _ => ?_
    cases c with
    | column d => simp [Clause.element, Element.lexemes, ColumnLayout.lexemes, Clause.lexemes,
        ColumnDefinition.lexemes, List.flatMap_map, ColumnItem.lexemes]
    | key k => rfl
    | foreignKey f =>
        simp [Clause.element, Element.lexemes, KeyClause.lexemes, Clause.lexemes,
          ForeignKeyDefinition.lexemes, Reference.lexemes, ReferenceAction.clauses]
  rw [TableLayout.lexemes, hclauses]
  rfl

/-- What a table definition does to the schema. -/
def step (t : TableDefinition) : Step :=
  .addTable (Sql.quoteParts [t.name]) { t.table with kind := none }

/-- The column of a clause has no keys of its own. -/
theorem layout_columns (t : TableDefinition) :
    t.layout.columns.map ColumnLayout.definition = t.columns := by
  simp [TableLayout.columns, layout, clauses, List.filterMap_append, List.filterMap_map,
    Function.comp_def, Clause.element, Element.column?, ColumnLayout.definition, ColumnItem.option?]

/-- The key of a table is that of its clause. -/
theorem layout_keys (t : TableDefinition) : t.layout.keys = t.key.toList := by
  have hnone {α : Type} (l : List α) : l.flatMap (fun _ => ([] : List KeyDefinition)) = [] :=
    List.flatMap_eq_nil_iff.2 fun _ _ => rfl
  simp [TableLayout.keys, layout, clauses, List.flatMap_append, List.flatMap_map,
    Function.comp_def, Clause.element, Element.keys, ColumnLayout.keys, KeyClause.key?,
    ColumnItem.key?, hnone]

/-- The foreign keys of a table are those of its clauses, and all of them are kept. -/
theorem layout_keptForeignKeys (t : TableDefinition) :
    t.layout.keptForeignKeys = t.foreignKeys := by
  have hnone {α : Type} (l : List α) :
      l.flatMap (fun _ => ([] : List ForeignKeyDefinition)) = [] :=
    List.flatMap_eq_nil_iff.2 fun _ _ => rfl
  simp [TableLayout.keptForeignKeys, layout, clauses, List.flatMap_append, List.flatMap_map,
    Function.comp_def, Clause.element, Element.keptForeignKeys, ColumnLayout.foreignKeys,
    KeyClause.foreignKey?, ColumnItem.foreignKey?, Reference.foreignKey, hnone]

/-- A table with each key in a clause of its own is the table that is defined. -/
theorem step_layout (t : TableDefinition) : t.layout.step = t.step := by
  rw [TableLayout.step, TableLayout.toTable_body rfl t.layout_columns t.layout_keys,
    layout_keptForeignKeys]
  rfl

/-- A table definition makes its step, and the statements after it follow. -/
theorem statements_lexemes (t : TableDefinition) (ts : List Token) :
    statements (tokensOf t.lexemes ++ ts) = (statements ts).map (t.step :: ·) := by
  rw [← t.lexemes_layout, TableLayout.statements_lexemes, t.step_layout]

end TableDefinition

/-! ### Alterations -/

/-- Whether an operation on a table ends before the tokens. -/
def EndsOperation (ts : List Token) : Prop :=
  ts.head? = some .comma ∨ ts.head? = some .semicolon

/-- The tokens at the end of an operation begin with a token that ends it. -/
theorem EndsOperation.exists_cons {ts : List Token} (h : EndsOperation ts) :
    ∃ t rest, ts = t :: rest ∧ (t = .comma ∨ t = .semicolon) := by
  cases ts with
  | nil => simp [EndsOperation] at h
  | cons t rest => exact ⟨t, rest, rfl, by simpa [EndsOperation] using h⟩

namespace KeyClause

/-- What adding the key to the table of this name does to the schema. -/
def step (table : String) : KeyClause → Step
  | .primary k => .setPrimaryKey (Sql.quoteParts [table]) k.primaryKey
  | .foreign name columns r => .addForeignKey ((r.foreignKey name columns).foreignKey table)

/-- The name of a constraint is read before the clause. -/
theorem constraintName_constraintClause (name : Option String) {t : Token}
    (ht : t ≠ .keyword .constraint) (ts : List Token) :
    constraintName (tokensOf (constraintClause name) ++ t :: ts) = (name, t :: ts) := by
  cases name with
  | none =>
      show constraintName (t :: ts) = _
      unfold constraintName
      split
      · rename_i heq
        exact absurd (List.cons.inj heq).1 ht
      · rfl
  | some name => rfl

/-- The key after `ADD` is read as the key that is added. -/
theorem addition_lexemes (c : KeyClause) (table : String) {ts : List Token}
    (h : EndsOperation ts) :
    addition [table] (tokensOf c.lexemes ++ ts) = ([c.step table], ts) := by
  cases c with
  | primary k =>
      have htokens : tokensOf (KeyClause.primary k).lexemes ++ ts =
          tokensOf (constraintClause k.name) ++
            .keyword .primary :: .keyword .key :: (tokensOf (nameList k.columns) ++ ts) := by
        simp [lexemes, KeyDefinition.lexemes, Lexeme.token?]
      rw [htokens, addition, constraintName_constraintClause k.name (by simp)]
      show ([Step.setPrimaryKey _
        { name := k.name, columns := (columnNames (tokensOf (nameList k.columns) ++ ts)).1 }],
          (columnNames (tokensOf (nameList k.columns) ++ ts)).2) = _
      rw [columnNames_nameList]
      rfl
  | foreign name columns r =>
      have htokens : tokensOf (KeyClause.foreign name columns r).lexemes ++ ts =
          tokensOf (constraintClause name) ++ .keyword .foreign :: .keyword .key ::
            (tokensOf (nameList columns) ++ (tokensOf r.lexemes ++ ts)) := by
        simp [lexemes, Lexeme.token?]
      -- No action of the key stands behind the end of the operation.
      have hon : ts.head? ≠ some (.keyword .on) := by
        obtain ⟨t, rest, rfl, rfl | rfl⟩ := h.exists_cons <;> simp
      rw [htokens, addition, constraintName_constraintClause name (by simp)]
      show ((foreignKey table name _).1.toList.map Step.addForeignKey,
        (foreignKey table name _).2) = _
      rw [r.foreignKey_lexemes table name columns hon]
      rfl

/-- The lexemes that add the key to a table. -/
def added (c : KeyClause) : List Lexeme := .keyword .add :: c.lexemes

/-- One addition makes its step, and the operations after it follow. What follows is a comma or the
end of the statement. -/
theorem operations_added (c : KeyClause) (table : String) {ts : List Token}
    (h : EndsOperation ts) :
    operations [table] (tokensOf c.added ++ ts) =
      (c.step table :: (operations [table] ts).1, (operations [table] ts).2) := by
  have htokens : tokensOf c.added ++ ts = .keyword .add :: (tokensOf c.lexemes ++ ts) := by
    simp [added, Lexeme.token?]
  -- Nothing is left of the operation behind the key.
  have hskip : skipOutside endsOperation 0 ts = ts := by
    obtain ⟨t, rest, rfl, rfl | rfl⟩ := h.exists_cons <;> rfl
  rw [htokens, operations, if_neg (by decide), if_neg (by decide), if_pos (by decide)]
  simp only [c.addition_lexemes table h, hskip, List.singleton_append]

/-- A comma between two operations is stepped over. -/
theorem operations_comma (table : String) (ts : List Token) :
    operations [table] (.comma :: ts) = operations [table] ts := by
  rw [operations, if_neg (by decide), if_pos (by decide)]

/-- The operations of an alteration make a step for each key that is added. -/
theorem operations_separated (cs : List KeyClause) (table : String) (ts : List Token) :
    operations [table] (tokensOf (separated (cs.map added)) ++ .semicolon :: ts) =
      (cs.map (step table), .semicolon :: ts) := by
  -- With no operation at all the reader is already at the semicolon.
  have hend : operations [table] (.semicolon :: ts) = ([], .semicolon :: ts) := by
    rw [operations, if_pos (by decide)]
  induction cs with
  | nil => exact hend
  | cons c cs ih =>
      cases cs with
      | nil =>
          rw [List.map_singleton, separated, c.operations_added table (.inr rfl), hend]
          rfl
      | cons next more =>
          have htokens : tokensOf (separated ((c :: next :: more).map added)) =
              tokensOf c.added ++ .comma :: tokensOf (separated ((next :: more).map added)) := by
            simp [separated, Lexeme.token?]
          rw [htokens, List.append_assoc, List.cons_append,
            c.operations_added table (.inl rfl), operations_comma, ih]
          rfl

/-- An alteration of a table is read as the keys that it adds. The name must not be taken for the
keyword `ONLY`. -/
theorem alter_lexemes {table : String} (htable : Text.eqIgnoreCase table "ONLY" = false)
    (cs : List KeyClause) (ts : List Token) :
    alter (.keyword .table :: .name table ::
      (tokensOf (separated (cs.map added)) ++ .semicolon :: ts)) =
        (cs.map (step table), ts) := by
  -- A table with the name `ONLY` would be taken for the keyword, and is ruled out by the
  -- hypothesis.
  have honly (left : List Token) :
      dropWord "ONLY" (skipIfExists (.name table :: left)) = .name table :: left := by
    rw [skipIfExists, dropWord, if_neg (by simp [Token.isWord, htable])]
    simp
  have hname : qualifiedName? (.name table ::
      (tokensOf (separated (cs.map added)) ++ .semicolon :: ts)) =
        some ([table], tokensOf (separated (cs.map added)) ++ .semicolon :: ts) := by
    cases cs with
    | nil => rfl
    | cons c cs => cases cs <;> simp [qualifiedName?, separated, added, Lexeme.token?, dottedParts]
  rw [alter.eq_def]
  dsimp only
  rw [honly, hname]
  dsimp only
  rw [operations_separated]
  rfl

end KeyClause

namespace Declaration

/-- What the statement does to the schema. -/
def steps : Declaration → List Step
  | .create l => [l.step]
  | .alter table cs => cs.map (KeyClause.step table)

/-- A declaration makes its steps, and the statements after it follow. -/
theorem statements_lexemes (d : Declaration)
    (hd : ∀ table cs, d = .alter table cs → Text.eqIgnoreCase table "ONLY" = false)
    (ts : List Token) :
    statements (tokensOf d.lexemes ++ ts) = (statements ts).map (d.steps ++ ·) := by
  cases d with
  | create l => exact l.statements_lexemes ts
  | alter table cs =>
      have htokens : tokensOf (Declaration.alter table cs).lexemes ++ ts =
          .keyword .alter :: .keyword .table :: .name table ::
            (tokensOf (separated (cs.map KeyClause.added)) ++ .semicolon :: ts) := by
        simp [lexemes, Lexeme.token?]
        rfl
      -- All the operations are read as one statement, and its semicolon with it.
      have hread : statement (.keyword .alter) (.keyword .table :: .name table ::
          (tokensOf (separated (cs.map KeyClause.added)) ++ .semicolon :: ts)) =
            .ok (cs.map (KeyClause.step table), ts) :=
        congrArg Except.ok (KeyClause.alter_lexemes (hd table cs rfl) cs ts)
      rw [htokens, statements_cons (by simp) hread]
      rfl

end Declaration

/-! ### Statements that define nothing -/

/-- Whether tokens begin a statement that the reader steps over: one that neither creates a table,
index or view nor alters a table. -/
def AddsNothing (ts : List Token) : Prop :=
  match ts with
  | .keyword .create :: rest =>
    match skipModifiers false rest with
    | .keyword .table :: _ | .keyword .index :: _ | .keyword .view :: _ => False
    | .keyword .unique :: .keyword .index :: _ => False
    | _ => True
  | .keyword .alter :: .keyword .table :: _ => False
  | _ => True

/-- A statement that ends in a semicolon is stepped over as a whole. -/
theorem skipStatement_append {ts : List Token} (hsemicolon : Token.semicolon ∉ ts)
    (heof : Token.eof ∉ ts) (rest : List Token) :
    skipStatement (ts ++ .semicolon :: rest) = rest := by
  -- No token of the statement ends it before its semicolon does.
  have hdrop : skipUntil endsStatement (ts ++ .semicolon :: rest) = .semicolon :: rest := by
    rw [skipUntil, List.dropWhile_append_of_pos]
    · rw [List.dropWhile_cons_of_neg (by decide)]
    · intro t ht
      have h₁ : t ≠ .semicolon := fun h => hsemicolon (h ▸ ht)
      have h₂ : t ≠ .eof := fun h => heof (h ▸ ht)
      simp [endsStatement, h₁, h₂]
  rw [skipStatement, hdrop]
  rfl

/-- The modifiers of a statement end before its semicolon. -/
theorem skipModifiers_append (inDefiner : Bool) (ts rest : List Token) :
    skipModifiers inDefiner (ts ++ .semicolon :: rest) =
      skipModifiers inDefiner ts ++ .semicolon :: rest := by
  induction ts generalizing inDefiner with
  | nil => simp [skipModifiers]
  | cons t ts ih =>
      cases t with
      | name w =>
          rw [List.cons_append, skipModifiers, skipModifiers]
          split
          · exact ih _
          · split
            · exact ih true
            · rfl
      | _ => rfl

/-- A statement that creates neither a table nor an index or view is stepped over. -/
theorem create_addsNothing {ts : List Token} (hsemicolon : Token.semicolon ∉ ts)
    (heof : Token.eof ∉ ts) (h : AddsNothing (.keyword .create :: ts)) (rest : List Token) :
    create (ts ++ .semicolon :: rest) = .ok ([], rest) := by
  have hskip {us : List Token} (hus : us <:+ ts) :
      skipStatement (us ++ .semicolon :: rest) = rest :=
    skipStatement_append (fun h => hsemicolon (hus.subset h)) (fun h => heof (hus.subset h)) rest
  have hleft := skipModifiers_suffix false ts
  rw [AddsNothing] at h
  rw [create, skipModifiers_append]
  generalize skipModifiers false ts = left at h hleft ⊢
  cases left with
  | nil => exact congrArg (fun us => Except.ok ([], us)) (hskip hleft)
  | cons u us =>
      have hus : us <:+ ts := (List.suffix_cons _ _).trans hleft
      rw [List.cons_append]
      -- The branches that add something are those that `h` excludes.
      split <;> rename_i heq
      · obtain ⟨rfl, -⟩ := List.cons.inj heq
        exact absurd h (by simp)
      · obtain ⟨rfl, hindex⟩ := List.cons.inj heq
        cases us with
        | nil => exact absurd hindex (by simp)
        | cons v us =>
            obtain ⟨rfl, -⟩ := List.cons.inj hindex
            exact absurd h (by simp)
      · obtain ⟨-, rfl⟩ := List.cons.inj heq
        rw [hskip hus]
      · obtain ⟨rfl, -⟩ := List.cons.inj heq
        exact absurd h (by simp)
      · obtain ⟨rfl, -⟩ := List.cons.inj heq
        exact absurd h (by simp)
      · exact congrArg (fun us => Except.ok ([], us)) (hskip hleft)

/-- A statement that defines nothing is stepped over. It is skipped up to the first semicolon, which
is the one behind it. -/
theorem statement_addsNothing {t : Token} {ts : List Token}
    (hsemicolon : Token.semicolon ∉ t :: ts) (heof : Token.eof ∉ t :: ts)
    (h : AddsNothing (t :: ts)) (rest : List Token) :
    statement t (ts ++ .semicolon :: rest) = .ok ([], rest) := by
  rw [List.mem_cons, not_or] at hsemicolon heof
  have hskip := skipStatement_append hsemicolon.2 heof.2 rest
  unfold statement
  split
  · exact create_addsNothing hsemicolon.2 heof.2 h rest
  · rw [alter.eq_def]
    split
    · rename_i heq
      cases ts with
      | nil => exact absurd heq (by simp)
      | cons u ts =>
          -- `ALTER TABLE` may add something, so it is not among the statements considered.
          obtain ⟨rfl, -⟩ := List.cons.inj heq
          exact absurd h (by simp [AddsNothing])
    · rw [hskip]
  · exact absurd rfl hsemicolon.1
  · rw [hskip]

/-- A statement that defines nothing makes no step. -/
theorem statements_addsNothing {ts : List Token} (hsemicolon : Token.semicolon ∉ ts)
    (heof : Token.eof ∉ ts) (h : AddsNothing ts) (rest : List Token) :
    statements (ts ++ .semicolon :: rest) = statements rest := by
  cases ts with
  | nil => exact statements_semicolon rest
  | cons t ts =>
      have ht : t ≠ .eof := fun h => heof (by simp [h])
      rw [List.cons_append, statements_cons ht (statement_addsNothing hsemicolon heof h rest)]
      cases statements rest <;> rfl

end EntityDiagram.Ddl
