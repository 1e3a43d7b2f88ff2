import EntityDiagram.Ddl.ForeignKey
import EntityDiagram.Sql.ColumnType
import EntityDiagram.Text.Replace

/-!
# `EntityDiagram.Ddl.Column`: column definitions

A column definition is a name, a declared type and options in any order. An option may also add
an index or a foreign key to the table; `ColumnReading` collects all three.

The type is taken as text, its words and arguments up to the first token that does not continue it,
and `Sql.ColumnType.ofText` takes that text apart. Options are told by their first token. One that
has no meaning here is stepped over, so that the options of any dialect pass. A value after
`DEFAULT` is kept as text as well: a literal without its quotes, and anything in parentheses with
them.
-/

set_option autoImplicit false

namespace EntityDiagram.Ddl

/-! ### Types and defaults -/

/-- Words, in upper case, that may continue a type after its first word. -/
def typeContinuations : List String :=
  ["PRECISION", "VARYING", "UNSIGNED", "SIGNED", "ZEROFILL", "WITH", "WITHOUT", "LOCAL", "TIME",
   "ZONE", "[]"]

/-- Whether the word continues a type. -/
def continuesType (w : String) : Bool := typeContinuations.contains (Text.upperText w)

/-- The sources of the tokens, one after the other. -/
def sources (ts : List Token) : List Char := ts.flatMap (·.source.toList)

/-- What continues the type text `read`: arguments, unless they have just been read, and
continuation words. -/
def typeFrom (read : List Char) (ts : List Token) : Reading (List Char) :=
  match ts with
  | .openParen :: rest =>
    -- A second group is no part of the type.
    if read.getLast? == some ')' then (read, ts)
    else
      let group := groupFrom 0 rest
      typeFrom (read ++ ['('] ++ sources group.1 ++ [')']) group.2
  | .name w :: rest =>
    if continuesType w then
      -- The mark of an array follows without a space.
      typeFrom (read ++ (if w == "[]" then w.toList else ' ' :: w.toList)) rest
    else (read, ts)
  | _ => (read, ts)
termination_by ts.length
decreasing_by
  · exact Nat.lt_succ_of_le (groupFrom_suffix 0 rest).length_le
  · exact Nat.lt_succ_self _

/-- The text of a declared type; empty where no name comes first. -/
def declaredType : List Token → Reading (List Char)
  | .name w :: ts => typeFrom w.toList ts
  | ts => ([], ts)

/-- The text of the tokens of a group, with a space between two tokens except next to a
parenthesis on its inside and before a comma. -/
def groupText (ts : List Token) : List Char :=
  let joined := Text.joinWith [' '] (ts.map (·.source.toList))
  let commas := Text.replace ' ' [',', ' '] [',', ' '] joined
  Text.replace ' ' [')'] [')'] (Text.replace '(' [' '] ['('] commas)

/-- A group in parentheses after its opening one, with its parentheses. -/
def parenthesized (ts : List Token) : Reading String :=
  let group := groupFrom 0 ts
  (String.ofList (['('] ++ groupText group.1 ++ [')']), group.2)

/-- The value after `DEFAULT`: a literal, decoded, a name, a call or an expression in parentheses;
empty where none of them comes first. -/
def defaultValue : List Token → Reading String
  | .text s :: ts => (s, ts)
  | .number n :: ts => (n, ts)
  | .keyword .null :: ts => ("NULL", ts)
  -- A name before a parenthesis is a call; this case has to precede that of a name alone.
  | .name s :: .openParen :: ts =>
    let read := parenthesized ts
    (s ++ read.1, read.2)
  | .name s :: ts => (s, ts)
  | .openParen :: ts => parenthesized ts
  | ts => ("", ts)

/-- A type takes a word or a group at a time. -/
theorem typeFrom_suffix (read : List Char) (ts : List Token) : (typeFrom read ts).2 <:+ ts := by
  fun_induction typeFrom read ts with
  | case1 => exact List.suffix_refl _
  | case2 read rest _ group ih =>
    exact ih.trans ((groupFrom_suffix _ _).trans (List.suffix_cons _ _))
  | case3 read w rest _ ih => exact ih.trans (List.suffix_cons _ _)
  | case4 => exact List.suffix_refl _
  | case5 => exact List.suffix_refl _

/-- A declared type starts with the name that it takes first. -/
theorem declaredType_suffix (ts : List Token) : (declaredType ts).2 <:+ ts := by
  unfold declaredType
  split
  · exact (typeFrom_suffix _ _).trans (List.suffix_cons _ _)
  · exact List.suffix_refl _

/-- A value is one token, a group, or a name with a group behind it. -/
theorem defaultValue_suffix (ts : List Token) : (defaultValue ts).2 <:+ ts := by
  unfold defaultValue
  split
  · exact List.suffix_cons _ _
  · exact List.suffix_cons _ _
  · exact List.suffix_cons _ _
  · exact (groupFrom_suffix 0 _).trans ((List.suffix_cons _ _).trans (List.suffix_cons _ _))
  · exact List.suffix_cons _ _
  · exact (groupFrom_suffix 0 _).trans (List.suffix_cons _ _)
  · exact List.suffix_refl _

/-! ### Options -/

/-- A column with what its definition adds to the table. -/
structure ColumnReading where
  column : Column
  /-- The unique indexes that options declare. -/
  indexes : List Index := []
  foreignKey : Option ForeignKey := none
deriving DecidableEq, Repr

/-- A column of a declared type; serial types number themselves. -/
def columnOfType (name : String) (type : Sql.ColumnType) : Column where
  name := name
  dataType := type.dataType
  baseType := type.baseType
  length := type.length
  precision := type.precision
  scale := type.scale
  autoIncrement := type.isSerial

namespace ColumnReading

/-- The reading with the column changed. -/
def mapColumn (f : Column → Column) (r : ColumnReading) : ColumnReading :=
  { r with column := f r.column }

/-- The reading with the index that a `UNIQUE` option declares. -/
def withUnique (r : ColumnReading) : ColumnReading :=
  { r with
    indexes := r.indexes ++
      [{ columns := [r.column.name], unique := true, kind := some "UNIQUE" }] }

/-- The effect of `REFERENCES`. -/
def reference (table : String) (r : ColumnReading) (ts : List Token) : Reading ColumnReading :=
  match reference? ts with
  | some ((toTable, toColumns), left) =>
    let key : ForeignKey :=
      { fromTable := table, fromColumns := [r.column.name], toTable, toColumns }
    ({ r with foreignKey := some key }, left)
  | none => (r, ts)

/-- The effect of `ON`: an action of the reference before it, if there is one. -/
def onEvent (r : ColumnReading) (ts : List Token) : Reading ColumnReading :=
  let read := eventAction ts
  match read.1 with
  | some (event, action) =>
    ({ r with foreignKey := r.foreignKey.map (setAction · event action) }, read.2)
  | none => (r, read.2)

/-- The effect of an option that starts with a word which is no keyword. -/
def word (r : ColumnReading) (w : String) (ts : List Token) : Reading ColumnReading :=
  match Text.upperText w with
  | "AUTO_INCREMENT" | "AUTOINCREMENT" | "IDENTITY" =>
    (r.mapColumn fun c => { c with autoIncrement := true }, ts)
  | "COMMENT" =>
    match ts with
    | .text s :: rest => (r.mapColumn fun c => { c with comment := some s }, rest)
    | _ => (r, ts)
  | _ => (r, ts)

/-- The effect of the option that starts with the token `t`. -/
def option (table : String) (r : ColumnReading) (t : Token) (ts : List Token) :
    Reading ColumnReading :=
  match t with
  | .keyword .not =>
    match ts with
    | .keyword .null :: rest => (r.mapColumn fun c => { c with nullable := false }, rest)
    | _ => (r, ts)
  | .keyword .null => (r.mapColumn fun c => { c with nullable := true }, ts)
  | .keyword .primary => (r.mapColumn Column.asKey, dropKeyword .key ts)
  | .keyword .unique => (r.withUnique, dropKeyword .key ts)
  | .keyword .default =>
    let read := defaultValue ts
    (r.mapColumn fun c => { c with defaultValue := some read.1 }, read.2)
  | .keyword .references => r.reference table ts
  | .keyword .on => r.onEvent ts
  -- Only the name is taken; what it names is the next option.
  | .keyword .constraint => (r, dropName ts)
  | .keyword .check => (r, skipGroup ts)
  -- The parenthesis has been read already, so one is open.
  | .openParen => (r, afterGroup 1 ts)
  | .name w => r.word w ts
  | _ => (r, ts)

/-- A reference is taken whether or not a foreign key comes of it. -/
theorem reference_suffix (table : String) (r : ColumnReading) (ts : List Token) :
    (r.reference table ts).2 <:+ ts := by
  unfold reference
  split
  · rename_i h
    exact reference?_suffix h
  · exact List.suffix_refl _

/-- An action is taken whether or not there is a foreign key for it. -/
theorem onEvent_suffix (r : ColumnReading) (ts : List Token) : (r.onEvent ts).2 <:+ ts := by
  unfold onEvent
  dsimp only
  split <;> exact eventAction_suffix ts

/-- No word takes more than one token along. -/
theorem word_suffix (r : ColumnReading) (w : String) (ts : List Token) :
    (r.word w ts).2 <:+ ts := by
  unfold word
  repeat' split
  all_goals first
    | exact List.suffix_refl _
    | exact List.suffix_cons _ _

/-- Every option leaves an end of the tokens behind its first one. -/
theorem option_suffix (table : String) (r : ColumnReading) (t : Token) (ts : List Token) :
    (r.option table t ts).2 <:+ ts := by
  unfold option
  split
  · split
    · exact List.suffix_cons _ _
    · exact List.suffix_refl _
  · exact List.suffix_refl _
  · exact dropKeyword_suffix _ _
  · exact dropKeyword_suffix _ _
  · exact defaultValue_suffix _
  · exact reference_suffix _ _ _
  · exact onEvent_suffix _ _
  · exact dropName_suffix _
  · exact skipGroup_suffix _
  · exact afterGroup_suffix _ _
  · exact word_suffix _ _ _
  · exact List.suffix_refl _

/-- Whether the token ends a column definition. -/
def ends (t : Token) : Bool := t == .comma || t == .closeParen || t == .eof

/-- The options up to the end of the definition. -/
def options (table : String) (r : ColumnReading) (ts : List Token) : Reading ColumnReading :=
  match ts with
  | [] => (r, [])
  | t :: rest =>
    if ends t then (r, t :: rest)
    else
      let read := r.option table t rest
      options table read.1 read.2
termination_by ts.length
decreasing_by exact Nat.lt_succ_of_le (option_suffix table r t rest).length_le

/-- The options are taken one after the other. -/
theorem options_suffix (table : String) (r : ColumnReading) (ts : List Token) :
    (r.options table ts).2 <:+ ts := by
  fun_induction options table r ts with
  | case1 => exact List.suffix_refl _
  | case2 => exact List.suffix_refl _
  | case3 r t rest _ read ih =>
    exact ih.trans ((option_suffix _ _ _ _).trans (List.suffix_cons _ _))

end ColumnReading

/-- The definition, in `table`, of the column whose name has just been read. -/
def columnDefinition (table name : String) (ts : List Token) : Reading ColumnReading :=
  let type := declaredType ts
  ColumnReading.options table { column := columnOfType name (Sql.ColumnType.ofText type.1) } type.2

/-- A column definition takes its type and its options. -/
theorem columnDefinition_suffix (table name : String) (ts : List Token) :
    (columnDefinition table name ts).2 <:+ ts :=
  (ColumnReading.options_suffix _ _ _).trans (declaredType_suffix _)

end EntityDiagram.Ddl
