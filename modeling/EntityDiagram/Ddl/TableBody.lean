import EntityDiagram.Ddl.Column

/-!
# `EntityDiagram.Ddl.TableBody`: what stands between the parentheses of a table

A table body is a list of column definitions and constraints. `TableReading` holds what has been
read so far, among it the name that `CONSTRAINT` has given to the next constraint. The only way to
fail is to meet the end of the script inside a body.

An element is told by its first token, and by the second one where the first is a name. Whatever is
left of an element behind what has been read of it is stepped over, up to the comma or the
parenthesis at its own level, except behind a column, which reads its options up to there. The table
is put together at the end: a primary key that a clause declares outweighs those of columns.
-/

set_option autoImplicit false

namespace EntityDiagram.Ddl

/-- A script that ends inside the definition of a table. -/
structure UnterminatedTable where
  name : String
deriving DecidableEq, Repr

/-- What has been read of a table body. -/
structure TableReading where
  columns : List Column := []
  foreignKeys : List ForeignKey := []
  indexes : List Index := []
  /-- The key that a `PRIMARY KEY` clause declares. -/
  primaryKey : Option PrimaryKey := none
  /-- The name for the next constraint. -/
  constraint : Option String := none
deriving DecidableEq, Repr

/-- Whether the token ends an element of a table body. -/
def endsElement (t : Token) : Bool := t == .comma || t == .closeParen || t == .eof

/-- The tokens from the end of the current element on. -/
def skipElement (ts : List Token) : List Token := skipOutside endsElement 0 ts

/-- The tokens from the end on of an element that `t` belongs to. -/
def skipElementAfter (t : Token) (ts : List Token) : List Token :=
  skipOutside endsElement (if t == .openParen then 1 else 0) ts

/-- An index after the word that opens it: a name, which outweighs that of the constraint, and
columns. -/
def indexDefinition (constraint : Option String) (unique : Bool) (kind : String)
    (ts : List Token) : Reading Index :=
  let named (name : Option String) (ts : List Token) : Reading Index :=
    let columns := columnNames (skipUsing ts)
    ({ name, columns := columns.1, unique, kind := some kind }, columns.2)
  match ts with
  | .name n :: rest =>
    if Text.eqIgnoreCase n "USING" then named constraint ts else named (some n) rest
  | _ => named constraint ts

/-- The tokens after one of the words `KEY` and `INDEX`, where it comes first. -/
def dropIndexWord : List Token → List Token
  | .keyword .key :: ts => ts
  | .keyword .index :: ts => ts
  | ts => ts

/-- Whether one of the words `KEY` and `INDEX` comes first. -/
def startsIndex (ts : List Token) : Bool :=
  current ts == .keyword .key || current ts == .keyword .index

/-- Whether the name `w`, with `ts` after it, opens an `EXCLUDE` or `PERIOD FOR` constraint. -/
def opensOtherConstraint (w : String) (ts : List Token) : Bool :=
  if Text.eqIgnoreCase w "EXCLUDE" then
    current ts == .openParen || (current ts).isWord "USING"
  else if Text.eqIgnoreCase w "PERIOD" then (current ts).isWord "FOR"
  else false

/-- Whether the name `w`, with `ts` after it, opens a full-text or spatial index. -/
def opensSpecialIndex (w : String) (ts : List Token) : Bool :=
  (Text.eqIgnoreCase w "FULLTEXT" || Text.eqIgnoreCase w "SPATIAL") && startsIndex ts

/-- Whether the token opens a constraint that may have a name. -/
def opensNamedConstraint (t : Token) : Bool :=
  t == .keyword .primary || t == .keyword .foreign || t == .keyword .unique || t == .keyword .check

namespace TableReading

/-- The effect of `CONSTRAINT`: the name holds for the constraint that follows, unless that is of
a kind which is stepped over. -/
def constraintName (r : TableReading) (ts : List Token) : Reading TableReading :=
  let name := takeName ts
  if opensNamedConstraint (current name.2) then
    -- A `CONSTRAINT` without a name leaves the name before it in force.
    ({ r with constraint := if name.1.isSome then name.1 else r.constraint }, name.2)
  else ({ r with constraint := none }, skipElement name.2)

/-- The effect of `PRIMARY`. -/
def primaryClause (r : TableReading) (ts : List Token) : Reading TableReading :=
  let columns := columnNames (skipUsing (dropKeyword .key ts))
  ({ r with primaryKey := some { name := r.constraint, columns := columns.1 }, constraint := none },
   skipElement columns.2)

/-- The effect of `FOREIGN`. -/
def foreignClause (table : String) (r : TableReading) (ts : List Token) : Reading TableReading :=
  let key := foreignKey table r.constraint ts
  ({ r with foreignKeys := r.foreignKeys ++ key.1.toList, constraint := none }, skipElement key.2)

/-- The effect of an index clause under the name of the current constraint. -/
def indexClause (unique : Bool) (kind : String) (r : TableReading) (ts : List Token) :
    Reading TableReading :=
  let index := indexDefinition r.constraint unique kind ts
  ({ r with indexes := r.indexes ++ [index.1], constraint := none }, skipElement index.2)

/-- The effect of a full-text or spatial index clause, which takes no constraint name. -/
def specialIndexClause (w : String) (r : TableReading) (ts : List Token) : Reading TableReading :=
  let index := indexDefinition none false (Text.upperText w) (dropIndexWord ts)
  ({ r with indexes := r.indexes ++ [index.1] }, skipElement index.2)

/-- The effect of a column definition. -/
def columnClause (table w : String) (r : TableReading) (ts : List Token) : Reading TableReading :=
  let read := columnDefinition table w ts
  ({ r with
      columns := r.columns ++ [read.1.column]
      indexes := r.indexes ++ read.1.indexes
      foreignKeys := r.foreignKeys ++ read.1.foreignKey.toList }, read.2)

/-- The effect of an element that starts with a name. -/
def nameClause (table w : String) (r : TableReading) (ts : List Token) : Reading TableReading :=
  if opensOtherConstraint w ts then (r, skipElement ts)
  else if opensSpecialIndex w ts then r.specialIndexClause w ts
  else r.columnClause table w ts

/-- The effect of the element, or comma, that starts with the token `t`. -/
def element (table : String) (r : TableReading) (t : Token) (ts : List Token) :
    Reading TableReading :=
  match t with
  | .comma => ({ r with constraint := none }, ts)
  | .keyword .constraint => r.constraintName ts
  | .keyword .primary => r.primaryClause ts
  | .keyword .foreign => r.foreignClause table ts
  | .keyword .unique => r.indexClause true "UNIQUE" (dropIndexWord ts)
  | .keyword .index | .keyword .key => r.indexClause false "INDEX" ts
  | .name w => r.nameClause table w ts
  -- Among the rest is `CHECK`, which adds nothing.
  | t => (r, skipElementAfter t ts)

/-- The rest of an element stands in front of what is left. -/
theorem skipElement_suffix (ts : List Token) : skipElement ts <:+ ts := skipOutside_suffix _ _ _

/-- Of an element that is stepped over behind its name, both are gone. -/
theorem takeName_skipElement_suffix (ts : List Token) : skipElement (takeName ts).2 <:+ ts :=
  (skipElement_suffix _).trans (takeName_suffix _)

/-- One word is taken at most. -/
theorem dropIndexWord_suffix (ts : List Token) : dropIndexWord ts <:+ ts := by
  unfold dropIndexWord
  split
  · exact List.suffix_cons _ _
  · exact List.suffix_cons _ _
  · exact List.suffix_refl _

/-- An index takes its name, if it has one, and its columns. -/
theorem indexDefinition_suffix (constraint : Option String) (unique : Bool) (kind : String)
    (ts : List Token) : (indexDefinition constraint unique kind ts).2 <:+ ts := by
  have h (ts : List Token) : (columnNames (skipUsing ts)).2 <:+ ts :=
    (columnNames_suffix _).trans (skipUsing_suffix _)
  unfold indexDefinition
  dsimp only
  split
  · split
    · exact h _
    · exact (h _).trans (List.suffix_cons _ _)
  · exact h _

/-- A constraint takes its name, and the rest of its element where it is of no kind that is read. -/
theorem constraintName_suffix (r : TableReading) (ts : List Token) :
    (r.constraintName ts).2 <:+ ts := by
  unfold constraintName
  dsimp only
  split
  · exact takeName_suffix _
  · exact takeName_skipElement_suffix _

/-- A primary key is taken with the rest of its element. -/
theorem primaryClause_suffix (r : TableReading) (ts : List Token) :
    (r.primaryClause ts).2 <:+ ts :=
  (skipElement_suffix _).trans ((columnNames_suffix _).trans
    ((skipUsing_suffix _).trans (dropKeyword_suffix _ _)))

/-- So is a foreign key. -/
theorem foreignClause_suffix (table : String) (r : TableReading) (ts : List Token) :
    (r.foreignClause table ts).2 <:+ ts :=
  (skipElement_suffix _).trans (foreignKey_suffix _ _ _)

/-- So is an index. -/
theorem indexClause_suffix (unique : Bool) (kind : String) (r : TableReading) (ts : List Token) :
    (r.indexClause unique kind ts).2 <:+ ts :=
  (skipElement_suffix _).trans (indexDefinition_suffix _ _ _ _)

/-- Whatever the element is, it is taken from the front. -/
theorem nameClause_suffix (table w : String) (r : TableReading) (ts : List Token) :
    (r.nameClause table w ts).2 <:+ ts := by
  unfold nameClause
  split
  · exact skipElement_suffix _
  · split
    · exact (skipElement_suffix _).trans
        ((indexDefinition_suffix _ _ _ _).trans (dropIndexWord_suffix _))
    · exact columnDefinition_suffix _ _ _

/-- Every element leaves an end of the tokens behind its first one, so that each turn of `elements`
has fewer to go. -/
theorem element_suffix (table : String) (r : TableReading) (t : Token) (ts : List Token) :
    (r.element table t ts).2 <:+ ts := by
  unfold element
  split
  · exact List.suffix_refl _
  · exact constraintName_suffix _ _
  · exact primaryClause_suffix _ _
  · exact foreignClause_suffix _ _ _
  · exact (indexClause_suffix _ _ _ _).trans (dropIndexWord_suffix _)
  · exact indexClause_suffix _ _ _ _
  · exact indexClause_suffix _ _ _ _
  · exact nameClause_suffix _ _ _ _
  · exact skipOutside_suffix _ _ _

/-- The elements up to the closing parenthesis of the body. -/
def elements (table : String) (r : TableReading) (ts : List Token) :
    Except UnterminatedTable (Reading TableReading) :=
  match ts with
  | [] => .error ⟨table⟩
  | t :: rest =>
    if t == .closeParen then .ok (r, rest)
    -- The script ends before the parenthesis closes.
    else if t == .eof then .error ⟨table⟩
    else
      let read := r.element table t rest
      elements table read.1 read.2
termination_by ts.length
decreasing_by exact Nat.lt_succ_of_le (element_suffix table r t rest).length_le

/-- A body is taken with the parenthesis that closes it. -/
theorem elements_suffix {table : String} {r : TableReading} {ts : List Token}
    {read : Reading TableReading} (h : elements table r ts = .ok read) : read.2 <:+ ts := by
  fun_induction elements table r ts with
  | case1 => cases h
  | case2 r t rest => cases h; exact List.suffix_cons _ _
  | case3 => cases h
  | case4 r t rest _ _ step ih =>
    exact (ih h).trans ((element_suffix _ _ _ _).trans (List.suffix_cons _ _))

/-- The primary key: that of a `PRIMARY KEY` clause or else the columns which carry the option. -/
def key? (r : TableReading) : Option PrimaryKey :=
  match r.primaryKey with
  | some key => some key
  | none =>
    let names := (r.columns.filter (·.inPrimaryKey)).map (·.name)
    if names.isEmpty then none else some { columns := names }

/-- The table that has been read. -/
def toTable (name : String) (r : TableReading) : Table :=
  let table : Table :=
    { name, columns := r.columns, foreignKeys := r.foreignKeys, indexes := r.indexes }
  match r.key? with
  | some key => table.markPrimaryKey key
  | none => table

end TableReading

/-- The table of this name, from its body after the opening parenthesis. -/
def tableBody (name : String) (ts : List Token) : Except UnterminatedTable (Reading Table) :=
  (TableReading.elements name {} ts).map fun read => (read.1.toTable name, read.2)

/-- The table of a body is made without a further look at the tokens. -/
theorem tableBody_suffix {name : String} {ts : List Token} {read : Reading Table}
    (h : tableBody name ts = .ok read) : read.2 <:+ ts := by
  unfold tableBody at h
  cases hread : TableReading.elements name {} ts with
  | error e => rw [hread] at h; cases h
  | ok body => rw [hread] at h; cases h; exact TableReading.elements_suffix hread

end EntityDiagram.Ddl
