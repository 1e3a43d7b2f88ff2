import EntityDiagram.Ddl.TableBody
import EntityDiagram.Ddl.Token.Lexer
import EntityDiagram.Schema.Assembly

/-!
# `EntityDiagram.Ddl.Script`: the tolerant reading of a whole script

`script` reads the statements that define a schema, `CREATE TABLE`, `CREATE INDEX`, `CREATE VIEW`
and `ALTER TABLE … ADD`, as `Step`s and steps over everything else, which makes it tolerant of
table options, dump boilerplate and exotic types. It fails only on a table that is never closed.

The statement that is being read is told by its first words, and everything up to its semicolon that
no reader wants is stepped over. A table takes the options behind its body as far as the semicolon,
and of these only the comment is kept. What an alteration adds is a step of its own, with the whole
name of its table in quotes, since the table may be defined later in the script; `assemble` puts it
in its place.
-/

set_option autoImplicit false

namespace EntityDiagram.Ddl

/-! ### Tables -/

/-- The comment among the options after a table body. -/
def tableOptions (comment : Option String) : List Token → Reading (Option String)
  | [] => (comment, [])
  | t :: ts =>
    if endsStatement t then (comment, t :: ts)
    else if t.isWord "COMMENT" then
      match ts with
      | .text s :: rest => tableOptions (some s) rest
      | ts => tableOptions comment ts
    else tableOptions comment ts

/-- The statement after `CREATE TABLE`. A table without a list of columns is left out with a
warning. -/
def createTable (ts : List Token) : Except UnterminatedTable (Reading (List Step)) :=
  match qualifiedName? (skipIfNotExists ts) with
  | none => .ok ([], skipStatement (skipIfNotExists ts))
  | some (parts, rest) =>
    let name := lastPart parts
    match rest with
    | .openParen :: inside =>
      (tableBody name inside).map fun body =>
        let comment := tableOptions none body.2
        ([.addTable (Sql.quoteParts parts) { body.1 with comment := comment.1 }], comment.2)
    | _ =>
      .ok ([.warn ("Table " ++ name ++ " has no column definitions, skipped")], skipStatement rest)

/-! ### Indexes and views -/

/-- The name of an index, which may be missing before `ON`. -/
def indexName (ts : List Token) : Reading (Option String) :=
  if current ts == .keyword .on then (none, ts)
  else match qualifiedName? ts with
    | some (parts, rest) => (some (lastPart parts), rest)
    | none => (none, ts)

/-- The statement after `CREATE INDEX` or `CREATE UNIQUE INDEX`. -/
def createIndex (unique : Bool) (ts : List Token) : Reading (List Step) :=
  let name := indexName (skipIfNotExists (dropWord "CONCURRENTLY" ts))
  match name.2 with
  | .keyword .on :: rest =>
    match qualifiedName? (dropWord "ONLY" rest) with
    | some (parts, left) =>
      let columns := columnNames (skipUsing left)
      let index : Index :=
        { name := name.1, columns := columns.1, unique
          kind := some (if unique then "UNIQUE" else "INDEX") }
      ([.addIndex (Sql.quoteParts parts) index], skipStatement columns.2)
    | none => ([], skipStatement (dropWord "ONLY" rest))
  | left => ([], skipStatement left)

/-- Whether the token ends the head of a view. -/
def endsViewHead (t : Token) : Bool := endsStatement t || t.isWord "AS"

/-- The statement after `CREATE VIEW`. Its definition is everything after `AS`. -/
def createView (ts : List Token) : Reading (List Step) :=
  match qualifiedName? (skipIfNotExists ts) with
  | none => ([], skipStatement (skipIfNotExists ts))
  | some (parts, rest) =>
    let query := dropWord "AS" (skipUntil endsViewHead rest)
    let body := query.takeWhile fun t => !endsStatement t
    let definition :=
      if body.isEmpty then none else some (Text.joinTexts " " (body.map (·.source)))
    ([.addView { name := lastPart parts, definition }], skipUntil endsStatement query)

/-! ### Alterations -/

/-- Whether the token ends an operation of `ALTER TABLE`. -/
def endsOperation (t : Token) : Bool := t == .comma || t == .semicolon || t == .eof

/-- The name after `CONSTRAINT`, if both come first. -/
def constraintName : List Token → Reading (Option String)
  | .keyword .constraint :: ts => takeName ts
  | ts => (none, ts)

/-- What is added to a table after `ADD`, as far as it is a key or an index. -/
def addition (parts : List String) (ts : List Token) : Reading (List Step) :=
  let name := constraintName ts
  let qualified := Sql.quoteParts parts
  match name.2 with
  | .keyword .foreign :: rest =>
    let key := foreignKey (lastPart parts) name.1 rest
    (key.1.toList.map .addForeignKey, key.2)
  | .keyword .primary :: rest =>
    let columns := columnNames (skipUsing (dropKeyword .key rest))
    ([.setPrimaryKey qualified { name := name.1, columns := columns.1 }], columns.2)
  | .keyword .unique :: rest =>
    let index := indexDefinition name.1 true "UNIQUE" (dropIndexWord rest)
    ([.addIndex qualified index.1], index.2)
  | .keyword .index :: rest | .keyword .key :: rest =>
    let index := indexDefinition name.1 false "INDEX" rest
    ([.addIndex qualified index.1], index.2)
  | left => ([], left)

/-- The tokens from the end on of an operation that `t` belongs to. -/
def skipOperationAfter (t : Token) (ts : List Token) : List Token :=
  skipOutside endsOperation (if t == .openParen then 1 else 0) ts

/-- A name of a constraint is two tokens at most. -/
theorem constraintName_suffix (ts : List Token) : (constraintName ts).2 <:+ ts := by
  unfold constraintName
  split
  · exact (takeName_suffix _).trans (List.suffix_cons _ _)
  · exact List.suffix_refl _

/-- What is added takes its tokens from the front, and nothing at all if it is of no kind that is
read. -/
theorem addition_suffix (parts : List String) (ts : List Token) :
    (addition parts ts).2 <:+ ts := by
  have h := constraintName_suffix ts
  unfold addition
  generalize constraintName ts = name at h
  obtain ⟨name, left⟩ := name
  -- All clauses but the last read on behind the word that opens them.
  have h' : left.tail <:+ ts := (List.tail_suffix _).trans h
  dsimp only
  split
  · exact (foreignKey_suffix _ _ _).trans h'
  · exact (columnNames_suffix _).trans ((skipUsing_suffix _).trans
      ((dropKeyword_suffix _ _).trans h'))
  · exact (TableReading.indexDefinition_suffix _ _ _ _).trans
      ((TableReading.dropIndexWord_suffix _).trans h')
  · exact (TableReading.indexDefinition_suffix _ _ _ _).trans h'
  · exact (TableReading.indexDefinition_suffix _ _ _ _).trans h'
  · exact h

/-- The operations of `ALTER TABLE`, up to the end of the statement. -/
def operations (parts : List String) (ts : List Token) : Reading (List Step) :=
  match ts with
  | [] => ([], [])
  | t :: rest =>
    if endsStatement t then ([], t :: rest)
    else if t == .comma then operations parts rest
    else if t == .keyword .add then
      let added := addition parts rest
      -- What follows the key or index in its operation says nothing more about it.
      let more := operations parts (skipOutside endsOperation 0 added.2)
      (added.1 ++ more.1, more.2)
    else operations parts (skipOperationAfter t rest)
termination_by ts.length
decreasing_by
  · exact Nat.lt_succ_self _
  · exact Nat.lt_succ_of_le
      ((skipOutside_suffix _ _ _).trans (addition_suffix parts rest)).length_le
  · exact Nat.lt_succ_of_le (skipOutside_suffix _ _ _).length_le

/-- The statement after `ALTER`. -/
def alter : List Token → Reading (List Step)
  | .keyword .table :: ts =>
    let head := dropWord "ONLY" (skipIfExists ts)
    match qualifiedName? head with
    | some (parts, rest) =>
      let read := operations parts rest
      (read.1, dropToken .semicolon read.2)
    | none => ([], skipStatement head)
  | ts => ([], skipStatement ts)

/-! ### Scripts -/

/-- Words, in upper case, that may stand between `CREATE` and the kind of object. -/
def createModifiers : List String :=
  ["OR", "REPLACE", "TEMPORARY", "TEMP", "GLOBAL", "LOCAL", "UNLOGGED", "MATERIALIZED",
   "ALGORITHM", "UNDEFINED", "MERGE", "TEMPTABLE", "DEFINER", "SQL", "SECURITY", "INVOKER"]

/-- Steps over modifiers and, `inDefiner`, over the names that follow `DEFINER`. -/
def skipModifiers (inDefiner : Bool) : List Token → List Token
  | [] => []
  | t :: ts =>
    match t with
    | .name w =>
      -- Every modifier but `DEFINER` ends the names of a definer.
      let upper := Text.upperText w
      if createModifiers.contains upper then skipModifiers (upper == "DEFINER") ts
      else if inDefiner then skipModifiers true ts
      else t :: ts
    | _ => t :: ts

/-- The statement after `CREATE`. -/
def create (ts : List Token) : Except UnterminatedTable (Reading (List Step)) :=
  match skipModifiers false ts with
  | .keyword .table :: rest => createTable rest
  | .keyword .unique :: .keyword .index :: rest => .ok (createIndex true rest)
  | .keyword .unique :: rest => .ok ([], skipStatement rest)
  | .keyword .index :: rest => .ok (createIndex false rest)
  | .keyword .view :: rest => .ok (createView rest)
  | rest => .ok ([], skipStatement rest)

/-- The statement that starts with the token `t`. -/
def statement (t : Token) (ts : List Token) : Except UnterminatedTable (Reading (List Step)) :=
  match t with
  | .keyword .create => create ts
  | .keyword .alter => .ok (alter ts)
  -- An empty statement. Skipping one here would take the next statement with it.
  | .semicolon => .ok ([], ts)
  | _ => .ok ([], skipStatement ts)

/-- Options are taken token by token. -/
theorem tableOptions_suffix (comment : Option String) (ts : List Token) :
    (tableOptions comment ts).2 <:+ ts := by
  fun_induction tableOptions comment ts with
  | case1 => exact List.suffix_refl _
  | case2 => exact List.suffix_refl _
  | case3 comment t _ _ s rest ih =>
    exact ih.trans ((List.suffix_cons _ _).trans (List.suffix_cons _ _))
  | case4 comment t ts _ _ _ ih => exact ih.trans (List.suffix_cons _ _)
  | case5 comment t ts _ _ ih => exact ih.trans (List.suffix_cons _ _)

/-- A table definition takes its body and its options, or is stepped over. -/
theorem createTable_suffix {ts : List Token} {read : Reading (List Step)}
    (h : createTable ts = .ok read) : read.2 <:+ ts := by
  unfold createTable at h
  split at h
  · cases h
    exact (skipStatement_suffix _).trans (skipIfNotExists_suffix _)
  · rename_i parts rest hname
    have hrest : rest <:+ ts := (qualifiedName?_suffix hname).trans (skipIfNotExists_suffix _)
    dsimp only at h
    split at h
    · rename_i inside
      cases hbody : tableBody (lastPart parts) inside with
      | error e => rw [hbody] at h; cases h
      | ok body =>
        rw [hbody] at h
        cases h
        exact (tableOptions_suffix _ _).trans
          ((tableBody_suffix hbody).trans ((List.suffix_cons _ _).trans hrest))
    · cases h
      exact (skipStatement_suffix _).trans hrest

/-- The name of an index is a qualified name, or nothing. -/
theorem indexName_suffix (ts : List Token) : (indexName ts).2 <:+ ts := by
  unfold indexName
  split
  · exact List.suffix_refl _
  · split
    · rename_i hname
      exact qualifiedName?_suffix hname
    · exact List.suffix_refl _

/-- Wherever an index definition stops being one, it is stepped over from there on. -/
theorem createIndex_suffix (unique : Bool) (ts : List Token) :
    (createIndex unique ts).2 <:+ ts := by
  have h := (indexName_suffix (skipIfNotExists (dropWord "CONCURRENTLY" ts))).trans
    ((skipIfNotExists_suffix _).trans (dropWord_suffix _ _))
  unfold createIndex
  generalize indexName (skipIfNotExists (dropWord "CONCURRENTLY" ts)) = name at h
  obtain ⟨name, left⟩ := name
  have h' : left.tail <:+ ts := (List.tail_suffix _).trans h
  dsimp only
  split
  · have hname := (dropWord_suffix "ONLY" _).trans h'
    split
    · rename_i hparts
      exact (skipStatement_suffix _).trans ((columnNames_suffix _).trans
        ((skipUsing_suffix _).trans ((qualifiedName?_suffix hparts).trans hname)))
    · exact (skipStatement_suffix _).trans hname
  · exact (skipStatement_suffix _).trans h

/-- A view definition is taken up to the end of its statement. -/
theorem createView_suffix (ts : List Token) : (createView ts).2 <:+ ts := by
  unfold createView
  split
  · exact (skipStatement_suffix _).trans (skipIfNotExists_suffix _)
  · rename_i hname
    exact (skipUntil_suffix _ _).trans ((dropWord_suffix _ _).trans ((skipUntil_suffix _ _).trans
      ((qualifiedName?_suffix hname).trans (skipIfNotExists_suffix _))))

/-- The operations are taken one after the other. -/
theorem operations_suffix (parts : List String) (ts : List Token) :
    (operations parts ts).2 <:+ ts := by
  fun_induction operations parts ts with
  | case1 => exact List.suffix_refl _
  | case2 => exact List.suffix_refl _
  | case3 t rest _ _ ih => exact ih.trans (List.suffix_cons _ _)
  | case4 t rest _ _ _ added more ih =>
    exact ih.trans ((skipOutside_suffix _ _ _).trans
      ((addition_suffix _ _).trans (List.suffix_cons _ _)))
  | case5 t rest _ _ _ ih =>
    exact ih.trans ((skipOutside_suffix _ _ _).trans (List.suffix_cons _ _))

/-- An alteration takes its operations and a semicolon, or is stepped over. -/
theorem alter_suffix (ts : List Token) : (alter ts).2 <:+ ts := by
  unfold alter
  split
  · have h (ts : List Token) : dropWord "ONLY" (skipIfExists ts) <:+ .keyword .table :: ts :=
      (dropWord_suffix _ _).trans ((skipIfExists_suffix _).trans (List.suffix_cons _ _))
    dsimp only
    split
    · rename_i hname
      exact (dropToken_suffix _ _).trans ((operations_suffix _ _).trans
        ((qualifiedName?_suffix hname).trans (h _)))
    · exact (skipStatement_suffix _).trans (h _)
  · exact skipStatement_suffix _

/-- Modifiers are taken one by one. -/
theorem skipModifiers_suffix (inDefiner : Bool) (ts : List Token) :
    skipModifiers inDefiner ts <:+ ts := by
  fun_induction skipModifiers inDefiner ts <;> grind

/-- Whatever is created is taken behind the modifiers. -/
theorem create_suffix {ts : List Token} {read : Reading (List Step)}
    (h : create ts = .ok read) : read.2 <:+ ts := by
  -- What the modifiers leave is generalized, so that `split` takes the match apart and not them.
  have hts := skipModifiers_suffix false ts
  unfold create at h
  generalize skipModifiers false ts = left at h hts
  have h' : left.tail <:+ ts := (List.tail_suffix _).trans hts
  split at h
  · exact (createTable_suffix h).trans h'
  · cases h
    exact (createIndex_suffix _ _).trans ((List.suffix_cons _ _).trans h')
  · cases h
    exact (skipStatement_suffix _).trans h'
  · cases h
    exact (createIndex_suffix _ _).trans h'
  · cases h
    exact (createView_suffix _).trans h'
  · cases h
    exact (skipStatement_suffix _).trans hts

/-- Every statement leaves an end of the tokens behind its first one, so that each turn of
`statements` has fewer to go. -/
theorem statement_suffix {t : Token} {ts : List Token} {read : Reading (List Step)}
    (h : statement t ts = .ok read) : read.2 <:+ ts := by
  unfold statement at h
  split at h
  · exact create_suffix h
  · cases h; exact alter_suffix _
  · cases h; exact List.suffix_refl _
  · cases h; exact skipStatement_suffix _

/-- The steps of all statements, up to the end of the script. -/
def statements (ts : List Token) : Except UnterminatedTable (List Step) :=
  match ts with
  | [] => .ok []
  | t :: rest =>
    if t == .eof then .ok []
    else match _hread : statement t rest with
      | .error e => .error e
      | .ok read => (statements read.2).map (read.1 ++ ·)
termination_by ts.length
decreasing_by exact Nat.lt_succ_of_le (statement_suffix _hread).length_le

/-- The steps of a script. -/
def script (sql : String) : Except UnterminatedTable (List Step) :=
  statements (Token.tokens sql.toList)

end EntityDiagram.Ddl
