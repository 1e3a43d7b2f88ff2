import EntityDiagram.Parsing.Backend
import EntityDiagram.Proofs.Ddl.Routine.TableBody
import EntityDiagram.Proofs.Ddl.Token.Lexer

/-!
# `EntityDiagram.Proofs.Ddl.Routine.Script`: whole scripts, token by token

The readers of `EntityDiagram.Ddl.Script` as routines, up to `Routine.read`, which reads the tokens
of a script as a schema. That it comes to the end of every script is `Routine.read_progresses`, and
that it is what the vendor backend does with a text is `Routine.exists_run_tokens`.

Two of the readers are not loops as they stand. The reader of modifiers carries a flag, which is
taken apart into an inner loop over the names of a definer (`skipModifiers_true`). The reader of
statements puts the steps of a statement in front of those behind it, while a loop has to carry them
along: `statementsFrom` is the version with the steps so far, and `map_fst_statementsFrom` says that
it makes the same steps.

The other modules on routines are `EntityDiagram.Proofs.Ddl.Routine`, with the rules,
`EntityDiagram.Proofs.Ddl.Routine.Cursor`, `EntityDiagram.Proofs.Ddl.Routine.Column` and
`EntityDiagram.Proofs.Ddl.Routine.TableBody`, each of which takes the routines of the one before. A
change to one reader asks for its routine and its lemma alone.
-/

set_option autoImplicit false

namespace EntityDiagram.Ddl

/-! ### One turn at a time -/

/-- One turn of the reader of table options. The last comment counts. -/
theorem tableOptions_cons (comment : Option String) (t : Token) (ts : List Token) :
    tableOptions comment (t :: ts) =
      if endsStatement t then (comment, t :: ts)
      else if t.isWord "COMMENT" then
        tableOptions ((takeText ts).1.or comment) (takeText ts).2
      else tableOptions comment ts := by
  cases ts with
  | nil => rfl
  | cons u rest => cases u <;> rfl

/-- Whether the token is a name that may follow `DEFINER`. A modifier ends the account instead. -/
def namesDefiner : Token → Bool
  | .name w => !createModifiers.contains (Text.upperText w)
  | _ => false

/-- One turn of the reader of modifiers. Only names are modifiers. A keyword ends them. -/
theorem skipModifiers_name (inDefiner : Bool) (w : String) (ts : List Token) :
    skipModifiers inDefiner (.name w :: ts) =
      if createModifiers.contains (Text.upperText w) then
        skipModifiers (Text.upperText w == "DEFINER") ts
      else if inDefiner then skipModifiers true ts
      else .name w :: ts := by
  cases inDefiner <;> rfl

/-- The names of a definer come before the modifiers that follow. -/
theorem skipModifiers_true (ts : List Token) :
    skipModifiers true ts = skipModifiers false (skipUntil (fun t => !namesDefiner t) ts) := by
  induction ts with
  | nil => rfl
  | cons t rest ih =>
      cases t with
      | name w =>
          by_cases hw : createModifiers.contains (Text.upperText w) = true
          · rw [skipUntil, List.dropWhile_cons_of_neg (by simpa [namesDefiner] using hw),
              skipModifiers_name, skipModifiers_name, if_pos hw, if_pos hw]
          · rw [skipUntil, List.dropWhile_cons_of_pos (by simpa [namesDefiner] using hw),
              skipModifiers_name, if_neg hw, if_pos rfl, ih, skipUntil]
      | _ => rfl

/-- The steps of all statements, after `steps`, and the tokens that are left behind them. -/
def statementsFrom (steps : List Step) (ts : List Token) :
    Except UnterminatedTable (Reading (List Step)) :=
  match ts with
  | [] => .ok (steps, [])
  | t :: rest =>
    if t == .eof then .ok (steps, t :: rest)
    else match _hread : statement t rest with
      | .error e => .error e
      | .ok read => statementsFrom (steps ++ read.1) read.2
termination_by ts.length
decreasing_by exact Nat.lt_succ_of_le (statement_suffix _hread).length_le

/-- The statements behind the first one follow, unless that one fails. -/
theorem statementsFrom_cons (steps : List Step) {t : Token} (ht : t ≠ .eof) (ts : List Token) :
    statementsFrom steps (t :: ts) =
      (statement t ts).bind fun read => statementsFrom (steps ++ read.1) read.2 := by
  rw [statementsFrom, if_neg (by simpa using ht)]
  split
  · rename_i hread
    rw [hread]
    rfl
  · rename_i hread
    rw [hread]
    rfl

/-- The first statement is read, then the others, and a failure of either is the failure of all. -/
theorem statements_cons_eq_bind {t : Token} (ht : t ≠ .eof) (ts : List Token) :
    statements (t :: ts) =
      (statement t ts).bind fun read => (statements read.2).map (read.1 ++ ·) := by
  rw [statements, if_neg (by simpa using ht)]
  split
  · rename_i hread
    rw [hread]
    rfl
  · rename_i hread
    rw [hread]
    rfl

/-- The steps that come before a script stay in front of its own steps. By induction along the
statements. -/
theorem map_fst_statementsFrom (steps : List Step) (ts : List Token) :
    (statementsFrom steps ts).map Prod.fst = (statements ts).map (steps ++ ·) := by
  fun_induction statementsFrom steps ts with
  | case1 steps => rw [statements]; simp [Except.map]
  | case2 steps t rest hend => rw [statements, if_pos hend]; simp [Except.map]
  | case3 steps t rest hend e hread =>
      rw [statements_cons_eq_bind (by simpa using hend), hread]
      rfl
  | case4 steps t rest hend read hread ih =>
      rw [ih, statements_cons_eq_bind (by simpa using hend), hread]
      simp only [Except.bind]
      cases statements read.2 with
      | error e => rfl
      | ok more => exact congrArg Except.ok (List.append_assoc _ _ _)

/-- Nothing is left behind the statements but the end of the script. -/
theorem current_of_statementsFrom {steps : List Step} {ts : List Token}
    {read : Reading (List Step)} (h : statementsFrom steps ts = .ok read) :
    current read.2 = .eof := by
  fun_induction statementsFrom steps ts with
  | case1 => cases h; rfl
  | case2 steps t rest hend => cases h; exact beq_iff_eq.1 hend
  | case3 => cases h
  | case4 steps t rest _ step _ ih => exact ih h

namespace Routine

/-! ### Statements without steps -/

/-- A statement that makes no step. -/
def skippedStatement : Routine (List Step) := do
  skipStatement
  return []

/-- A statement that is stepped over is read without any step of a schema. -/
theorem reads_skippedStatement (ts : List Token) :
    skippedStatement.Reads ts ([], Ddl.skipStatement ts) :=
  (reads_skipStatement ts).bind (reads_pure _ _)

/-- Such a statement is stepped over from its first token on. -/
theorem reads_skippedStatement_cons {t : Token} (ht : endsStatement t = false)
    (rest : List Token) : skippedStatement.Reads (t :: rest) ([], Ddl.skipStatement rest) := by
  have hskip : Ddl.skipUntil endsStatement (t :: rest) = Ddl.skipUntil endsStatement rest :=
    List.dropWhile_cons_of_pos (by simp [ht])
  have hread := reads_skippedStatement (t :: rest)
  rwa [Ddl.skipStatement, hskip] at hread

/-! ### Tables -/

/-- The comment among the options after a table body. -/
def tableOptions (comment : Option String) : Routine (Option String) :=
  loop (fun comment => do
    if endsStatement (← current) then
      return .leave comment
    else if ← eatWord "COMMENT" then
      let text ← takeText
      return .again (text.or comment)
    else
      advance
      return .again comment) comment

/-- The statement after `CREATE TABLE`. -/
def createTable : Routine (List Step) := do
  skipIfNotExists
  match ← qualifiedName with
  | some parts =>
    let name := lastPart parts
    if ← eat .openParen then
      let table ← tableBody name
      let comment ← tableOptions none
      return [.addTable (Sql.quoteParts parts) { table with comment }]
    else
      skipStatement
      return [.warn ("Table " ++ name ++ " has no column definitions, skipped")]
  | none => skippedStatement

/-- The comment so far is the state of the loop, and a later one takes its place. A turn that finds
`COMMENT` without a literal behind it takes the word alone. -/
theorem reads_tableOptions (comment : Option String) (ts : List Token) :
    (tableOptions comment).Reads ts (Ddl.tableOptions comment ts) := by
  refine reads_loop Ddl.tableOptions (fun comment ts => ?_) comment ts
  cases ts with
  | nil => exact .leave comment [] (.look (.pos rfl (reads_pure _ _))) rfl
  | cons t rest =>
      by_cases hends : endsStatement t = true
      · exact .leave comment _ (.look (.pos hends (reads_pure _ _)))
          (by rw [tableOptions_cons, if_pos hends])
      · have hend : t ≠ .eof := fun h => hends (h ▸ rfl)
        -- Of all the options only the comment is kept. Its word is consumed before the text is
        -- looked for.
        by_cases hword : t.isWord "COMMENT" = true
        · exact .again _ (Ddl.takeText rest).2
            (.look (.neg hends ((reads_eatWord_cons hword rest).bind
              ((reads_takeText rest).bind (reads_pure _ _)))))
            (consumes_of_tail hend (takeText_suffix rest))
            (by rw [tableOptions_cons, if_neg hends, if_pos hword])
        · have heat := reads_eatWord_of_ne (Bool.eq_false_iff.2 hword) rest
          exact .again comment rest
            (.look (.neg hends (heat.bind (.step (reads_pure _ _)))))
            (consumes_of_tail hend (List.suffix_refl rest))
            (by rw [tableOptions_cons, if_neg hends, if_neg hword])

/-- The body is the one part of a statement that may fail. Where it does, neither the options nor
anything behind them is read. -/
theorem follows_createTable (ts : List Token) :
    createTable.Follows ts (Ddl.createTable ts) := by
  unfold Ddl.createTable
  refine (reads_skipIfNotExists ts).bind ?_
  cases hname : qualifiedName? (Ddl.skipIfNotExists ts) with
  | none => exact (reads_qualifiedName_none hname).bind (reads_skippedStatement _)
  | some name =>
      obtain ⟨parts, rest⟩ := name
      -- Behind the name either a body opens, or the whole statement is skipped.
      refine (reads_qualifiedName_some hname).bind ?_
      dsimp only
      split
      · rename_i inside
        exact (reads_eat_cons _ _).bind ((follows_tableBody _ _).map fun body =>
          (reads_tableOptions none body.2).bind (reads_pure _ _))
      · rename_i hrest
        exact (reads_eat_of_ne rfl hrest).bind
          ((reads_skipStatement _).bind (reads_pure _ _))

/-! ### Indexes and views -/

/-- The name of an index, which may be missing before `ON`. -/
def indexName : Routine (Option String) := do
  if (← current) == .keyword .on then
    return none
  else
    return (← qualifiedName).map lastPart

/-- The statement after `CREATE INDEX` or `CREATE UNIQUE INDEX`. -/
def indexStatement (unique : Bool) : Routine (List Step) := do
  let _ ← eatWord "CONCURRENTLY"
  skipIfNotExists
  let name ← indexName
  if ← eat (.keyword .on) then
    let _ ← eatWord "ONLY"
    match ← qualifiedName with
    | some parts =>
      skipUsing
      let columns ← columnNames
      skipStatement
      let index : Index :=
        { name, columns, unique, kind := some (if unique then "UNIQUE" else "INDEX") }
      return [.addIndex (Sql.quoteParts parts) index]
    | none => skippedStatement
  else
    skippedStatement

/-- The statement from the word on that should be `INDEX`. -/
def createIndex (unique : Bool) : Routine (List Step) := do
  if ← eat (.keyword .index) then
    indexStatement unique
  else
    skippedStatement

/-- The tokens up to the end of the statement, after `body`. -/
def viewBody (body : List Token) : Routine (List Token) :=
  loop (fun body => do
    let t ← current
    if endsStatement t then
      return .leave body
    else
      advance
      return .again (body ++ [t])) body

/-- The statement after `CREATE VIEW`. -/
def createView : Routine (List Step) := do
  skipIfNotExists
  match ← qualifiedName with
  | some parts =>
    skipUntil endsViewHead
    let _ ← eatWord "AS"
    let body ← viewBody []
    let definition :=
      if body.isEmpty then none else some (Text.joinTexts " " (body.map (·.source)))
    return [.addView { name := lastPart parts, definition }]
  | none => skippedStatement

/-- A look at `ON` tells that the name is missing, and leaves it there. -/
theorem reads_indexName (ts : List Token) : indexName.Reads ts (Ddl.indexName ts) := by
  unfold Ddl.indexName
  refine .look ?_
  cases Ddl.current ts == .keyword .on with
  | true => exact reads_pure _ _
  | false =>
      cases hname : qualifiedName? ts with
      | none => exact (reads_qualifiedName_none hname).bind (reads_pure _ _)
      | some name => exact (reads_qualifiedName_some hname).bind (reads_pure _ _)

/-- An index is read part by part. Wherever a part that has to be there is missing, the statement is
stepped over from that place on. -/
theorem reads_indexStatement (unique : Bool) (ts : List Token) :
    (indexStatement unique).Reads ts (Ddl.createIndex unique ts) := by
  have hname := reads_indexName (Ddl.skipIfNotExists (dropWord "CONCURRENTLY" ts))
  unfold Ddl.createIndex
  -- The name is generalized, so that `split` takes apart what is left behind it.
  generalize Ddl.indexName (Ddl.skipIfNotExists (dropWord "CONCURRENTLY" ts)) = name at hname
  obtain ⟨name, left⟩ := name
  dsimp only
  split
  · rename_i rest
    refine (reads_eatWord _ _).bind ((reads_skipIfNotExists _).bind (hname.bind
      ((reads_eat_cons _ _).bind ((reads_eatWord _ _).bind ?_))))
    dsimp only
    cases hparts : qualifiedName? (dropWord "ONLY" rest) with
    | none =>
        exact (reads_qualifiedName_none hparts).bind (reads_skippedStatement _)
    | some parts =>
        exact (reads_qualifiedName_some hparts).bind ((reads_skipUsing _).bind
          ((reads_columnNames _).bind ((reads_skipStatement _).bind (reads_pure _ _))))
  · rename_i hleft
    exact (reads_eatWord _ _).bind ((reads_skipIfNotExists _).bind (hname.bind
      ((reads_eat_of_ne rfl hleft).bind (reads_skippedStatement _))))

/-- The tokens of the query are collected one by one until the statement ends. -/
theorem reads_viewBody (body ts : List Token) :
    (viewBody body).Reads ts
      (body ++ ts.takeWhile (fun t => !endsStatement t), Ddl.skipUntil endsStatement ts) := by
  refine reads_loop (fun body ts =>
    (body ++ ts.takeWhile (fun t => !endsStatement t), Ddl.skipUntil endsStatement ts))
    (fun body ts => ?_) body ts
  cases ts with
  | nil => exact .leave body [] (.look (.pos rfl (reads_pure _ _))) (by simp [Ddl.skipUntil])
  | cons t rest =>
      by_cases hends : endsStatement t = true
      · exact .leave body _ (.look (.pos hends (reads_pure _ _))) (by simp [Ddl.skipUntil, hends])
      · have hend : t ≠ .eof := fun h => hends (h ▸ rfl)
        exact .again (body ++ [t]) rest (.look (.neg hends (.step (reads_pure _ _))))
          (consumes_of_tail hend (List.suffix_refl rest))
          (by simp [Ddl.skipUntil, hends])

/-- The head of a view is stepped over up to `AS`, or up to the end of the statement where that is
missing; the query is empty then. -/
theorem reads_createView (ts : List Token) : createView.Reads ts (Ddl.createView ts) := by
  unfold Ddl.createView
  refine (reads_skipIfNotExists ts).bind ?_
  cases hname : qualifiedName? (Ddl.skipIfNotExists ts) with
  | none => exact (reads_qualifiedName_none hname).bind (reads_skippedStatement _)
  | some name =>
      exact (reads_qualifiedName_some hname).bind ((reads_skipUntil (by decide) _).bind
        ((reads_eatWord _ _).bind ((reads_viewBody [] _).bind (reads_pure _ _))))

/-! ### Alterations -/

/-- `CONSTRAINT` and the name after it, if they come first. -/
def constraintName : Routine (Option String) := do
  if ← eat (.keyword .constraint) then
    takeName
  else
    return none

/-- What is added to a table after `ADD`, as far as it is a key or an index. -/
def addition (parts : List String) : Routine (List Step) := do
  let name ← constraintName
  let qualified := Sql.quoteParts parts
  match ← current with
  | .keyword .foreign =>
    let key ← foreignKey (lastPart parts) name
    return key.toList.map .addForeignKey
  | .keyword .primary =>
    advance
    let _ ← eat (.keyword .key)
    skipUsing
    let columns ← columnNames
    return [.setPrimaryKey qualified { name, columns }]
  | .keyword .unique =>
    advance
    let index ← indexDefinition name true "UNIQUE"
    return [.addIndex qualified index]
  | .keyword .index =>
    let index ← indexDefinition name false "INDEX"
    return [.addIndex qualified index]
  | .keyword .key =>
    let index ← indexDefinition name false "INDEX"
    return [.addIndex qualified index]
  | _ => return []

/-- Steps to the end of the current operation. -/
def skipOperation : Routine Unit := skipOutside endsOperation

/-- The operations of `ALTER TABLE`, up to the end of the statement, after `steps`. -/
def operations (parts : List String) (steps : List Step) : Routine (List Step) :=
  loop (fun steps => do
    match ← current with
    | .semicolon => return .leave steps
    | .eof => return .leave steps
    | .comma =>
      advance
      return .again steps
    | .keyword .add =>
      advance
      let added ← addition parts
      skipOperation
      return .again (steps ++ added)
    | _ =>
      skipOperation
      return .again steps) steps

/-- The statement after `ALTER`. -/
def alter : Routine (List Step) := do
  if ← eat (.keyword .table) then
    skipIfExists
    let _ ← eatWord "ONLY"
    match ← qualifiedName with
    | some parts =>
      let steps ← operations parts []
      let _ ← eat .semicolon
      return steps
    | none => skippedStatement
  else
    skippedStatement

/-- The word `CONSTRAINT` may stand without a name, and is taken all the same. -/
theorem reads_constraintName (ts : List Token) :
    constraintName.Reads ts (Ddl.constraintName ts) := by
  unfold Ddl.constraintName
  split
  · exact (reads_eat_cons _ _).bind (reads_takeName _)
  · rename_i h
    exact (reads_eat_of_ne rfl h).bind (reads_pure _ _)

/-- The kind of what is added is told by the current token, which the routines of table bodies
take. -/
theorem reads_addition (parts : List String) (ts : List Token) :
    (addition parts).Reads ts (Ddl.addition parts ts) := by
  unfold Ddl.addition
  refine (reads_constraintName ts).bind (.look ?_)
  obtain ⟨name, left⟩ := Ddl.constraintName ts
  cases left with
  | nil => exact reads_pure _ _
  | cons t rest =>
      cases t with
      | keyword k =>
          cases k with
          | foreign => exact (reads_foreignKey _ _ _).bind (reads_pure _ _)
          | primary =>
              exact .step ((reads_eat_keyword _ _).bind ((reads_skipUsing _).bind
                ((reads_columnNames _).bind (reads_pure _ _))))
          | unique => exact .step ((reads_indexDefinition _ _ _ _).bind (reads_pure _ _))
          | index => exact (reads_indexDefinition _ _ _ _).bind (reads_pure _ _)
          | key => exact (reads_indexDefinition _ _ _ _).bind (reads_pure _ _)
          | _ => exact reads_pure _ _
      | _ => exact reads_pure _ _

/-- What is left of an operation is stepped over up to the comma behind it. -/
theorem reads_skipOperation (ts : List Token) :
    skipOperation.Reads ts ((), Ddl.skipOutside endsOperation 0 ts) :=
  reads_skipOutside (by decide) ts

/-- An operation is stepped over from its first token on. -/
theorem reads_skipOperation_cons {t : Token} (ht : endsOperation t = false) (rest : List Token) :
    skipOperation.Reads (t :: rest) ((), skipOperationAfter t rest) := by
  have hread := reads_skipOperation (t :: rest)
  rwa [skipOutside_cons (by decide) ht] at hread

/-- The steps so far are the state of the loop. Every turn that goes on takes a token: the comma,
the word `ADD`, or whatever else the operation starts with. -/
theorem reads_operations (parts : List String) (steps : List Step) (ts : List Token) :
    (operations parts steps).Reads ts
      (steps ++ (Ddl.operations parts ts).1, (Ddl.operations parts ts).2) := by
  refine reads_loop (fun steps ts =>
    (steps ++ (Ddl.operations parts ts).1, (Ddl.operations parts ts).2))
    (fun steps ts => ?_) steps ts
  cases ts with
  | nil => exact .leave steps [] (.look (reads_pure _ _)) (by simp [Ddl.operations])
  | cons t rest =>
      cases t with
      | semicolon | eof =>
          exact .leave steps _ (.look (reads_pure _ _))
            (by rw [Ddl.operations]; simp [endsStatement])
      | comma =>
          exact .again steps rest (.look (.step (reads_pure _ _))) (consumes_cons rfl)
            (by rw [Ddl.operations]; rfl)
      | keyword k =>
          cases k with
          | add =>
              -- One turn reads a key and steps over what is left of its operation.
              exact .again (steps ++ (Ddl.addition parts rest).1)
                (Ddl.skipOutside endsOperation 0 (Ddl.addition parts rest).2)
                (.look (.step ((reads_addition parts rest).bind
                  ((reads_skipOperation _).bind (reads_pure _ _)))))
                (consumes_of_suffix rfl ((skipOutside_suffix _ _ _).trans (addition_suffix _ _)))
                (by rw [Ddl.operations, List.append_assoc]; rfl)
          | _ =>
              exact .again steps (skipOperationAfter _ rest)
                (.look ((reads_skipOperation_cons rfl rest).bind (reads_pure _ _)))
                (consumes_of_suffix rfl (skipOutside_suffix _ _ _)) (by rw [Ddl.operations]; rfl)
      | _ =>
          exact .again steps (skipOperationAfter _ rest)
            (.look ((reads_skipOperation_cons rfl rest).bind (reads_pure _ _)))
            (consumes_of_suffix rfl (skipOutside_suffix _ _ _)) (by rw [Ddl.operations]; rfl)

/-- An alteration of a table ends with its operations and takes the semicolon behind them. Any other
is stepped over. -/
theorem reads_alter (ts : List Token) : alter.Reads ts (Ddl.alter ts) := by
  unfold Ddl.alter
  split
  · rename_i rest
    refine (reads_eat_cons _ _).bind ((reads_skipIfExists _).bind ((reads_eatWord _ _).bind ?_))
    dsimp only
    cases hname : qualifiedName? (dropWord "ONLY" (Ddl.skipIfExists rest)) with
    | none =>
        exact (reads_qualifiedName_none hname).bind (reads_skippedStatement _)
    | some name =>
        exact (reads_qualifiedName_some hname).bind ((reads_operations _ [] _).bind
          ((reads_eat _ _).bind (reads_pure _ _)))
  · rename_i h
    exact (reads_eat_of_ne rfl h).bind (reads_skippedStatement _)

/-! ### Scripts -/

/-- Steps over modifiers and over the names that follow `DEFINER`. -/
def skipModifiers : Routine Unit :=
  loop (fun _ => do
    match ← current with
    | .name w =>
      if createModifiers.contains (Text.upperText w) then
        advance
        if Text.upperText w == "DEFINER" then
          -- A loop in the loop: the user and the host.
          skipUntil fun t => !namesDefiner t
        return .again ()
      else
        return .leave ()
    | _ => return .leave ()) ()

/-- The statement after `CREATE`. -/
def create : Routine (List Step) := do
  skipModifiers
  match ← current with
  | .keyword .table =>
    advance
    createTable
  | .keyword .unique =>
    advance
    createIndex true
  | .keyword .index => createIndex false
  | .keyword .view =>
    advance
    createView
  | _ => skippedStatement

/-- One statement. -/
def statement : Routine (List Step) := do
  match ← current with
  | .keyword .create =>
    advance
    create
  | .keyword .alter =>
    advance
    alter
  | .semicolon =>
    advance
    return []
  | _ => skippedStatement

/-- The statements up to the end of the script, after `steps`. -/
def statements (steps : List Step) : Routine (List Step) :=
  loop (fun steps => do
    if (← current) == .eof then
      return .leave steps
    else
      let added ← statement
      return .again (steps ++ added)) steps

/-- Reads a script as a schema with warnings. -/
def read (dialect : Sql.Dialect) :
    Routine (Except Parsing.ReadError (Schema × List String)) := do
  let steps ← statements []
  return Parsing.Backend.schemaOf dialect steps

/-- The names of a definer are stepped over by a loop of their own, inside the turn that has taken
`DEFINER`. -/
theorem reads_skipModifiers (ts : List Token) :
    skipModifiers.Reads ts ((), Ddl.skipModifiers false ts) := by
  refine reads_loop (fun _ ts => ((), Ddl.skipModifiers false ts)) (fun _ ts => ?_) () ts
  cases ts with
  | nil => exact .leave () [] (.look (reads_pure _ _)) rfl
  | cons t rest =>
      cases t with
      | name w =>
          by_cases hw : createModifiers.contains (Text.upperText w) = true
          · -- `DEFINER` is followed by an account, of which nothing has to be understood before the
            -- next keyword.
            by_cases hdefiner : (Text.upperText w == "DEFINER") = true
            · exact .again () (Ddl.skipUntil (fun t => !namesDefiner t) rest)
                (.look (.pos hw (.step (.pos hdefiner
                  ((reads_skipUntil (by decide) rest).bind (reads_pure _ _))))))
                (consumes_of_suffix rfl (skipUntil_suffix _ _))
                (by rw [skipModifiers_name, if_pos hw, hdefiner, skipModifiers_true])
            · exact .again () rest (.look (.pos hw (.step (.neg hdefiner (reads_pure _ _)))))
                (consumes_cons rfl)
                (by rw [skipModifiers_name, if_pos hw, Bool.eq_false_iff.2 hdefiner])
          · exact .leave () _ (.look (.neg hw (reads_pure _ _)))
              (by rw [skipModifiers_name, if_neg hw]; rfl)
      | _ => exact .leave () _ (.look (reads_pure _ _)) rfl

/-- Behind `INDEX` its statement is read, with one step over the word. -/
theorem reads_createIndex_cons (unique : Bool) (rest : List Token) :
    (createIndex unique).Reads (.keyword .index :: rest) (Ddl.createIndex unique rest) :=
  (reads_eat_cons _ _).bind (reads_indexStatement unique rest)

/-- Without `INDEX` the statement is stepped over, and the schema gets nothing of it. -/
theorem reads_createIndex_of_ne (unique : Bool) {ts : List Token}
    (h : (Ddl.current ts == .keyword .index) = false) :
    (createIndex unique).Reads ts ([], Ddl.skipStatement ts) := by
  have heat := reads_eat (.keyword .index) ts
  rw [dropToken_eq, h] at heat
  exact heat.bind (reads_skippedStatement ts)

/-- The kind of object is told by the current token behind the modifiers. Of all of them, only a
table may fail. -/
theorem follows_create (ts : List Token) : create.Follows ts (Ddl.create ts) := by
  unfold Ddl.create
  refine (reads_skipModifiers ts).bind (.look ?_)
  dsimp only
  -- From here on only the tokens behind the modifiers matter.
  generalize Ddl.skipModifiers false ts = left
  have hskip := reads_skippedStatement left
  cases left with
  | nil => exact hskip
  | cons t rest =>
      cases t with
      | keyword k =>
          cases k with
          | table => exact .step (follows_createTable rest)
          | unique =>
              refine .step ?_
              cases rest with
              | nil => exact reads_createIndex_of_ne true rfl
              | cons u rest =>
                  cases u with
                  | keyword k =>
                      cases k with
                      | index => exact reads_createIndex_cons true rest
                      | _ => exact reads_createIndex_of_ne true rfl
                  | _ => exact reads_createIndex_of_ne true rfl
          | index => exact reads_createIndex_cons false rest
          | view => exact .step (reads_createView rest)
          | _ => exact hskip
      | _ => exact hskip

/-- A statement takes its first token, whatever that is, unless it is the end of the script. -/
theorem follows_statement {t : Token} (rest : List Token) (hend : t ≠ .eof) :
    statement.Follows (t :: rest) (Ddl.statement t rest) := by
  refine .look ?_
  cases t with
  | keyword k =>
      cases k with
      | create => exact .step (follows_create rest)
      | alter => exact .step (reads_alter rest)
      | _ => exact reads_skippedStatement_cons rfl rest
  | semicolon => exact .step (reads_pure _ _)
  | eof => exact absurd rfl hend
  | _ => exact reads_skippedStatement_cons rfl rest

/-- The loop over the statements is left at the end of the script. Each turn before reads one
statement, which takes a token, and a statement that fails ends the loop. -/
theorem follows_statements (steps : List Step) (ts : List Token) :
    (statements steps).Follows ts (statementsFrom steps ts) := by
  refine follows_loop (f := statementsFrom) (fun steps ts => ?_) steps ts
  cases ts with
  | nil => exact .leave steps [] (.look (.pos rfl (reads_pure _ _))) (by rw [statementsFrom])
  | cons t rest =>
      by_cases hend : (t == .eof) = true
      · exact .leave steps _ (.look (.pos hend (reads_pure _ _)))
          (by rw [statementsFrom, if_pos hend])
      · have hne : t ≠ .eof := by simpa using hend
        -- A turn reads one statement and fails if that does.
        have hrun : Routine.Follows (do
              let added ← statement
              return (.again (steps ++ added) : Turn (List Step) (List Step)))
            (t :: rest)
            ((Ddl.statement t rest).map fun read => (.again (steps ++ read.1), read.2)) :=
          (follows_statement rest hne).map fun _ => reads_pure _ _
        cases hread : Ddl.statement t rest with
        | ok read =>
            rw [hread] at hrun
            exact .again (steps ++ read.1) read.2 (.look (.neg hend hrun))
              (consumes_of_tail hne (statement_suffix hread))
              (by rw [statementsFrom_cons steps hne, hread]; rfl)
        | error e =>
            rw [hread] at hrun
            exact .fail e (.look (.neg hend hrun))
              (by rw [statementsFrom_cons steps hne, hread]; rfl)

/-- From any tokens on, the statements are read up to an end of the script. -/
theorem exists_runs_statements (ts : List Token) :
    ∃ left, Ddl.current left = .eof ∧ (statements []).Runs ts (Ddl.statements ts) left := by
  have hsteps : (statementsFrom [] ts).map Prod.fst = Ddl.statements ts := by
    rw [map_fst_statementsFrom]
    cases Ddl.statements ts <;> rfl
  rw [← hsteps]
  exact (follows_statements [] ts).exists_end fun _ => current_of_statementsFrom

/-- The routine of a whole script ends where the script ends, whether it has read it or failed in
it, and its outcome is the schema of the steps. -/
theorem exists_runs_read (dialect : Sql.Dialect) (ts : List Token) :
    ∃ left, Ddl.current left = .eof ∧
      (read dialect).Runs ts
        ((Ddl.statements ts).map (Parsing.Backend.schemaOf dialect)) left := by
  obtain ⟨left, hleft, hruns⟩ := exists_runs_statements ts
  refine ⟨left, hleft, ?_⟩
  cases hsteps : Ddl.statements ts with
  | ok steps =>
      rw [hsteps] at hruns
      exact hruns.bind (reads_pure (Parsing.Backend.schemaOf dialect steps) left)
  | error e =>
      rw [hsteps] at hruns
      exact hruns.bind_error

/-- Whatever the tokens of a script are, the reading comes to an end of it, and each loop on the way
takes no more turns than there are tokens. The steps are all forwards, and every turn of a loop but
its last one takes a token which is not the end. Where it stops, the reading has a schema, or has
found no table, or fails on a table that is never closed. -/
theorem read_progresses (dialect : Sql.Dialect) {ts : List Token}
    (hend : ts.getLast? = some .eof) :
    ∃ run, read dialect ts.length ts = some run ∧
      Leads ts run.events run.position ∧ (∀ e ∈ run.events, e.Progresses) ∧
      Ddl.current run.position = .eof ∧
      run.outcome = (Ddl.statements ts).map (Parsing.Backend.schemaOf dialect) ∧
      ((∃ schema, run.outcome = .ok (.ok schema)) ∨ run.outcome = .ok (.error .noTables) ∨
        ∃ table, run.outcome = .error ⟨table⟩) := by
  obtain ⟨left, hleft, hruns⟩ := exists_runs_read dialect ts
  -- One of the tokens is an end, so that the limit of a turn for each token is high enough.
  obtain ⟨events, hrun, hevents⟩ := hruns ts.length (wordCount_lt_length hend)
  refine ⟨_, hrun, hevents, hevents.progresses, hleft, rfl, ?_⟩
  dsimp only
  cases Ddl.statements ts with
  | error e => exact .inr (.inr ⟨e.name, rfl⟩)
  | ok steps =>
      simp only [Except.map, Parsing.Backend.schemaOf]
      split
      · exact .inl ⟨_, rfl⟩
      · exact .inr (.inl rfl)

/-- A stray parenthesis, and a table with a group in it that is still open where an end comes,
though not the last one. -/
def openGroup : List Token :=
  [.closeParen, .semicolon, .keyword .create, .keyword .table, .name "t", .openParen, .name "c",
    .openParen, .keyword .on, .eof, .closeParen, .eof]

/-- A table that is still open where an end comes: the run gets over the stray parenthesis before
it, and fails at the first end, which is not the last one. -/
theorem read_progresses_openGroup :
    openGroup.getLast? = some .eof ∧
      ∃ run, read .auto openGroup.length openGroup = some run ∧
        Leads openGroup run.events run.position ∧ (∀ e ∈ run.events, e.Progresses) ∧
        Ddl.current run.position = .eof ∧ run.outcome = .error ⟨"t"⟩ := by
  have hlast : openGroup.getLast? = some .eof := rfl
  obtain ⟨run, hrun, hleads, hevents, hend, -⟩ := read_progresses .auto hlast
  have houtcome : (read .auto openGroup.length openGroup).map (·.outcome) = some (.error ⟨"t"⟩) :=
    rfl
  rw [hrun] at houtcome
  exact ⟨hlast, run, hrun, hleads, hevents, hend, Option.some.inj houtcome⟩

/-- What the vendor backend makes of a text is what the routine makes of its tokens. So everything
that is known of the run holds of the backend. -/
theorem exists_run_tokens (grammar : Parsing.Grammar) (dialect : Sql.Dialect) (sql : String) :
    ∃ run, read dialect (Token.tokens sql.toList).length (Token.tokens sql.toList) = some run ∧
      Parsing.Backend.read grammar .vendor dialect sql = match run.outcome with
        | .ok result => result
        | .error e => .error (.unterminatedTable e.name) := by
  obtain ⟨front, htokens, -⟩ := Token.tokens_eq_append_eof sql.toList
  have hend : (Token.tokens sql.toList).getLast? = some .eof := by
    rw [htokens, List.getLast?_concat]
  obtain ⟨left, -, hruns⟩ := exists_runs_read dialect (Token.tokens sql.toList)
  -- The tokens are more than the steps that a run can need, so the bound is never met.
  obtain ⟨events, hrun, -⟩ := hruns _ (wordCount_lt_length hend)
  refine ⟨_, hrun, ?_⟩
  unfold Parsing.Backend.read Parsing.Backend.steps Ddl.script
  dsimp only
  cases Ddl.statements (Token.tokens sql.toList) with
  | error e => rfl
  | ok steps => rfl

end Routine

end EntityDiagram.Ddl
