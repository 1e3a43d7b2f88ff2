import EntityDiagram.Proofs.Ddl.Routine.Cursor

/-!
# `EntityDiagram.Proofs.Ddl.Routine.Column`: foreign keys and columns, token by token

The readers of `EntityDiagram.Ddl.ForeignKey` and `EntityDiagram.Ddl.Column` as routines. What ends
a type, a column or the actions of a foreign key is left to the routine around it, and everything
else is stepped over, so that each of their loops makes progress.

Each routine has the name of its reader and is followed by a lemma `reads_` of that name, which says
that it reads what the reader reads. The lemmas follow the order of the routines and never unfold
the one of another routine. The loops are `withActions`, `groupFrom`, `typeFrom` and `options`:
their states are what has been read so far, and their readers are recursive in the same places,
which is what `Routine.reads_loop` compares.

The words of an option are told apart by a list here (`numberingWords`), where the reader has a
branch for each of them; `word_of_numbering` and `word_of_other` say that both come to the same.
-/

set_option autoImplicit false

namespace EntityDiagram.Ddl.Routine

/-! ### Foreign keys -/

/-- A name may be taken only to come past it. -/
theorem takeName_snd (ts : List Token) : (Ddl.takeName ts).2 = dropName ts := by
  unfold Ddl.takeName dropName
  split <;> rfl

/-- Takes the event that comes after `ON`, if one does. -/
def event : Routine (Option KeyEvent) := do
  if ← eatWord "DELETE" then
    return some .delete
  else if ← eatWord "UPDATE" then
    return some .update
  else
    return none

/-- An action: one word, or two after `SET` and `NO`. -/
def action : Routine String := do
  if ← eatWord "SET" then
    let t ← current
    advance
    return "SET_" ++ Text.upperText t.source
  else if ← eatWord "NO" then
    advance
    return "NO_ACTION"
  else
    let t ← current
    advance
    return Text.upperText t.source

/-- `ON` with an event and an action; nothing where it is followed by no event. -/
def eventAction : Routine (Option (KeyEvent × String)) := do
  -- `ON` is taken in any case, so that the loops around come past it.
  advance
  match ← event with
  | some event => return some (event, ← action)
  | none => return none

/-- The table and columns after `REFERENCES`, if a name comes first. -/
def reference : Routine (Option (String × List String)) := do
  match ← qualifiedName with
  | some parts => return some (lastPart parts, ← columnNames)
  | none => return none

/-- The actions after a foreign key, up to the first `ON` that no event follows. -/
def withActions (key : ForeignKey) : Routine ForeignKey :=
  loop (fun key => do
    if (← current) == .keyword .on then
      match ← eventAction with
      | some (event, action) => return .again (setAction key event action)
      | none => return .leave key
    else
      return .leave key) key

/-- A foreign key of `table`, from `FOREIGN` on; none where the reference is missing. -/
def foreignKey (table : String) (name : Option String) : Routine (Option ForeignKey) := do
  advance
  let _ ← eat (.keyword .key)
  let _ ← takeName
  let fromColumns ← columnNames
  if ← eat (.keyword .references) then
    match ← reference with
    | some (toTable, toColumns) =>
      return some (← withActions { name, fromTable := table, fromColumns, toTable, toColumns })
    | none => return none
  else
    return none

/-- The first word of an action tells how many tokens there are to take. Each of them is one
step. -/
theorem reads_action (ts : List Token) : action.Reads ts (Ddl.action ts) := by
  unfold Ddl.action
  refine (reads_eatWord "SET" ts).bind ?_
  rw [dropWord_eq]
  cases (Ddl.current ts).isWord "SET" with
  | true => exact .look (.step (reads_pure _ _))
  | false =>
      refine (reads_eatWord "NO" ts).bind ?_
      rw [dropWord_eq]
      cases (Ddl.current ts).isWord "NO" with
      | true => exact .step (reads_pure _ _)
      | false => exact .look (.step (reads_pure _ _))

/-- Which event comes first is found by two attempts to take a word, the second one only if the
first has failed. -/
theorem reads_event (ts : List Token) :
    event.Reads ts (event? ts, if (event? ts).isSome then ts.tail else ts) := by
  unfold event?
  refine (reads_eatWord "DELETE" ts).bind ?_
  rw [dropWord_eq]
  cases (Ddl.current ts).isWord "DELETE" with
  | true => exact reads_pure _ _
  | false =>
      refine (reads_eatWord "UPDATE" ts).bind ?_
      rw [dropWord_eq]
      cases (Ddl.current ts).isWord "UPDATE" with
      | true => exact reads_pure _ _
      | false => exact reads_pure _ _

/-- The word `ON` is taken first, before it is known whether an event follows. -/
theorem reads_eventAction (ts : List Token) :
    eventAction.Reads ts (Ddl.eventAction ts.tail) := by
  unfold Ddl.eventAction
  refine .step ((reads_event ts.tail).bind ?_)
  cases event? ts.tail with
  | some event => exact (reads_action _).bind (reads_pure _ _)
  | none => exact reads_pure _ _

/-- Where the name of the table is missing nothing is taken, and the columns are not looked for. -/
theorem reads_reference (ts : List Token) :
    reference.Reads ts
      ((reference? ts).map Prod.fst, ((reference? ts).map Prod.snd).getD ts) := by
  unfold reference?
  cases hname : qualifiedName? ts with
  | some name =>
      exact (reads_qualifiedName_some hname).bind ((reads_columnNames _).bind (reads_pure _ _))
  | none => exact (reads_qualifiedName_none hname).bind (reads_pure _ _)

/-- The foreign key is the state of the loop. A turn that goes on has taken `ON`, so that the loop
makes progress however little follows. -/
theorem reads_withActions (key : ForeignKey) (ts : List Token) :
    (withActions key).Reads ts (Ddl.withActions key ts) := by
  refine reads_loop Ddl.withActions (fun key ts => ?_) key ts
  -- The loop goes on behind an `ON` only, and that has been taken then.
  by_cases hon : ∃ rest, ts = .keyword .on :: rest
  · obtain ⟨rest, rfl⟩ := hon
    have hrun := reads_eventAction (.keyword .on :: rest)
    have hleft := eventAction_suffix rest
    rw [List.tail_cons] at hrun
    cases hread : Ddl.eventAction rest with
    | mk found left =>
        rw [hread] at hrun hleft
        cases found with
        | some found =>
            exact .again (setAction key found.1 found.2) left
              (.look (.pos rfl (hrun.bind (reads_pure _ _)))) (consumes_of_suffix rfl hleft)
              (by rw [Ddl.withActions, hread])
        | none =>
            exact .leave key left (.look (.pos rfl (hrun.bind (reads_pure _ _))))
              (by rw [Ddl.withActions, hread])
  · have hon : ∀ rest, ts = .keyword .on :: rest → False := fun rest h => hon ⟨rest, h⟩
    refine .leave key ts (.look (.neg ?_ (reads_pure _ _))) (by rw [Ddl.withActions]; exact hon)
    rw [current_beq_eq_false rfl hon]
    decide

/-- A foreign key is read in the order of its parts, up to the first one that is missing. -/
theorem reads_foreignKey (table : String) (name : Option String) (ts : List Token) :
    (foreignKey table name).Reads ts (Ddl.foreignKey table name ts.tail) := by
  unfold Ddl.foreignKey
  -- The name of an index is of no use here, only what is left behind it.
  refine .step ((reads_eat_keyword _ _).bind ((reads_takeName _).bind ?_))
  rw [takeName_snd]
  refine (reads_columnNames _).bind ?_
  dsimp only
  split
  · rename_i rest hrest
    rw [hrest]
    refine (reads_eat_cons _ _).bind ((reads_reference rest).bind ?_)
    cases reference? rest with
    | some found => exact (reads_withActions _ _).bind (reads_pure _ _)
    | none => exact reads_pure _ _
  · rename_i hrest
    exact (reads_eat_of_ne rfl hrest).bind (reads_pure _ _)

/-! ### Types and defaults -/

/-- The tokens of a group whose opening parenthesis has been read, after `tokens`. `depth` more
parentheses are open. -/
def groupFrom (tokens : List Token) (depth : Nat) : Routine (List Token) :=
  loop (fun (tokens, depth) => do
    match ← current, depth with
    | .eof, _ => return .leave tokens
    | .closeParen, 0 =>
      advance
      return .leave tokens
    | .closeParen, depth + 1 =>
      advance
      return .again (tokens ++ [.closeParen], depth)
    | .openParen, depth =>
      advance
      return .again (tokens ++ [.openParen], depth + 1)
    | t, depth =>
      advance
      return .again (tokens ++ [t], depth)) (tokens, depth)

/-- What continues the type text `read`. -/
def typeFrom (read : List Char) : Routine (List Char) :=
  loop (fun read => do
    match ← current with
    | .openParen =>
      if read.getLast? == some ')' then
        -- The group stays for what is read behind the type.
        return .leave read
      else
        advance
        let group ← groupFrom [] 0
        return .again (read ++ ['('] ++ sources group ++ [')'])
    | .name w =>
      if continuesType w then
        advance
        return .again (read ++ if w == "[]" then w.toList else ' ' :: w.toList)
      else
        return .leave read
    | _ => return .leave read) read

/-- The text of a declared type; empty where no name comes first. -/
def declaredType : Routine (List Char) := do
  match ← takeName with
  | some w => typeFrom w.toList
  | none => return []

/-- A group in parentheses, from its opening one on, with its parentheses. -/
def parenthesized : Routine String := do
  advance
  let group ← groupFrom [] 0
  return String.ofList (['('] ++ groupText group ++ [')'])

/-- The value after `DEFAULT`. -/
def defaultValue : Routine String := do
  match ← current with
  | .text s =>
    advance
    return s
  | .number n =>
    advance
    return n
  | .keyword .null =>
    advance
    return "NULL"
  | .name s =>
    advance
    if (← current) == .openParen then
      return s ++ (← parenthesized)
    else
      return s
  | .openParen => parenthesized
  | _ => return ""

/-- The tokens are collected in the state of the loop, and a token that closes an inner group is one
of them. -/
theorem reads_groupFrom (tokens : List Token) (depth : Nat) (ts : List Token) :
    (groupFrom tokens depth).Reads ts
      (tokens ++ (Ddl.groupFrom depth ts).1, (Ddl.groupFrom depth ts).2) := by
  -- The loop carries the tokens of the group, and how many groups are open inside of it.
  refine reads_loop (fun state ts =>
    (state.1 ++ (Ddl.groupFrom state.2 ts).1, (Ddl.groupFrom state.2 ts).2))
    (fun state ts => ?_) (tokens, depth) ts
  obtain ⟨tokens, depth⟩ := state
  cases ts with
  | nil => exact .leave tokens [] (.look (reads_pure _ _)) (by simp [Ddl.groupFrom])
  | cons t rest =>
      cases t with
      | eof => exact .leave tokens _ (.look (reads_pure _ _)) (by simp [Ddl.groupFrom])
      | closeParen =>
          cases depth with
          | zero =>
              exact .leave tokens rest (.look (.step (reads_pure _ _))) (by simp [Ddl.groupFrom])
          | succ depth =>
              exact .again (tokens ++ [.closeParen], depth) rest (.look (.step (reads_pure _ _)))
                (consumes_cons rfl) (by simp [Ddl.groupFrom])
      | openParen =>
          exact .again (tokens ++ [.openParen], depth + 1) rest (.look (.step (reads_pure _ _)))
            (consumes_cons rfl) (by simp [Ddl.groupFrom])
      | _ =>
          exact .again (tokens ++ [_], depth) rest (.look (.step (reads_pure _ _)))
            (consumes_cons rfl) (by simp [Ddl.groupFrom, Ddl.current])

/-- A turn takes a continuation word or a whole group, whose loop runs inside the turn. The text so
far is the state. -/
theorem reads_typeFrom (read : List Char) (ts : List Token) :
    (typeFrom read).Reads ts (Ddl.typeFrom read ts) := by
  refine reads_loop Ddl.typeFrom (fun read ts => ?_) read ts
  cases ts with
  | nil => exact .leave read [] (.look (reads_pure _ _)) (by simp [Ddl.typeFrom])
  | cons t rest =>
      cases t with
      | openParen =>
          -- A second group in parentheses is no part of the type any more.
          by_cases hread : (read.getLast? == some ')') = true
          · exact .leave read _ (.look (.pos hread (reads_pure _ _)))
              (by rw [Ddl.typeFrom, if_pos hread])
          · exact .again _ (Ddl.groupFrom 0 rest).2
              (.look (.neg hread (.step ((reads_groupFrom [] 0 rest).bind (reads_pure _ _)))))
              (consumes_of_suffix rfl (groupFrom_suffix 0 rest))
              (by rw [Ddl.typeFrom, if_neg hread]; rfl)
      | name w =>
          by_cases hw : continuesType w = true
          · exact .again _ rest (.look (.pos hw (.step (reads_pure _ _)))) (consumes_cons rfl)
              (by rw [Ddl.typeFrom, if_pos hw])
          · exact .leave read _ (.look (.neg hw (reads_pure _ _)))
              (by rw [Ddl.typeFrom, if_neg hw])
      | _ => exact .leave read _ (.look (reads_pure _ _)) (by simp [Ddl.typeFrom])

/-- The loop over the words of a type starts with its first name, and there is no loop without
one. -/
theorem reads_declaredType (ts : List Token) : declaredType.Reads ts (Ddl.declaredType ts) := by
  refine (reads_takeName ts).bind ?_
  cases ts with
  | nil => exact reads_pure _ _
  | cons t rest =>
      cases t with
      | name w => exact reads_typeFrom w.toList rest
      | _ => exact reads_pure _ _

/-- The opening parenthesis is taken with a step of its own, whatever it is. -/
theorem reads_parenthesized (ts : List Token) :
    parenthesized.Reads ts (Ddl.parenthesized ts.tail) :=
  .step ((reads_groupFrom [] 0 ts.tail).bind (reads_pure _ _))

/-- What kind of value it is the first token tells. Behind a name one look at the next token tells a
call apart. -/
theorem reads_defaultValue (ts : List Token) : defaultValue.Reads ts (Ddl.defaultValue ts) := by
  refine .look ?_
  cases ts with
  | nil => exact reads_pure _ _
  | cons t rest =>
      cases t with
      | text s => exact .step (reads_pure _ _)
      | number n => exact .step (reads_pure _ _)
      | keyword k =>
          cases k with
          | null => exact .step (reads_pure _ _)
          | _ => exact reads_pure _ _
      | name s =>
          -- The name has been consumed, and the token behind it says whether it is a call.
          refine .step (.look ?_)
          cases rest with
          | nil => exact .neg Bool.false_ne_true (reads_pure _ _)
          | cons u rest =>
              cases u with
              | openParen =>
                  exact .pos rfl ((reads_parenthesized (.openParen :: rest)).bind (reads_pure _ _))
              | _ => exact .neg Bool.false_ne_true (reads_pure _ _)
      | openParen => exact reads_parenthesized (.openParen :: rest)
      | _ => exact reads_pure _ _

/-! ### Options -/

/-- The words, in upper case, by which a column numbers itself. -/
def numberingWords : List String := ["AUTO_INCREMENT", "AUTOINCREMENT", "IDENTITY"]

/-- The three words by which a column numbers itself have the same effect. -/
theorem word_of_numbering {w : String} (h : Text.upperText w ∈ numberingWords) (r : ColumnReading)
    (ts : List Token) :
    r.word w ts = (r.mapColumn fun c => { c with autoIncrement := true }, ts) := by
  unfold ColumnReading.word
  generalize Text.upperText w = upper at h ⊢
  obtain rfl | rfl | rfl : upper = "AUTO_INCREMENT" ∨ upper = "AUTOINCREMENT" ∨
      upper = "IDENTITY" := by simpa [numberingWords] using h
  all_goals rfl

/-- A word of no meaning among the options of a column changes nothing and takes nothing along. -/
theorem word_of_other {w : String} (h : Text.upperText w ∉ numberingWords)
    (hcomment : Text.upperText w ≠ "COMMENT") (r : ColumnReading) (ts : List Token) :
    r.word w ts = (r, ts) := by
  unfold ColumnReading.word
  split
  · rename_i hw
    exact absurd (by rw [hw]; decide) h
  · rename_i hw
    exact absurd (by rw [hw]; decide) h
  · rename_i hw
    exact absurd (by rw [hw]; decide) h
  · rename_i hw
    exact absurd hw hcomment
  · rfl

/-- An option that starts with a word which is no keyword, behind that word. -/
def word (r : ColumnReading) (w : String) : Routine ColumnReading := do
  if numberingWords.contains (Text.upperText w) then
    return r.mapColumn fun c => { c with autoIncrement := true }
  else if Text.upperText w == "COMMENT" then
    match ← takeText with
    | some s => return r.mapColumn fun c => { c with comment := some s }
    | none => return r
  else
    return r

/-- An option of a column of `table`. -/
def option (table : String) (r : ColumnReading) : Routine ColumnReading := do
  match ← current with
  | .keyword .not =>
    advance
    if ← eat (.keyword .null) then
      return r.mapColumn fun c => { c with nullable := false }
    else
      return r
  | .keyword .null =>
    advance
    return r.mapColumn fun c => { c with nullable := true }
  | .keyword .primary =>
    advance
    let _ ← eat (.keyword .key)
    return r.mapColumn Column.asKey
  | .keyword .unique =>
    advance
    let _ ← eat (.keyword .key)
    return r.withUnique
  | .keyword .default =>
    advance
    let value ← defaultValue
    return r.mapColumn fun c => { c with defaultValue := some value }
  | .keyword .references =>
    advance
    match ← reference with
    | some (toTable, toColumns) =>
      let key : ForeignKey :=
        { fromTable := table, fromColumns := [r.column.name], toTable, toColumns }
      return { r with foreignKey := some key }
    | none => return r
  | .keyword .on =>
    match ← eventAction with
    | some (event, action) =>
      return { r with foreignKey := r.foreignKey.map (setAction · event action) }
    | none => return r
  | .keyword .constraint =>
    advance
    let _ ← takeName
    return r
  | .keyword .check =>
    advance
    skipGroup
    return r
  | .openParen =>
    skipGroup
    return r
  | .name w =>
    advance
    word r w
  | _ =>
    advance
    return r

/-- The options up to the end of the definition. -/
def options (table : String) (r : ColumnReading) : Routine ColumnReading :=
  loop (fun r => do
    if ColumnReading.ends (← current) then
      return .leave r
    else
      return .again (← option table r)) r

/-- The definition, in `table`, of the column of this name, from the name on. -/
def columnDefinition (table name : String) : Routine ColumnReading := do
  advance
  let type ← declaredType
  options table { column := columnOfType name (Sql.ColumnType.ofText type) }

/-- The word itself has been taken before. Only `COMMENT` takes one more token, and that only if it
is a literal. -/
theorem reads_word (r : ColumnReading) (w : String) (ts : List Token) :
    (word r w).Reads ts (r.word w ts) := by
  by_cases hnumbering : numberingWords.contains (Text.upperText w) = true
  · rw [word_of_numbering (by simpa using hnumbering)]
    exact .pos hnumbering (reads_pure _ _)
  · refine .neg hnumbering ?_
    by_cases hcomment : (Text.upperText w == "COMMENT") = true
    · refine .pos hcomment ((reads_takeText ts).bind ?_)
      unfold ColumnReading.word
      rw [beq_iff_eq.1 hcomment]
      cases ts with
      | nil => exact reads_pure _ _
      | cons t rest => cases t <;> exact reads_pure _ _
    · rw [word_of_other (by simpa using hnumbering) (by simpa using hcomment)]
      exact .neg hcomment (reads_pure _ _)

/-- An option is read by the token that it starts with, which every branch takes: this is why the
loop over the options makes progress. -/
theorem reads_option (table : String) (r : ColumnReading) (t : Token) (rest : List Token) :
    (option table r).Reads (t :: rest) (r.option table t rest) := by
  refine .look ?_
  cases t with
  | keyword k =>
      cases k with
      | not =>
          refine .step ?_
          unfold ColumnReading.option
          dsimp only
          split
          · exact (reads_eat_cons _ _).bind (reads_pure _ _)
          · rename_i h
            exact (reads_eat_of_ne rfl h).bind (reads_pure _ _)
      | null => exact .step (reads_pure _ _)
      | primary => exact .step ((reads_eat_keyword _ _).bind (reads_pure _ _))
      | unique => exact .step ((reads_eat_keyword _ _).bind (reads_pure _ _))
      | default => exact .step ((reads_defaultValue _).bind (reads_pure _ _))
      | references =>
          refine .step ((reads_reference rest).bind ?_)
          show Follows _ _ (.ok (r.reference table rest))
          unfold ColumnReading.reference
          cases reference? rest with
          | some found => exact reads_pure _ _
          | none => exact reads_pure _ _
      | on =>
          -- The word `ON` is taken along with the event.
          refine (reads_eventAction (.keyword .on :: rest)).bind ?_
          show Follows _ _ (.ok (r.onEvent rest))
          unfold ColumnReading.onEvent
          rw [List.tail_cons]
          obtain ⟨found, left⟩ := Ddl.eventAction rest
          cases found with
          | some found => exact reads_pure _ _
          | none => exact reads_pure _ _
      | constraint =>
          refine .step ((reads_takeName rest).bind ?_)
          rw [takeName_snd]
          exact reads_pure _ _
      | check => exact .step ((reads_skipGroup _).bind (reads_pure _ _))
      | _ => exact .step (reads_pure _ _)
  | openParen => exact (reads_skipGroup (.openParen :: rest)).bind (reads_pure _ _)
  | name w => exact .step (reads_word r w rest)
  | _ => exact .step (reads_pure _ _)

/-- The loop over the options is left in front of the token that ends the column, and each turn
before takes the token that its option starts with. -/
theorem reads_options (table : String) (r : ColumnReading) (ts : List Token) :
    (options table r).Reads ts (ColumnReading.options table r ts) := by
  refine reads_loop (ColumnReading.options table) (fun r ts => ?_) r ts
  cases ts with
  | nil => exact .leave r [] (.look (.pos rfl (reads_pure _ _))) (by rw [ColumnReading.options])
  | cons t rest =>
      by_cases hends : ColumnReading.ends t = true
      · exact .leave r _ (.look (.pos hends (reads_pure _ _)))
          (by rw [ColumnReading.options, if_pos hends])
      · have hend : t ≠ .eof := fun h => hends (h ▸ rfl)
        exact .again _ _ (.look (.neg hends ((reads_option table r t rest).bind (reads_pure _ _))))
          (consumes_of_tail hend (ColumnReading.option_suffix table r t rest))
          (by rw [ColumnReading.options, if_neg hends])

/-- A column is its name, which has been looked at and is taken now, then its type and its
options. -/
theorem reads_columnDefinition (table name : String) (ts : List Token) :
    (columnDefinition table name).Reads ts (Ddl.columnDefinition table name ts.tail) :=
  .step ((reads_declaredType _).bind (reads_options _ _ _))

end EntityDiagram.Ddl.Routine
