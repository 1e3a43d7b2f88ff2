import EntityDiagram.Proofs.Ddl.Routine.Column

/-!
# `EntityDiagram.Proofs.Ddl.Routine.TableBody`: table bodies, token by token

The readers of `EntityDiagram.Ddl.TableBody` as routines. An element of a table body takes the token
that it starts with, whatever that is, unless it is the parenthesis that closes the body or the end
of the script. On the one the loop over the elements is left, on the other one it fails.

That is the only place where a reader may fail, so that this loop, and the one over the statements
around it, are compared by `Routine.follows_loop` and not by its special case for readers that
cannot. Everything above it in a script, `createTable`, `create`, `statement` and `statements`,
fails because a body does.

A name in front of an element may open a constraint, an index or a column. The routine looks at the
token behind it for that, where the reader matches on both. That the look takes nothing is why a
column still finds its name when it is reached.
-/

set_option autoImplicit false

namespace EntityDiagram.Ddl.Routine

/-! ### Indexes -/

/-- Steps over one of the words `KEY` and `INDEX`. -/
def skipIndexWord : Routine Unit := do
  match ← current with
  | .keyword .key => advance
  | .keyword .index => advance
  | _ => return ()

/-- The name of an index or, where it has none, that of the constraint. -/
def ownName (constraint : Option String) : Routine (Option String) := do
  match ← current with
  | .name n =>
    if Text.eqIgnoreCase n "USING" then
      return constraint
    else
      advance
      return some n
  | _ => return constraint

/-- An index behind its name. -/
def namedIndex (unique : Bool) (kind : String) (name : Option String) : Routine Index := do
  skipUsing
  let columns ← columnNames
  return { name, columns, unique, kind := some kind }

/-- An index, from the word `KEY` or `INDEX` on if there is one. -/
def indexDefinition (constraint : Option String) (unique : Bool) (kind : String) :
    Routine Index := do
  skipIndexWord
  let name ← ownName constraint
  namedIndex unique kind name

/-- One of the two words is taken with one step, and nothing is taken without them. -/
theorem reads_skipIndexWord (ts : List Token) : skipIndexWord.Reads ts ((), dropIndexWord ts) := by
  refine .look ?_
  cases ts with
  | nil => exact reads_pure _ _
  | cons t rest =>
      cases t with
      | keyword k =>
          cases k with
          | key | index => exact reads_advance _
          | _ => exact reads_pure _ _
      | _ => exact reads_pure _ _

/-- Behind its name an index is read in the order of its parts. -/
theorem reads_namedIndex (unique : Bool) (kind : String) (name : Option String) (ts : List Token) :
    (namedIndex unique kind name).Reads ts
      ({ name, columns := (Ddl.columnNames (Ddl.skipUsing ts)).1, unique, kind := some kind },
        (Ddl.columnNames (Ddl.skipUsing ts)).2) :=
  (reads_skipUsing ts).bind ((reads_columnNames _).bind (reads_pure _ _))

/-- The name of an index is taken only if it is none; `USING` in its place is left for what follows,
and the index has the name of the constraint. -/
theorem reads_indexDefinition (constraint : Option String) (unique : Bool) (kind : String)
    (ts : List Token) :
    (indexDefinition constraint unique kind).Reads ts
      (Ddl.indexDefinition constraint unique kind (dropIndexWord ts)) := by
  refine (reads_skipIndexWord ts).bind ?_
  -- The two ways to a name differ in the tokens that are left for the columns.
  have hnamed := reads_namedIndex unique kind
  generalize dropIndexWord ts = left
  cases left with
  | nil => exact Reads.bind (.look (reads_pure constraint [])) (hnamed constraint [])
  | cons t rest =>
      cases t with
      | name n =>
          unfold Ddl.indexDefinition
          dsimp only
          by_cases hn : Text.eqIgnoreCase n "USING" = true
          · rw [if_pos hn]
            exact Reads.bind (.look (.pos hn (reads_pure constraint _))) (hnamed constraint _)
          · rw [if_neg hn]
            exact Reads.bind (.look (.neg hn (.step (reads_pure (some n) _)))) (hnamed (some n) _)
      | _ => exact Reads.bind (.look (reads_pure constraint _)) (hnamed constraint _)

/-! ### Elements -/

/-- Steps to the end of the current element. -/
def skipElement : Routine Unit := skipOutside endsElement

/-- `CONSTRAINT`, with the name that it gives to the constraint that follows. -/
def constraintClause (r : TableReading) : Routine TableReading := do
  advance
  let name ← takeName
  if opensNamedConstraint (← current) then
    return { r with constraint := if name.isSome then name else r.constraint }
  else
    skipElement
    return { r with constraint := none }

/-- A `PRIMARY KEY` clause. -/
def primaryClause (r : TableReading) : Routine TableReading := do
  advance
  let _ ← eat (.keyword .key)
  skipUsing
  let columns ← columnNames
  skipElement
  return { r with primaryKey := some { name := r.constraint, columns }, constraint := none }

/-- A `FOREIGN KEY` clause. -/
def foreignClause (table : String) (r : TableReading) : Routine TableReading := do
  let key ← foreignKey table r.constraint
  skipElement
  return { r with foreignKeys := r.foreignKeys ++ key.toList, constraint := none }

/-- An index clause, from the word `KEY` or `INDEX` on if there is one. -/
def indexClause (unique : Bool) (kind : String) (r : TableReading) : Routine TableReading := do
  let index ← indexDefinition r.constraint unique kind
  skipElement
  return { r with indexes := r.indexes ++ [index], constraint := none }

/-- A full-text or spatial index clause. -/
def specialIndexClause (w : String) (r : TableReading) : Routine TableReading := do
  advance
  let index ← indexDefinition none false (Text.upperText w)
  skipElement
  return { r with indexes := r.indexes ++ [index] }

/-- A column definition. -/
def columnClause (table w : String) (r : TableReading) : Routine TableReading := do
  let read ← columnDefinition table w
  return { r with
    columns := r.columns ++ [read.column]
    indexes := r.indexes ++ read.indexes
    foreignKeys := r.foreignKeys ++ read.foreignKey.toList }

/-- An element that starts with a name. What it is may depend on the token behind. -/
def nameClause (table w : String) (r : TableReading) : Routine TableReading := do
  let behind ← following
  if opensOtherConstraint w [behind] then
    skipElement
    return r
  else if opensSpecialIndex w [behind] then
    specialIndexClause w r
  else
    columnClause table w r

/-- An element, or a comma. -/
def element (table : String) (r : TableReading) : Routine TableReading := do
  match ← current with
  | .comma =>
    advance
    return { r with constraint := none }
  | .keyword .constraint => constraintClause r
  | .keyword .primary => primaryClause r
  | .keyword .foreign => foreignClause table r
  | .keyword .unique =>
    advance
    indexClause true "UNIQUE" r
  | .keyword .index => indexClause false "INDEX" r
  | .keyword .key => indexClause false "INDEX" r
  | .name w => nameClause table w r
  | _ =>
    skipElement
    return r

/-- The elements up to the closing parenthesis of the body. -/
def elements (table : String) (r : TableReading) : Routine TableReading :=
  loop (fun r => do
    match ← current with
    | .closeParen =>
      advance
      return .leave r
    -- The only place where a routine fails.
    | .eof => fail ⟨table⟩
    | _ => return .again (← element table r)) r

/-- The table of this name, from its body after the opening parenthesis. -/
def tableBody (name : String) : Routine Table := do
  let r ← elements name {}
  return r.toTable name

/-- An element is left behind token by token, and group by group. -/
theorem reads_skipElement (ts : List Token) : skipElement.Reads ts ((), Ddl.skipElement ts) :=
  reads_skipOutside (by decide) ts

/-- An element is stepped over from its first token on. -/
theorem reads_skipElement_cons {t : Token} (ht : endsElement t = false) (rest : List Token) :
    skipElement.Reads (t :: rest) ((), skipElementAfter t rest) := by
  have hread := reads_skipElement (t :: rest)
  rwa [Ddl.skipElement, skipOutside_cons (by decide) ht] at hread

/-- Behind the name one look tells whether the constraint is one that is read. If so it is left to
the next turn of the loop around, which finds the name in the state. -/
theorem reads_constraintClause (r : TableReading) (ts : List Token) :
    (constraintClause r).Reads ts (r.constraintName ts.tail) := by
  unfold TableReading.constraintName
  refine .step ((reads_takeName _).bind (.look ?_))
  dsimp only
  split
  · exact reads_pure _ _
  · exact (reads_skipElement _).bind (reads_pure _ _)

/-- A primary key is read in the order of its parts, and what stands behind its columns is stepped
over. -/
theorem reads_primaryClause (r : TableReading) (ts : List Token) :
    (primaryClause r).Reads ts (r.primaryClause ts.tail) :=
  .step ((reads_eat_keyword _ _).bind ((reads_skipUsing _).bind ((reads_columnNames _).bind
    ((reads_skipElement _).bind (reads_pure _ _)))))

/-- A foreign key takes its own first word, and what stands behind it is stepped over. -/
theorem reads_foreignClause (table : String) (r : TableReading) (ts : List Token) :
    (foreignClause table r).Reads ts (r.foreignClause table ts.tail) :=
  (reads_foreignKey _ _ _).bind ((reads_skipElement _).bind (reads_pure _ _))

/-- An index clause may start with its word or behind it, since the word is taken only where it
stands. -/
theorem reads_indexClause (unique : Bool) (kind : String) (r : TableReading) (ts : List Token) :
    (indexClause unique kind r).Reads ts (r.indexClause unique kind (dropIndexWord ts)) :=
  (reads_indexDefinition _ _ _ _).bind ((reads_skipElement _).bind (reads_pure _ _))

/-- The word `FULLTEXT` or `SPATIAL` is taken with one step, and the kind of the index is made of
it. -/
theorem reads_specialIndexClause (w : String) (r : TableReading) (ts : List Token) :
    (specialIndexClause w r).Reads ts (r.specialIndexClause w ts.tail) :=
  .step ((reads_indexDefinition _ _ _ _).bind ((reads_skipElement _).bind (reads_pure _ _)))

/-- A column takes the token of its name, and adds its indexes and its reference to the table. -/
theorem reads_columnClause (table w : String) (r : TableReading) (ts : List Token) :
    (columnClause table w r).Reads ts (r.columnClause table w ts.tail) :=
  (reads_columnDefinition _ _ _).bind (reads_pure _ _)

/-- Which of the three kinds of element it is, is decided by a look at the second token while the
first is still there. -/
theorem reads_nameClause (table w : String) (r : TableReading) (rest : List Token) :
    (nameClause table w r).Reads (.name w :: rest) (r.nameClause table w rest) := by
  unfold TableReading.nameClause
  refine .lookBehind ?_
  by_cases hother : opensOtherConstraint w rest = true
  · rw [if_pos hother]
    exact .pos hother ((reads_skipElement_cons rfl rest).bind (reads_pure _ _))
  · rw [if_neg hother]
    refine .neg hother ?_
    by_cases hspecial : opensSpecialIndex w rest = true
    · rw [if_pos hspecial]
      exact .pos hspecial (reads_specialIndexClause w r _)
    · rw [if_neg hspecial]
      exact .neg hspecial (reads_columnClause table w r _)

/-- An element takes at least its first token, unless that closes the body or is the end; with these
two the loop around deals itself. -/
theorem reads_element (table : String) (r : TableReading) {t : Token} (rest : List Token)
    (hclose : t ≠ .closeParen) (hend : t ≠ .eof) :
    (element table r).Reads (t :: rest) (r.element table t rest) := by
  refine .look ?_
  -- Every clause takes the word that opens it, and what opens none is stepped over.
  cases t with
  | comma => exact .step (reads_pure _ _)
  | keyword k =>
      cases k with
      | constraint => exact reads_constraintClause r _
      | primary => exact reads_primaryClause r _
      | foreign => exact reads_foreignClause table r _
      | unique => exact .step (reads_indexClause _ _ _ _)
      | index => exact reads_indexClause _ _ _ _
      | key => exact reads_indexClause _ _ _ _
      | _ => exact (reads_skipElement_cons rfl rest).bind (reads_pure _ _)
  | name w => exact reads_nameClause table w r rest
  | closeParen => exact absurd rfl hclose
  | eof => exact absurd rfl hend
  | _ => exact (reads_skipElement_cons rfl rest).bind (reads_pure _ _)

/-- The loop over the elements either takes the parenthesis that closes the body, or fails at the
end of the script. Every other turn takes the token that its element starts with. -/
theorem follows_elements (table : String) (r : TableReading) (ts : List Token) :
    (elements table r).Follows ts (TableReading.elements table r ts) := by
  refine follows_loop (f := TableReading.elements table) (fun r ts => ?_) r ts
  cases ts with
  | nil => exact .fail ⟨table⟩ (.look (follows_fail _ rfl)) (by rw [TableReading.elements])
  | cons t rest =>
      -- A closing parenthesis ends the body, the end of the text is an error, and everything else
      -- is one round of the loop.
      by_cases hclose : t = .closeParen
      · subst hclose
        exact .leave r rest (.look (.step (reads_pure _ _))) (by rw [TableReading.elements]; rfl)
      · by_cases hend : t = .eof
        · subst hend
          exact .fail ⟨table⟩ (.look (follows_fail _ rfl)) (by rw [TableReading.elements]; rfl)
        · have hread := reads_element table r rest hclose hend
          refine .again (r.element table t rest).1 (r.element table t rest).2 (.look ?_)
            (consumes_of_tail hend (TableReading.element_suffix table r t rest)) ?_
          · cases t with
            | closeParen => exact absurd rfl hclose
            | eof => exact absurd rfl hend
            | _ => exact hread.bind (reads_pure _ _)
          · rw [TableReading.elements, if_neg (by simpa using hclose), if_neg (by simpa using hend)]

/-- A table is made of its body once the body is closed, and a body that is not closed fails as a
whole. -/
theorem follows_tableBody (name : String) (ts : List Token) :
    (tableBody name).Follows ts (Ddl.tableBody name ts) :=
  (follows_elements name {} ts).map fun _ => reads_pure _ _

end EntityDiagram.Ddl.Routine
