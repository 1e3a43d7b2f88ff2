import EntityDiagram.Ddl.Cursor
import EntityDiagram.Schema.Basic

/-!
# `EntityDiagram.Ddl.ForeignKey`: references and foreign keys

What follows `REFERENCES` and `FOREIGN KEY`, with the actions on deletion and update.

A key is read in the order in which it is written, and where a part of it is missing there is no
key: what has been read of it is gone, and the reader around it goes on with what is left. The table
that is referred to is named by its last part. The actions are kept as words, in upper case and with
an underscore, whether or not SQL knows them; the cardinality of a key is never read but inferred
afterwards.
-/

set_option autoImplicit false

namespace EntityDiagram.Ddl

/-- The events that a foreign key reacts to. -/
inductive KeyEvent where
  | delete
  | update
deriving DecidableEq, Repr

/-- Sets the action of a foreign key on an event. -/
def setAction (key : ForeignKey) (event : KeyEvent) (action : String) : ForeignKey :=
  match event with
  | .delete => { key with onDelete := some action }
  | .update => { key with onUpdate := some action }

/-- The event that comes after `ON`, if one does. -/
def event? (ts : List Token) : Option KeyEvent :=
  if (current ts).isWord "DELETE" then some .delete
  else if (current ts).isWord "UPDATE" then some .update
  else none

/-- The text of the first token in upper case. -/
def upperSource (ts : List Token) : String := Text.upperText (current ts).source

/-- An action: one word, or two after `SET` and `NO`. -/
def action (ts : List Token) : Reading String :=
  if (current ts).isWord "SET" then ("SET_" ++ upperSource ts.tail, ts.tail.tail)
  else if (current ts).isWord "NO" then ("NO_ACTION", ts.tail.tail)
  -- Any other token is taken as an action of one word.
  else (upperSource ts, ts.tail)

/-- The event and action after `ON`; nothing where it is followed by no event. -/
def eventAction (ts : List Token) : Reading (Option (KeyEvent × String)) :=
  match event? ts with
  | some event =>
    let read := action ts.tail
    (some (event, read.1), read.2)
  | none => (none, ts)

/-- The table and columns after `REFERENCES`, if a name comes first. -/
def reference? (ts : List Token) : Option (Reading (String × List String)) :=
  (qualifiedName? ts).map fun name =>
    let columns := columnNames name.2
    ((lastPart name.1, columns.1), columns.2)

/-- An action is one token or two. -/
theorem action_suffix (ts : List Token) : (action ts).2 <:+ ts := by
  have h := List.tail_suffix ts
  have h' := (List.tail_suffix ts.tail).trans h
  unfold action
  split
  · exact h'
  · split
    · exact h'
    · exact h

/-- An event takes one token, and its action those behind it. -/
theorem eventAction_suffix (ts : List Token) : (eventAction ts).2 <:+ ts := by
  unfold eventAction
  split
  · exact (action_suffix _).trans (List.tail_suffix _)
  · exact List.suffix_refl _

/-- A qualified name takes its first part at least. -/
theorem qualifiedName?_suffix {ts : List Token} {name : Reading (List String)}
    (h : qualifiedName? ts = some name) : name.2 <:+ ts := by
  unfold qualifiedName? at h
  split at h
  · cases h
    exact (dottedParts_suffix _).trans (List.suffix_cons _ _)
  · cases h

/-- A reference takes the name of a table and what is listed behind it. -/
theorem reference?_suffix {ts : List Token} {found : Reading (String × List String)}
    (h : reference? ts = some found) : found.2 <:+ ts := by
  unfold reference? at h
  obtain ⟨name, hname, rfl⟩ := Option.map_eq_some_iff.1 h
  exact (columnNames_suffix _).trans (qualifiedName?_suffix hname)

/-- The actions after a foreign key, up to the first `ON` that no event follows. -/
def withActions (key : ForeignKey) (ts : List Token) : Reading ForeignKey :=
  match ts with
  | .keyword .on :: rest =>
    let read := eventAction rest
    match read.1 with
    | some (event, action) => withActions (setAction key event action) read.2
    | none => (key, read.2)
  | _ => (key, ts)
termination_by ts.length
decreasing_by exact Nat.lt_succ_of_le (eventAction_suffix rest).length_le

/-- Each action takes `ON` at least, which is why there are only so many of them. -/
theorem withActions_suffix (key : ForeignKey) (ts : List Token) :
    (withActions key ts).2 <:+ ts := by
  fun_induction withActions key ts with
  | case1 key rest read event action hread ih =>
    exact ih.trans ((eventAction_suffix rest).trans (List.suffix_cons _ _))
  | case2 key rest => exact (eventAction_suffix rest).trans (List.suffix_cons _ _)
  | case3 => exact List.suffix_refl _

/-- A foreign key of `table` after the word `FOREIGN`; none where the reference is missing. -/
def foreignKey (table : String) (name : Option String) (ts : List Token) :
    Reading (Option ForeignKey) :=
  -- An index may be named between `KEY` and the columns.
  let columns := columnNames (dropName (dropKeyword .key ts))
  match columns.2 with
  | .keyword .references :: rest =>
    match reference? rest with
    | some ((toTable, toColumns), left) =>
      let key : ForeignKey :=
        { name, fromTable := table, fromColumns := columns.1, toTable, toColumns }
      let read := withActions key left
      (some read.1, read.2)
    | none => (none, rest)
  | left => (none, left)

/-- A foreign key is taken part by part, whichever of them is the last one found. -/
theorem foreignKey_suffix (table : String) (name : Option String) (ts : List Token) :
    (foreignKey table name ts).2 <:+ ts := by
  have h : (columnNames (dropName (dropKeyword .key ts))).2 <:+ ts :=
    (columnNames_suffix _).trans ((dropName_suffix _).trans (dropKeyword_suffix _ _))
  unfold foreignKey
  dsimp only
  split
  · rename_i rest hrest
    rw [hrest] at h
    have h := (List.suffix_cons _ _).trans h
    split
    · rename_i hleft
      exact (withActions_suffix _ _).trans ((reference?_suffix hleft).trans h)
    · exact h
  · exact h

end EntityDiagram.Ddl
