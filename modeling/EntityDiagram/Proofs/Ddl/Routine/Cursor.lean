import EntityDiagram.Proofs.Ddl.Routine

/-!
# `EntityDiagram.Proofs.Ddl.Routine.Cursor`: stepping through tokens, token by token

The readers of `EntityDiagram.Ddl.Cursor` as routines: single tokens and words, groups in
parentheses, qualified names and column lists. Where a reader goes into a group and out again on its
own way through the tokens, its routine has a loop of its own for the group (`skipGroup`); that both
are the same is `skipOutside_afterGroup` and `listedNames_afterGroup`.

The lemmas `reads_` say what each routine reads, in terms of the reader of the same name. Those
without a loop are proved by looking at the first token; those with a loop are instances of
`Routine.reads_loop`, for which one turn has to be compared with one step of the recursion. Where
the reader goes on, the turn has to take a token that is not the end of the script: this is why the
predicates that stop a loop have to hold there, as `reads_skipOutside` and `reads_skipUntil` ask.
-/

set_option autoImplicit false

namespace EntityDiagram.Ddl

/-! ### The first token -/

/-- A token is dropped where it is the current one. In an empty script that is the end, which has no
token behind it. -/
theorem dropToken_eq (t : Token) (ts : List Token) :
    dropToken t ts = if current ts == t then ts.tail else ts := by
  cases ts with
  | nil => rw [List.tail_nil, ite_self]; rfl
  | cons u rest => rfl

/-- A word is dropped where the current token has its spelling. -/
theorem dropWord_eq (w : String) (ts : List Token) :
    dropWord w ts = if (current ts).isWord w then ts.tail else ts := by
  cases ts <;> rfl

/-- Behind `USING` one more token is dropped, whatever it is. -/
theorem skipUsing_eq (ts : List Token) :
    skipUsing ts = if (current ts).isWord "USING" then ts.tail.tail else ts := by
  cases ts <;> rfl

/-- A token that does not come first is not the current one. -/
theorem current_beq_eq_false {t : Token} {ts : List Token} (ht : (Token.eof == t) = false)
    (h : ∀ rest, ts = t :: rest → False) : (current ts == t) = false := by
  cases ts with
  | nil => exact ht
  | cons u rest => exact beq_eq_false_iff_ne.2 fun hu => h rest (hu ▸ rfl)

/-! ### Groups on the way of a reader -/

/-- Inside a group nothing stops, so what is stepped over goes on behind the group. -/
theorem skipOutside_afterGroup (stops : Token → Bool) (depth : Nat) (ts : List Token) :
    skipOutside stops depth ts = skipOutside stops 0 (afterGroup depth ts) := by
  induction ts generalizing depth with
  | nil => cases depth <;> rfl
  | cons t ts ih =>
      cases depth with
      | zero => rfl
      | succ depth =>
          cases t with
          | eof =>
            rw [skipOutside, afterGroup, skipOutside]
            split <;> rfl
          | openParen => exact ih (depth + 2)
          | closeParen => exact ih depth
          | _ => exact ih (depth + 1)

/-- What stops nowhere on the first token goes into the group that it opens, or steps over it. It
brings the depth of the group and the single token under one equation. -/
theorem skipOutside_cons {stops : Token → Bool} {t : Token} (hend : stops .eof = true)
    (ht : stops t = false) (rest : List Token) :
    skipOutside stops 0 (t :: rest) =
      skipOutside stops (if t == .openParen then 1 else 0) rest := by
  cases t with
  | eof => rw [hend] at ht; cases ht
  | _ => exact (if_neg (Bool.eq_false_iff.1 ht)).trans rfl

/-- Inside a group no name is listed. -/
theorem listedNames_afterGroup (expecting : Bool) (depth : Nat) (ts : List Token) :
    listedNames expecting depth ts = listedNames expecting 0 (afterGroup depth ts) := by
  induction ts generalizing depth with
  | nil => cases depth <;> rfl
  | cons t ts ih =>
      cases depth with
      | zero => rfl
      | succ depth =>
          cases t with
          | eof => rfl
          | openParen => exact ih (depth + 2)
          | closeParen => exact ih depth
          | _ => exact ih (depth + 1)

namespace Routine

/-! ### Single tokens -/

/-- Steps over the token if it comes first, and says whether it did. -/
def eat (t : Token) : Routine Bool := do
  if (← current) == t then
    advance
    return true
  else
    return false

/-- Steps over the name `w` if it comes first, and says whether it did. -/
def eatWord (w : String) : Routine Bool := do
  if (← current).isWord w then
    advance
    return true
  else
    return false

/-- Takes the name that comes first, if one does. -/
def takeName : Routine (Option String) := do
  match ← current with
  | .name s =>
    advance
    return some s
  | _ => return none

/-- Takes the literal that comes first, if one does. -/
def takeText : Routine (Option String) := do
  match ← current with
  | .text s =>
    advance
    return some s
  | _ => return none

/-- Steps over `IF NOT EXISTS`. -/
def skipIfNotExists : Routine Unit := do
  if ← eat (.keyword .ifWord) then
    let _ ← eat (.keyword .not)
    let _ ← eat (.keyword .exists)

/-- Steps over `IF EXISTS`. -/
def skipIfExists : Routine Unit := do
  if ← eat (.keyword .ifWord) then
    let _ ← eat (.keyword .exists)

/-- Steps over `USING` and the method after it. -/
def skipUsing : Routine Unit := do
  if ← eatWord "USING" then
    advance

/-- A token is taken if it is the current one, and the answer says whether it was. -/
theorem reads_eat (t : Token) (ts : List Token) :
    (eat t).Reads ts (Ddl.current ts == t, dropToken t ts) := by
  rw [dropToken_eq]
  refine .look ?_
  cases Ddl.current ts == t with
  | true => exact .step (reads_pure _ _)
  | false => exact reads_pure _ _

/-- A word is taken if the current token has its spelling, and the answer says whether it had. -/
theorem reads_eatWord (w : String) (ts : List Token) :
    (eatWord w).Reads ts ((Ddl.current ts).isWord w, dropWord w ts) := by
  rw [dropWord_eq]
  refine .look ?_
  cases (Ddl.current ts).isWord w with
  | true => exact .step (reads_pure _ _)
  | false => exact reads_pure _ _

/-- A name is taken with one step, and nothing else is stepped over. -/
theorem reads_takeName (ts : List Token) : takeName.Reads ts (Ddl.takeName ts) := by
  refine .look ?_
  cases ts with
  | nil => exact reads_pure _ _
  | cons t rest =>
      cases t with
      | name s => exact .step (reads_pure _ _)
      | _ => exact reads_pure _ _

/-- A literal is taken with one step, and nothing else is stepped over. -/
theorem reads_takeText (ts : List Token) : takeText.Reads ts (Ddl.takeText ts) := by
  refine .look ?_
  cases ts with
  | nil => exact reads_pure _ _
  | cons t rest =>
      cases t with
      | text s => exact .step (reads_pure _ _)
      | _ => exact reads_pure _ _

/-- The method behind `USING` is taken with a step of its own. -/
theorem reads_skipUsing (ts : List Token) : skipUsing.Reads ts ((), Ddl.skipUsing ts) := by
  rw [skipUsing_eq]
  refine (reads_eatWord "USING" ts).bind ?_
  rw [dropWord_eq]
  cases (Ddl.current ts).isWord "USING" with
  | true => exact reads_advance _
  | false => exact reads_pure _ _

/-- A keyword is taken if it comes first. -/
theorem reads_eat_keyword (k : Keyword) (ts : List Token) :
    (eat (.keyword k)).Reads ts (Ddl.current ts == .keyword k, dropKeyword k ts) :=
  reads_eat _ ts

/-- A token that comes first is taken. -/
theorem reads_eat_cons (t : Token) (rest : List Token) :
    (eat t).Reads (t :: rest) (true, rest) := by
  have h := reads_eat t (t :: rest)
  rwa [dropToken, if_pos BEq.rfl, Ddl.current, List.headD_cons, BEq.rfl] at h

/-- A word that comes first is taken. -/
theorem reads_eatWord_cons {w : String} {t : Token} (ht : t.isWord w = true) (rest : List Token) :
    (eatWord w).Reads (t :: rest) (true, rest) := by
  have h := reads_eatWord w (t :: rest)
  rwa [dropWord, if_pos ht, Ddl.current, List.headD_cons, ht] at h

/-- A word that does not come first is not taken. -/
theorem reads_eatWord_of_ne {w : String} {t : Token} (ht : t.isWord w = false)
    (rest : List Token) : (eatWord w).Reads (t :: rest) (false, t :: rest) := by
  have h := reads_eatWord w (t :: rest)
  rwa [dropWord, if_neg (Bool.eq_false_iff.1 ht), Ddl.current, List.headD_cons, ht] at h

/-- A token that does not come first is not taken. -/
theorem reads_eat_of_ne {t : Token} {ts : List Token} (ht : (Token.eof == t) = false)
    (h : ∀ rest, ts = t :: rest → False) : (eat t).Reads ts (false, ts) := by
  have hne := current_beq_eq_false ht h
  have hread := reads_eat t ts
  rwa [dropToken_eq, hne] at hread

/-- The three words are taken one by one, each only if it comes next. -/
theorem reads_skipIfNotExists (ts : List Token) :
    skipIfNotExists.Reads ts ((), Ddl.skipIfNotExists ts) := by
  unfold Ddl.skipIfNotExists
  split
  · exact (reads_eat_cons _ _).bind ((reads_eat _ _).bind ((reads_eat _ _).bind (reads_pure _ _)))
  · rename_i h
    exact (reads_eat_of_ne rfl h).bind (reads_pure _ _)

/-- The two words are taken one by one, the second only behind the first. -/
theorem reads_skipIfExists (ts : List Token) :
    skipIfExists.Reads ts ((), Ddl.skipIfExists ts) := by
  unfold Ddl.skipIfExists
  split
  · exact (reads_eat_cons _ _).bind ((reads_eat _ _).bind (reads_pure _ _))
  · rename_i h
    exact (reads_eat_of_ne rfl h).bind (reads_pure _ _)

/-! ### What is stepped over -/

/-- Steps to the end of a group that is `depth` parentheses deep. -/
def afterGroup (depth : Nat) : Routine Unit :=
  loop (fun depth => do
    match depth with
    | 0 => return .leave ()
    | depth + 1 =>
      match ← current with
      | .eof => return .leave ()
      | .openParen =>
        advance
        return .again (depth + 2)
      | .closeParen =>
        advance
        return .again depth
      | _ =>
        advance
        return .again (depth + 1)) depth

/-- Steps over a group in parentheses, or over one token that opens none. -/
def skipGroup : Routine Unit := do
  if ← eat .openParen then
    afterGroup 1
  else
    advance

/-- Repeats what `skip` steps over until the current token satisfies `p`. -/
def skipWhileNot (p : Token → Bool) (skip : Routine Unit) : Routine Unit :=
  loop (fun _ => do
    if p (← current) then
      return .leave ()
    else
      skip
      return .again ()) ()

/-- Steps over tokens and groups, up to a token that stops. -/
def skipOutside (stops : Token → Bool) : Routine Unit := skipWhileNot stops skipGroup

/-- Steps over tokens, up to one that satisfies `p`. -/
def skipUntil (p : Token → Bool) : Routine Unit := skipWhileNot p advance

/-- Steps over the current statement and its semicolon. -/
def skipStatement : Routine Unit := do
  skipUntil endsStatement
  let _ ← eat .semicolon

/-- The loop counts the parentheses that are still open. Each of its turns takes a token, except the
last one, which finds none of them open or the end of the script. -/
theorem reads_afterGroup (depth : Nat) (ts : List Token) :
    (afterGroup depth).Reads ts ((), Ddl.afterGroup depth ts) := by
  refine reads_loop (fun depth ts => ((), Ddl.afterGroup depth ts)) (fun depth ts => ?_) depth ts
  cases depth with
  -- Out of the group, the loop is left before it looks at a token.
  | zero => exact .leave () ts (reads_pure _ _) (by rw [Ddl.afterGroup])
  | succ depth =>
      cases ts with
      | nil => exact .leave () [] (.look (reads_pure _ _)) rfl
      | cons t rest =>
          cases t with
          | eof => exact .leave () _ (.look (reads_pure _ _)) rfl
          | openParen =>
              exact .again (depth + 2) rest (.look (.step (reads_pure _ _))) (consumes_cons rfl) rfl
          | closeParen =>
              exact .again depth rest (.look (.step (reads_pure _ _))) (consumes_cons rfl) rfl
          | _ =>
              exact .again (depth + 1) rest (.look (.step (reads_pure _ _))) (consumes_cons rfl) rfl

/-- Either way the first token is taken: if it opens a group, the loop of the group goes on behind
it. -/
theorem reads_skipGroup (ts : List Token) : skipGroup.Reads ts ((), Ddl.skipGroup ts) := by
  cases ts with
  | nil => exact (reads_eat _ _).bind (reads_advance [])
  | cons t rest =>
      cases t with
      | openParen => exact (reads_eat _ _).bind (reads_afterGroup 1 rest)
      | _ => exact (reads_eat _ _).bind (reads_advance (_ :: rest))

/-- A reader that steps over tokens, bit by bit, until one comes that satisfies `p`. The function
`f` is what is to be computed. It only has to do nothing where the reader stops and to agree with
one more step elsewhere. -/
theorem reads_skipWhileNot {p : Token → Bool} {skip : Routine Unit} {d f : List Token → List Token}
    (hend : p .eof = true) (hskip : ∀ ts, skip.Reads ts ((), d ts)) (hd : ∀ ts, d ts <:+ ts.tail)
    (hstop : ∀ ts, p (Ddl.current ts) = true → f ts = ts)
    (hgo : ∀ ts, p (Ddl.current ts) = false → f ts = f (d ts)) (ts : List Token) :
    (skipWhileNot p skip).Reads ts ((), f ts) := by
  refine reads_loop (fun _ ts => ((), f ts)) (fun _ ts => ?_) () ts
  cases hp : p (Ddl.current ts) with
  | true => exact .leave () ts (.look (.pos hp (reads_pure _ _))) (by rw [hstop ts hp])
  | false =>
      -- The end of the script stops, so what is stepped over here is another token.
      have hne : Ddl.current ts ≠ .eof := fun h => by rw [h, hend] at hp; cases hp
      exact .again () (d ts) (.look (.neg (by rw [hp]; decide) ((hskip ts).bind (reads_pure _ _))))
        (consumes_of_tail hne (hd ts)) (by rw [hgo ts hp])

/-- What is stepped over goes token by token and, where a parenthesis opens, group by group, so that
one turn may take many tokens. The condition on `stops` keeps the loop from turning at the end of
the script, where nothing is taken. -/
theorem reads_skipOutside {stops : Token → Bool} (hend : stops .eof = true) (ts : List Token) :
    (skipOutside stops).Reads ts ((), Ddl.skipOutside stops 0 ts) := by
  -- One turn takes a token or a whole group.
  refine reads_skipWhileNot hend reads_skipGroup (fun ts => ?_) (fun ts hstop => ?_)
    (fun ts hgo => ?_) ts
  · cases ts with
    | nil => exact List.suffix_refl _
    | cons t rest =>
        rw [Ddl.skipGroup]
        split
        · exact afterGroup_suffix 1 rest
        · exact List.suffix_refl _
  · cases ts with
    | nil => rfl
    | cons t rest =>
        have ht : stops t = true := hstop
        exact if_pos ht
  · cases ts with
    | nil => rfl
    | cons t rest =>
        have ht : stops t = false := hgo
        rw [skipOutside_cons hend ht]
        cases t with
        | openParen => exact skipOutside_afterGroup stops 1 rest
        | _ => rfl

/-- What is stepped over goes token by token. Again `p` has to hold at the end of the script, where
no turn could take a token. -/
theorem reads_skipUntil {p : Token → Bool} (hend : p .eof = true) (ts : List Token) :
    (skipUntil p).Reads ts ((), Ddl.skipUntil p ts) := by
  refine reads_skipWhileNot hend reads_advance (fun ts => List.suffix_refl _) (fun ts hstop => ?_)
    (fun ts hgo => ?_) ts
  · cases ts with
    | nil => rfl
    | cons t rest =>
        have ht : p t = true := hstop
        exact List.dropWhile_cons_of_neg (by simp [ht])
  · cases ts with
    | nil => rfl
    | cons t rest =>
        have ht : p t = false := hgo
        exact List.dropWhile_cons_of_pos (by simp [ht])

/-- A statement is stepped over up to its semicolon, which is taken with one step more. -/
theorem reads_skipStatement (ts : List Token) :
    skipStatement.Reads ts ((), Ddl.skipStatement ts) :=
  (reads_skipUntil (by decide) ts).bind ((reads_eat _ _).bind (reads_pure _ _))

/-! ### Names and column lists -/

/-- The further parts of a qualified name, after `parts`. -/
def dottedParts (parts : List String) : Routine (List String) :=
  loop (fun parts => do
    if ← eat .dot then
      match ← takeName with
      | some s => return .again (parts ++ [s])
      -- The dot alone has been taken.
      | none => return .again parts
    else
      return .leave parts) parts

/-- A name, possibly qualified, as its parts, if one comes first. -/
def qualifiedName : Routine (Option (List String)) := do
  match ← takeName with
  | some first => return some (← dottedParts [first])
  | none => return none

/-- The names of a column list after its opening parenthesis, after `names`. -/
def listedNames (names : List String) (expecting : Bool) : Routine (List String) :=
  loop (fun (names, expecting) => do
    match ← current with
    | .closeParen =>
      advance
      return .leave names
    | .eof => return .leave names
    | .comma =>
      advance
      return .again (names, true)
    | .openParen =>
      skipGroup
      return .again (names, expecting)
    | .name s =>
      advance
      return .again (if expecting then names ++ [s] else names, false)
    | _ =>
      advance
      return .again (names, expecting)) (names, expecting)

/-- The names in a column list in parentheses; none where no parenthesis opens. -/
def columnNames : Routine (List String) := do
  if ← eat .openParen then
    listedNames [] true
  else
    return []

/-- A turn takes a dot and the name behind it, or a dot alone. The parts that have been read are the
state of the loop, so that they come before those that follow. -/
theorem reads_dottedParts (parts : List String) (ts : List Token) :
    (dottedParts parts).Reads ts (parts ++ (Ddl.dottedParts ts).1, (Ddl.dottedParts ts).2) := by
  -- The loop carries the parts that were read, and yields these with all that follow.
  refine reads_loop (fun parts ts => (parts ++ (Ddl.dottedParts ts).1, (Ddl.dottedParts ts).2))
    (fun parts ts => ?_) parts ts
  cases ts with
  | nil => exact .leave parts [] ((reads_eat _ _).bind (reads_pure _ _)) (by simp [Ddl.dottedParts])
  | cons t rest =>
      cases t with
      | dot =>
          cases rest with
          | nil =>
              exact .again parts []
                ((reads_eat _ _).bind ((reads_takeName []).bind (reads_pure _ _)))
                (consumes_cons rfl) rfl
          | cons u rest =>
              cases u with
              | name s =>
                  exact .again (parts ++ [s]) rest
                    ((reads_eat _ _).bind
                      ((reads_takeName (.name s :: rest)).bind (reads_pure _ _)))
                    (consumes_of_suffix rfl (List.suffix_cons _ _)) (by simp [Ddl.dottedParts])
              | _ =>
                  exact .again parts (_ :: rest)
                    ((reads_eat _ _).bind ((reads_takeName (_ :: rest)).bind (reads_pure _ _)))
                    (consumes_cons rfl) rfl
      | _ =>
          exact .leave parts (_ :: rest) ((reads_eat _ _).bind (reads_pure _ _))
            (by simp [Ddl.dottedParts])

/-- The parts behind the first one are read one after the other. -/
theorem reads_qualifiedName_some {ts rest : List Token} {parts : List String}
    (h : qualifiedName? ts = some (parts, rest)) : qualifiedName.Reads ts (some parts, rest) := by
  cases ts with
  | nil => cases h
  | cons t more =>
      cases t with
      | name first =>
          obtain ⟨rfl, rfl⟩ := Prod.mk.inj (Option.some.inj h)
          exact (reads_takeName _).bind ((reads_dottedParts [first] more).bind (reads_pure _ _))
      | _ => cases h

/-- Where no name comes first, none is taken. -/
theorem reads_qualifiedName_none {ts : List Token} (h : qualifiedName? ts = none) :
    qualifiedName.Reads ts (none, ts) := by
  refine (reads_takeName ts).bind ?_
  cases ts with
  | nil => exact reads_pure _ _
  | cons t rest =>
      cases t with
      | name s => cases h
      | _ => exact reads_pure _ _

/-- The state of the loop is the names so far and whether another one is expected. A group inside
the list is one turn, as no name in it counts. -/
theorem reads_listedNames (names : List String) (expecting : Bool) (ts : List Token) :
    (listedNames names expecting).Reads ts
      (names ++ (Ddl.listedNames expecting 0 ts).1, (Ddl.listedNames expecting 0 ts).2) := by
  refine reads_loop (fun state ts =>
    (state.1 ++ (Ddl.listedNames state.2 0 ts).1, (Ddl.listedNames state.2 0 ts).2))
    (fun state ts => ?_) (names, expecting) ts
  obtain ⟨names, expecting⟩ := state
  cases ts with
  | nil => exact .leave names [] (.look (reads_pure _ _)) (by simp [Ddl.listedNames])
  | cons t rest =>
      cases t with
      | closeParen =>
          exact .leave names rest (.look (.step (reads_pure _ _))) (by simp [Ddl.listedNames])
      | eof => exact .leave names _ (.look (reads_pure _ _)) (by simp [Ddl.listedNames])
      | comma =>
          exact .again (names, true) rest (.look (.step (reads_pure _ _))) (consumes_cons rfl) rfl
      | openParen =>
          -- A group inside of the list takes one turn.
          refine .again (names, expecting) (Ddl.afterGroup 1 rest)
            (.look ((reads_skipGroup (.openParen :: rest)).bind (reads_pure _ _)))
            (consumes_of_suffix rfl (afterGroup_suffix 1 rest)) ?_
          dsimp only
          rw [← listedNames_afterGroup]
          rfl
      | name s =>
          refine .again (if expecting then names ++ [s] else names, false) rest
            (.look (.step (reads_pure _ _))) (consumes_cons rfl) ?_
          cases expecting <;> simp [Ddl.listedNames]
      | _ =>
          exact .again (names, expecting) rest (.look (.step (reads_pure _ _)))
            (consumes_cons rfl) rfl

/-- A list of columns is read behind its parenthesis, and without one there are no columns and no
step. -/
theorem reads_columnNames (ts : List Token) : columnNames.Reads ts (Ddl.columnNames ts) := by
  cases ts with
  | nil => exact (reads_eat _ _).bind (reads_pure _ _)
  | cons t rest =>
      cases t with
      | openParen => exact (reads_eat _ _).bind (reads_listedNames [] true rest)
      | _ => exact (reads_eat _ _).bind (reads_pure _ (_ :: rest))

end Routine

end EntityDiagram.Ddl
