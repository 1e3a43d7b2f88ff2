import EntityDiagram.Ddl.Token

/-!
# `EntityDiagram.Ddl.Cursor`: stepping through tokens

A reader of a script is a function on the tokens that are left. The ones here take a token or word
if it comes first, step over groups in parentheses, and read what recurs everywhere: qualified
names and column lists. Each comes with a lemma that it leaves a suffix of its tokens, which is
why the readers built on them end.
-/

set_option autoImplicit false

namespace EntityDiagram.Ddl

/-- What a reader yields: a value and the tokens that are left. -/
abbrev Reading (α : Type) := α × List Token

/-- The first token. Beyond the last token there is nothing but the end. -/
def current (ts : List Token) : Token := ts.headD .eof

/-- The tokens after `t`, where it comes first. -/
def dropToken (t : Token) : List Token → List Token
  | [] => []
  | u :: ts => if u == t then ts else u :: ts

/-- The tokens after the keyword `k`, where it comes first. -/
def dropKeyword (k : Keyword) (ts : List Token) : List Token := dropToken (.keyword k) ts

/-- The tokens after the name `w`, where it comes first. -/
def dropWord (w : String) : List Token → List Token
  | [] => []
  | u :: ts => if u.isWord w then ts else u :: ts

/-- The tokens after a name, where one comes first. -/
def dropName : List Token → List Token
  | .name _ :: ts => ts
  | ts => ts

/-- The name that comes first, if one does, and the tokens after it. -/
def takeName : List Token → Reading (Option String)
  | .name s :: ts => (some s, ts)
  | ts => (none, ts)

/-- The literal that comes first, if one does, and the tokens after it. -/
def takeText : List Token → Reading (Option String)
  | .text s :: ts => (some s, ts)
  | ts => (none, ts)

/-- Steps over `IF NOT EXISTS`. -/
def skipIfNotExists : List Token → List Token
  | .keyword .ifWord :: ts => dropKeyword .exists (dropKeyword .not ts)
  | ts => ts

/-- Steps over `IF EXISTS`. -/
def skipIfExists : List Token → List Token
  | .keyword .ifWord :: ts => dropKeyword .exists ts
  | ts => ts

/-- Steps over `USING` and the method after it. -/
def skipUsing : List Token → List Token
  | [] => []
  | u :: ts => if u.isWord "USING" then ts.tail else u :: ts

/-- The tokens from the first one on that satisfies `p`. -/
def skipUntil (p : Token → Bool) (ts : List Token) : List Token := ts.dropWhile fun t => !p t

/-- Whether the token ends a statement. -/
def endsStatement (t : Token) : Bool := t == .semicolon || t == .eof

/-- The tokens after the current statement and its semicolon. -/
def skipStatement (ts : List Token) : List Token :=
  dropToken .semicolon (skipUntil endsStatement ts)

/-! ### Groups in parentheses -/

/-- The tokens after the end of a group that is `depth` parentheses deep. -/
def afterGroup : (depth : Nat) → List Token → List Token
  | 0, ts => ts
  | _ + 1, [] => []
  | depth + 1, t :: ts =>
    match t with
    | .openParen => afterGroup (depth + 2) ts
    | .closeParen => afterGroup depth ts
    | .eof => t :: ts
    | _ => afterGroup (depth + 1) ts

/-- Steps over a group in parentheses, or over one token that opens none. -/
def skipGroup : List Token → List Token
  | [] => []
  | t :: ts => if t == .openParen then afterGroup 1 ts else ts

/-- The tokens of a group whose opening parenthesis has been read, and what follows the closing
one. `depth` more parentheses are open. -/
def groupFrom : (depth : Nat) → List Token → Reading (List Token)
  | _, [] => ([], [])
  | depth, t :: ts =>
    match t, depth with
    -- The end marker stays, so that every later reader meets it too.
    | .eof, _ => ([], t :: ts)
    | .closeParen, 0 => ([], ts)
    | .closeParen, depth + 1 =>
      let read := groupFrom depth ts
      (t :: read.1, read.2)
    | .openParen, depth =>
      let read := groupFrom (depth + 1) ts
      (t :: read.1, read.2)
    | _, depth =>
      let read := groupFrom depth ts
      (t :: read.1, read.2)

/-- The tokens from the first one on that satisfies `stops` and stands in no parentheses, except
for the end of the script, where it always stops. `depth` parentheses are open. -/
def skipOutside (stops : Token → Bool) : (depth : Nat) → List Token → List Token
  | _, [] => []
  | 0, t :: ts =>
    if stops t then t :: ts
    else match t with
      | .eof => t :: ts
      | .openParen => skipOutside stops 1 ts
      | _ => skipOutside stops 0 ts
  -- Inside parentheses nothing stops but the end.
  | depth + 1, t :: ts =>
    match t with
    | .eof => t :: ts
    | .openParen => skipOutside stops (depth + 2) ts
    | .closeParen => skipOutside stops depth ts
    | _ => skipOutside stops (depth + 1) ts

/-! ### Names and column lists -/

/-- The further parts of a qualified name. -/
def dottedParts : List Token → Reading (List String)
  | .dot :: .name s :: ts =>
    let read := dottedParts ts
    (s :: read.1, read.2)
  -- A dot that no name follows is stepped over, and the parts go on.
  | .dot :: ts => dottedParts ts
  | ts => ([], ts)

/-- A name, possibly qualified, as its parts. -/
def qualifiedName? : List Token → Option (Reading (List String))
  | .name s :: ts =>
    let read := dottedParts ts
    some (s :: read.1, read.2)
  | _ => none

/-- The last part of a qualified name. -/
def lastPart (parts : List String) : String := parts.getLast?.getD ""

/-- The names of a column list after its opening parenthesis: after the start and after each
comma the first name, prefix lengths and orderings aside. `depth` inner parentheses are open. -/
def listedNames : (expecting : Bool) → (depth : Nat) → List Token → Reading (List String)
  | _, _, [] => ([], [])
  | expecting, depth, t :: ts =>
    match t, depth with
    | .eof, _ => ([], t :: ts)
    | .closeParen, 0 => ([], ts)
    | .closeParen, depth + 1 => listedNames expecting depth ts
    | .openParen, depth => listedNames expecting (depth + 1) ts
    | .comma, 0 => listedNames true 0 ts
    | .name s, 0 =>
      if expecting then
        let read := listedNames false 0 ts
        (s :: read.1, read.2)
      else listedNames expecting 0 ts
    | _, depth => listedNames expecting depth ts

/-- The names in a column list in parentheses; none where no parenthesis opens. -/
def columnNames : List Token → Reading (List String)
  | .openParen :: ts => listedNames true 0 ts
  | ts => ([], ts)

/-! ### Nothing is read twice -/

/-- At most one token is taken. -/
theorem dropToken_suffix (t : Token) (ts : List Token) : dropToken t ts <:+ ts := by
  unfold dropToken; grind

/-- A keyword is one token. -/
theorem dropKeyword_suffix (k : Keyword) (ts : List Token) : dropKeyword k ts <:+ ts :=
  dropToken_suffix _ ts

/-- A word is one token. -/
theorem dropWord_suffix (w : String) (ts : List Token) : dropWord w ts <:+ ts := by
  unfold dropWord; grind

/-- A name is one token, whatever it is. -/
theorem dropName_suffix (ts : List Token) : dropName ts <:+ ts := by
  unfold dropName; grind

/-- A name that is taken is no longer among the tokens that are left. -/
theorem takeName_suffix (ts : List Token) : (takeName ts).2 <:+ ts := by
  unfold takeName; grind

/-- So it is with a literal. -/
theorem takeText_suffix (ts : List Token) : (takeText ts).2 <:+ ts := by
  unfold takeText; grind

/-- Three tokens are taken at most. -/
theorem skipIfNotExists_suffix (ts : List Token) : skipIfNotExists ts <:+ ts := by
  unfold skipIfNotExists
  split
  · exact ((dropKeyword_suffix _ _).trans (dropKeyword_suffix _ _)).trans (List.suffix_cons _ _)
  · exact List.suffix_refl _

/-- Two tokens are taken at most. -/
theorem skipIfExists_suffix (ts : List Token) : skipIfExists ts <:+ ts := by
  unfold skipIfExists
  split
  · exact (dropKeyword_suffix _ _).trans (List.suffix_cons _ _)
  · exact List.suffix_refl _

/-- `USING` is taken with one more token, if there is one. -/
theorem skipUsing_suffix (ts : List Token) : skipUsing ts <:+ ts := by
  unfold skipUsing
  split
  · exact List.suffix_refl _
  · split
    · exact (List.tail_suffix _).trans (List.suffix_cons _ _)
    · exact List.suffix_refl _

/-- What is stepped over stands in front. -/
theorem skipUntil_suffix (p : Token → Bool) (ts : List Token) : skipUntil p ts <:+ ts :=
  List.dropWhile_suffix _

/-- A statement is stepped over from the front, and its semicolon with it. -/
theorem skipStatement_suffix (ts : List Token) : skipStatement ts <:+ ts :=
  (dropToken_suffix _ _).trans (skipUntil_suffix _ _)

/-- A group is left at its end or at the end of the script, by induction on the tokens. -/
theorem afterGroup_suffix (depth : Nat) (ts : List Token) : afterGroup depth ts <:+ ts := by
  fun_induction afterGroup depth ts <;> grind

/-- A group, or one token, is taken from the front. -/
theorem skipGroup_suffix (ts : List Token) : skipGroup ts <:+ ts := by
  unfold skipGroup
  have := afterGroup_suffix 1 ts.tail
  grind

/-- The tokens of a group are taken from the front, as far as it goes. -/
theorem groupFrom_suffix (depth : Nat) (ts : List Token) : (groupFrom depth ts).2 <:+ ts := by
  fun_induction groupFrom depth ts <;> grind

/-- What is stepped over stands in front, in parentheses or not. -/
theorem skipOutside_suffix (stops : Token → Bool) (depth : Nat) (ts : List Token) :
    skipOutside stops depth ts <:+ ts := by
  fun_induction skipOutside stops depth ts <;> grind

/-- Each further part of a name takes a dot, and mostly a name. -/
theorem dottedParts_suffix (ts : List Token) : (dottedParts ts).2 <:+ ts := by
  fun_induction dottedParts ts with
  | case1 s ts read ih => exact ih.trans ((List.suffix_cons _ _).trans (List.suffix_cons _ _))
  | case2 ts _ ih => exact ih.trans (List.suffix_cons _ _)
  | case3 => exact List.suffix_refl _

/-- A list is taken from the front up to the parenthesis that closes it. -/
theorem listedNames_suffix (expecting : Bool) (depth : Nat) (ts : List Token) :
    (listedNames expecting depth ts).2 <:+ ts := by
  fun_induction listedNames expecting depth ts <;> grind

/-- A column list is taken with its parentheses, or not at all. -/
theorem columnNames_suffix (ts : List Token) : (columnNames ts).2 <:+ ts := by
  unfold columnNames
  split
  · exact (listedNames_suffix _ _ _).trans (List.suffix_cons _ _)
  · exact List.suffix_refl _

end EntityDiagram.Ddl
