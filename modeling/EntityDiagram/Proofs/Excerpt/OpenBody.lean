import EntityDiagram.Proofs.Excerpt.Literal
import EntityDiagram.Proofs.Excerpt.Progress
import EntityDiagram.Proofs.Excerpt.Scan

/-!
# `EntityDiagram.Proofs.Excerpt.OpenBody`: a literal in the body of a table

A text is cut three times before a column is read: comments are taken out, the body of a table is
cut out, and the body is split at its commas. This module follows a text up to a literal in the body
of a table through the three cuts, and shows that the literal stays in one piece, with what it
holds.

* `modeAfter`, `stripFrom_append`: comments are taken out of what follows a text on its own.
* `Opens here body`: in the text from a place on, the body of a table is open at the end, and `body`
  is what is there of it. `Opens.exists_scanAt`: what follows decides where the body ends, and
  nothing else.
* `piecesFrom_append`, `exists_splitTopLevel`: the literal stays in the piece in which it starts.
-/

set_option autoImplicit false

namespace EntityDiagram.Excerpt

open Text (isSpace isWordChar Pattern Place Span doubleQuotes)
open Text.Pattern
open Sql (Nesting piecesFrom splitTopLevel isQuote quoteStep step_quoted)

/-! ### Comments -/

/-- What the next character belongs to behind a text. -/
def modeAfter : CommentMode → List Char → CommentMode
  | mode, [] => mode
  | .quoted mark, c :: rest => modeAfter (if c == mark then .code else .quoted mark) rest
  | .line, c :: rest => modeAfter (if c == '\n' then .code else .line) rest
  | .block star, c :: rest =>
    modeAfter (if star && c == '/' then .code else .block (c == '*')) rest
  | .code, c :: rest =>
    if isQuote c then modeAfter (.quoted c) rest
    else match c, rest with
      | '/', '*' :: more => modeAfter (.block false) more
      | '-', '-' :: more => modeAfter .line more
      | _, rest => modeAfter .code rest

/-- Comments are taken out of one text and then of the other, if none opens between them. -/
theorem stripFrom_append {mode : CommentMode} {s t : List Char}
    (h : ∀ c ∈ s.getLast?, ∀ d ∈ t.head?, opensComment c d = false) :
    stripFrom mode (s ++ t) = stripFrom mode s ++ stripFrom (modeAfter mode s) t := by
  fun_induction modeAfter mode s with
  | case1 mode => cases mode <;> rfl
  | case2 mark c rest ih =>
      rw [List.cons_append, stripFrom, stripFrom, ih fun e he => h e (List.mem_getLast?_cons he)]
      rfl
  | case3 c rest ih =>
      have hrest := ih fun e he => h e (List.mem_getLast?_cons he)
      rw [List.cons_append, stripFrom, stripFrom]
      split
      · rename_i hc
        rw [if_pos hc] at hrest
        rw [hrest]
        rfl
      · rename_i hc
        rw [if_neg hc] at hrest
        rw [hrest]
  | case4 star c rest ih =>
      have hrest := ih fun e he => h e (List.mem_getLast?_cons he)
      rw [List.cons_append, stripFrom, stripFrom]
      split
      · rename_i hc
        rwa [if_pos hc] at hrest
      · rename_i hc
        rwa [if_neg hc] at hrest
  | case5 c rest hc ih =>
      rw [List.cons_append, stripFrom_mark hc, stripFrom_mark hc,
        ih fun e he => h e (List.mem_getLast?_cons he)]
      rfl
  | case6 more _ ih =>
      exact congrArg (' ' :: ·)
        (ih fun e he => h e (List.mem_getLast?_cons (List.mem_getLast?_cons he)))
  | case7 more _ ih =>
      exact ih fun e he => h e (List.mem_getLast?_cons (List.mem_getLast?_cons he))
  | case8 c hc rest hblock hline ih =>
      -- No comment opens here, be the next character in the one text or in the other.
      have hnot : ∀ d ∈ rest.head?, opensComment c d = false := by
        intro d hd
        obtain ⟨more, rfl⟩ := List.head?_eq_some_iff.1 hd
        rw [Bool.eq_false_iff]
        intro hopens
        simp only [opensComment, Bool.or_eq_true, Bool.and_eq_true, beq_iff_eq] at hopens
        rcases hopens with ⟨rfl, rfl⟩ | ⟨rfl, rfl⟩
        · exact hline more rfl rfl
        · exact hblock more rfl rfl
      have hnotAppend : ∀ d ∈ (rest ++ t).head?, opensComment c d = false := by
        cases rest with
        | nil => exact h c rfl
        | cons d rest => exact hnot
      rw [Bool.not_eq_true] at hc
      rw [List.cons_append, stripFrom_cons hc hnotAppend, stripFrom_cons hc hnot,
        ih fun e he => h e (List.mem_getLast?_cons he)]
      rfl

/-- A literal holds no comment. -/
theorem stripFrom_quoted (c t : List Char) :
    stripFrom .code (Sql.quoted c ++ t) = Sql.quoted c ++ stripFrom .code t := by
  -- A doubled mark closes the literal and opens it again, so nothing between the marks is taken for
  -- a comment.
  have key : stripFrom (.quoted '\'') (doubleQuotes '\'' c ++ '\'' :: t) =
      doubleQuotes '\'' c ++ '\'' :: stripFrom .code t := by
    induction c with
    | nil => rfl
    | cons e c ih =>
        rw [Ddl.Token.doubleQuotes_cons]
        split
        · exact congrArg ('\'' :: '\'' :: ·) ih
        · rename_i he
          rw [List.append_assoc, List.append_assoc, List.singleton_append, stripFrom,
            if_neg (by simpa using he), ih]
          rfl
  rw [quoted_append, quoted_append]
  exact (stripFrom_mark (by decide) _).trans (congrArg _ key)

/-! ### Bodies -/

/-- The comment of a table does not depend on what stands behind the next semicolon. -/
theorem commentIn_append {s : List Char} (h : ';' ∈ s) (t : List Char) :
    commentIn (s ++ t) = commentIn s := by
  obtain ⟨u, v, rfl, hu⟩ := List.eq_append_cons_of_mem h
  have htake (w : List Char) : (u ++ ';' :: w).takeWhile (· != ';') = u := by
    rw [List.takeWhile_append_of_pos, List.takeWhile_cons_of_neg (by decide), List.append_nil]
    intro c hc
    rw [bne_iff_ne]
    rintro rfl
    exact hu hc
  rw [commentIn, commentIn, List.append_assoc, List.cons_append, htake, htake]

/-- From the place on, the text ends in the body of a table, outside of quotes and of parentheses
that the body opens, and what is there of the body is `body`. All tables in front of it end at a
semicolon. -/
inductive Opens : Place → List Char → Prop where
  /-- The next head is that of the table. -/
  | here {here : Place} {body : List Char}
      (h : (tableHead.search here).map (·.stop.rest) = some body) (hopen : StaysOpen {} body {}) :
      Opens here body
  /-- The next head is that of a table in front of it. -/
  | behind {here : Place} {rest inside tail body : List Char}
      (h : (tableHead.search here).map (·.stop.rest) = some rest)
      (hclosed : closeGroup {} rest = some (inside, tail)) (hend : ';' ∈ tail)
      (hopens : Opens ⟨some ')', tail⟩ body) : Opens here body

/-- The body is open at the end of the text. -/
theorem Opens.foldl_eq {here : Place} {body : List Char} (h : Opens here body) :
    body.foldl Nesting.step {} = {} := by
  induction h with
  | here _ hopen => exact hopen.foldl_eq
  | behind _ _ _ _ ih => exact ih

/-- A scan finds the table whose body is open where the body ends. What follows the place is free,
as long as it begins with a literal and the body is closed somewhere. -/
theorem Opens.exists_scanAt {here : Place} {body : List Char} (h : Opens here body) :
    ∃ (earlier : List RawTable) (name : String), ∀ w inside tail, w.head? = some '\'' →
      closeGroup {} w = some (inside, tail) →
        scanAt (here.extend w) = { scanAt ⟨some ')', tail⟩ with
          tables := earlier ++
            { qualifiedName := name
              body := String.ofList (body ++ inside)
              comment := commentIn tail } :: (scanAt ⟨some ')', tail⟩).tables } := by
  have hcarries {w : List Char} (hw : w.head? = some '\'') :
      Carries w (Span.extend w) tableHead tableHead := by
    refine carries_tableHead fun c hc => ?_
    obtain rfl := Option.some.inj (hw.symm.trans hc)
    decide
  induction h with
  | here h hopen =>
      obtain ⟨head, hhead, rfl⟩ := Option.map_eq_some_iff.1 h
      refine ⟨[], head.value.text, fun w inside tail hw hclosed => ?_⟩
      have hgroup :
          closeGroup {} (head.stop.rest ++ w) = some (head.stop.rest ++ inside, tail) := by
        rw [hopen.closeGroup_append, hclosed]
        rfl
      rw [scanAt_of_closed ((hcarries hw).search_extend hhead) hgroup]
      simp [Found.extend, Span.text]
  | @behind here rest inside' tail' body h hclosed' hend _ ih =>
      obtain ⟨head, hhead, rfl⟩ := Option.map_eq_some_iff.1 h
      obtain ⟨earlier, name, hearlier⟩ := ih
      refine ⟨{ qualifiedName := head.value.text
                body := String.ofList inside'
                comment := commentIn tail' } :: earlier, name, fun w inside tail hw hclosed => ?_⟩
      have hgroup : closeGroup {} (head.stop.rest ++ w) = some (inside', tail' ++ w) :=
        closeGroup_append_of_some hclosed' w
      -- The table in front is closed already, and the induction takes over behind it.
      have hrest := hearlier w inside tail hw hclosed
      rw [Place.extend] at hrest
      rw [scanAt_of_closed ((hcarries hw).search_extend hhead) hgroup, hrest, commentIn_append hend]
      simp [Found.extend, Span.text]

/-! ### Pieces -/

/-- A literal is not split. -/
theorem passes_quoted (c : List Char) : Passes {} (Sql.quoted c) {} := by
  have key : Passes ⟨0, some '\''⟩ (doubleQuotes '\'' c ++ ['\'']) {} := by
    have hquoted {e : Char} {n : Nesting} {s : List Char}
        (h : Passes ((⟨0, some '\''⟩ : Nesting).step e) s n) : Passes ⟨0, some '\''⟩ (e :: s) n :=
      .cons (fun htop => by simp [Nesting.isTop] at htop) h
    induction c with
    | nil => exact hquoted .nil
    | cons e c ih =>
        rw [Ddl.Token.doubleQuotes_cons, List.append_assoc]
        split
        · -- The first quote closes the literal, and the second one opens it again.
          exact hquoted (.cons (fun _ => by decide) ih)
        · rename_i he
          refine hquoted ?_
          rw [step_quoted, quoteStep, if_neg (by simpa using he)]
          exact ih
  exact .cons (fun _ => by decide) key

/-- There is always a piece. -/
theorem piecesFrom_ne_nil (n : Nesting) (s : List Char) : piecesFrom n s ≠ [] := by
  cases s with
  | nil => simp [piecesFrom]
  | cons c s =>
      rw [piecesFrom]
      split
      · simp
      · split <;> simp

/-- The last piece of one text goes on in the first piece of the other. All the others are the same
as before. -/
theorem piecesFrom_append {n : Nesting} {s t last piece : List Char}
    {parts more : List (List Char)} (hs : piecesFrom n s = parts ++ [last])
    (ht : piecesFrom (s.foldl Nesting.step n) t = piece :: more) :
    piecesFrom n (s ++ t) = parts ++ (last ++ piece) :: more := by
  induction s generalizing n parts last with
  | nil =>
      obtain ⟨rfl, rfl⟩ : parts = [] ∧ last = [] := by
        cases parts with
        | nil => exact ⟨rfl, (List.singleton_inj.1 hs).symm⟩
        | cons part parts => simp [piecesFrom] at hs
      exact ht
  | cons c s ih =>
      rw [List.foldl_cons] at ht
      rw [piecesFrom] at hs
      rw [List.cons_append, piecesFrom]
      split at hs
      · rename_i hcomma
        rw [if_pos hcomma]
        have hstep : n.step c = n := by
          obtain ⟨hc, htop⟩ := Bool.and_eq_true_iff.1 hcomma
          obtain ⟨d, _ | mark⟩ := n
          · rw [beq_iff_eq.1 hc]
            rfl
          · simp [Nesting.isTop] at htop
        rw [hstep] at ht
        cases parts with
        | nil => exact absurd (List.cons.inj hs).2 (piecesFrom_ne_nil n s)
        | cons part parts =>
            obtain ⟨rfl, hrest⟩ := List.cons.inj hs
            exact congrArg _ (ih hrest ht)
      · rename_i hcomma
        rw [if_neg hcomma]
        cases hpieces : piecesFrom (n.step c) s with
        | nil => exact absurd hpieces (piecesFrom_ne_nil _ s)
        | cons first pieces =>
            rw [hpieces] at hs
            -- The piece that the character starts is the last one or one in front of it.
            cases parts with
            | nil =>
                obtain ⟨rfl, rfl⟩ := List.cons.inj hs
                have hrest : piecesFrom (n.step c) (s ++ t) = [] ++ (first ++ piece) :: more :=
                  ih hpieces ht
                rw [hrest]
                rfl
            | cons part parts =>
                obtain ⟨rfl, rfl⟩ := List.cons.inj hs
                have hrest : piecesFrom (n.step c) (s ++ t) =
                    (first :: parts) ++ (last ++ piece) :: more := ih hpieces ht
                rw [hrest]
                rfl

/-- The pieces start where the text does. -/
theorem head?_of_piecesFrom {n : Nesting} {s piece : List Char} {more : List (List Char)}
    (h : piecesFrom n s = piece :: more) : ∀ c ∈ piece.head?, c ∈ s.head? := by
  intro d hd
  cases s with
  | nil =>
      obtain ⟨rfl, -⟩ := List.cons.inj h
      cases hd
  | cons c s =>
      -- A comma at the front cuts off an empty piece. Otherwise the piece begins like the text.
      rw [piecesFrom] at h
      split at h
      · obtain ⟨rfl, -⟩ := List.cons.inj h
        cases hd
      · split at h
        · obtain ⟨rfl, -⟩ := List.cons.inj h
          exact hd
        · obtain ⟨rfl, -⟩ := List.cons.inj h
          exact hd

/-- A text with a literal in it is trimmed on both sides of the literal. -/
theorem trim_append_quoted (s c t : List Char) :
    Text.trim (s ++ (Sql.quoted c ++ t)) =
      Text.trimStart s ++ (Sql.quoted c ++ Text.trimEnd t) := by
  have hquote : isSpace '\'' = false := by decide
  rw [quoted_append, quoted_append, Text.trim, Text.trimStart_append_cons hquote,
    ← List.cons_append, ← List.append_assoc, Text.trimEnd_append_cons hquote, List.append_assoc]
  rfl

/-- What trimming leaves of the end of a text starts as the text. -/
theorem head?_of_trimEnd {s : List Char} : ∀ c ∈ (Text.trimEnd s).head?, c ∈ s.head? := by
  obtain ⟨t, ht⟩ := Text.trimEnd_prefix s
  intro c hc
  rw [← ht, List.head?_append, hc]
  rfl

/-- A literal at top level stays in one part, whatever it holds. The parts before and after it do
not depend on what it holds. -/
theorem exists_splitTopLevel {body last inside : List Char}
    (hbody : (piecesFrom {} body).getLast? = some last)
    (hclosed : body.foldl Nesting.step {} = {}) (hinside : inside.head? ≠ some '\'') :
    ∃ earlier later q, q.head? ≠ some '\'' ∧ ∀ c,
      splitTopLevel (body ++ (Sql.quoted c ++ inside)) =
        earlier ++ (Text.trimStart last ++ (Sql.quoted c ++ q)) :: later := by
  obtain ⟨parts, hparts⟩ := List.getLast?_eq_some_iff.1 hbody
  cases hpieces : piecesFrom {} inside with
  | nil => exact absurd hpieces (piecesFrom_ne_nil _ inside)
  | cons piece more =>
      refine ⟨(parts.map Text.trim).filter (!·.isEmpty), (more.map Text.trim).filter (!·.isEmpty),
        Text.trimEnd piece, fun h => ?_, fun c => ?_⟩
      · exact hinside (head?_of_piecesFrom hpieces _ (head?_of_trimEnd _ h))
      · -- The body is closed where the literal begins, so the literal goes into the piece that is
        -- open there as a whole.
        have hrest : piecesFrom (body.foldl Nesting.step {}) (Sql.quoted c ++ inside) =
            (Sql.quoted c ++ piece) :: more := by
          rw [hclosed]
          exact (passes_quoted c).piecesFrom_append hpieces
        rw [splitTopLevel, piecesFrom_append hparts hrest, List.map_append, List.map_cons,
          trim_append_quoted, List.filter_append, List.filter_cons_of_pos (by simp [quoted_append])]

end EntityDiagram.Excerpt
