import EntityDiagram.Proofs.Excerpt.Layout
import EntityDiagram.Proofs.Excerpt.Literal

/-!
# `EntityDiagram.Proofs.Excerpt.TableComment`: the comments of tables that a scan finds

Behind the body of a table its comment is looked for up to the next semicolon, and the next table
from there on. Neither minds quotes. So a comment is lost at a semicolon in it, and a comment may
hold what looks like a table.

* `commentIn_options`: a comment without a semicolon is read as it was written.
* `exists_tables_literal`: what a scan finds in a literal comes in front of what it finds behind it.
* `scanTables_commented_iff`: the main statement. For tables with one column and a comment each, the
  scan gives back the tables with their comments exactly if no comment holds a semicolon and no
  head of a table in a comment is ever closed.

The obvious statement, that each table is found with its comment, fails for both reasons at once,
and only their exclusion makes it true; the theorem is therefore an equivalence, for any number of
tables. In the one direction a scan is followed from table to table. In the other one, a comment
with a semicolon is cut in two and lost, and a closed head in a comment is one more table than there
are.
-/

set_option autoImplicit false

namespace EntityDiagram.Excerpt

open Text (isSpace isWordChar Pattern Place Span doubleQuotes)
open Text.Pattern
open Sql (Nesting isQuote)

/-! ### Tables with comments -/

/-- A table with one column and a comment, and the white space behind its semicolon. -/
structure CommentedTable where
  name : DottedName
  comment : List Char
  gap : List Char
  isSpace : ∀ c ∈ gap, isSpace c = true

/-- The one column. -/
def idColumn : List Char := "id INT".toList

/-- The word in front of a comment. -/
def commentWord : List Char := "COMMENT".toList

/-- The column does nothing to the scans. -/
theorem inert_idColumn : Inert idColumn := .of_all (by decide)

/-- Nor does the word. -/
theorem inert_commentWord : Inert commentWord := .of_all (by decide)

namespace CommentedTable

/-- What stands behind the comment of a table, if the text `t` follows the table. -/
def ending (x : CommentedTable) (t : List Char) : List Char := ';' :: (x.gap ++ t)

/-- What stands behind the body of a table, if the text `t` follows the table. -/
def options (x : CommentedTable) (t : List Char) : List Char :=
  ' ' :: (commentWord ++ '=' :: (Sql.quoted x.comment ++ x.ending t))

/-- The text of a table. -/
def text (x : CommentedTable) : List Char :=
  headText x.name ++ (idColumn ++ ')' :: x.options [])

/-- The table with its comment. -/
def table (x : CommentedTable) : RawTable :=
  { qualifiedName := String.ofList x.name.chars
    body := String.ofList idColumn
    comment := some (String.ofList x.comment) }

/-- A table with a text behind it. -/
theorem text_append (x : CommentedTable) (t : List Char) :
    x.text ++ t = headText x.name ++ (idColumn ++ ')' :: x.options t) := by
  simp [text, options, ending]

/-- A table starts with the first word of its head. -/
theorem exists_text_eq (x : CommentedTable) : ∃ s, x.text = 'C' :: s := ⟨_, rfl⟩

/-- No comment opens in a table outside of quotes. -/
theorem bare_text (x : CommentedTable) : Bare x.text := by
  have hgap : Inert (x.gap ++ []) := by
    rw [List.append_nil]
    refine .of_all (List.all_eq_true.2 fun c hc => ?_)
    exact Text.forall_isSpace
      (p := fun c => (!isQuote c && decide (c ∉ ['-', '/', '(', ')'])) = true) (by decide)
      (x.isSpace c hc)
  have hending : Bare (x.ending []) := hgap.bare.cons (by decide)
  have hcomment : Bare ('=' :: (Sql.quoted x.comment ++ x.ending [])) :=
    ((inert_quoted x.comment).bare_append hending).cons (by decide)
  have hoptions : Bare (x.options []) := (inert_commentWord.bare_append hcomment).cons (by decide)
  exact (inert_idColumn.bare_append (hoptions.cons (c := ')') (by decide))).headText_append _

end CommentedTable

/-- No comment holds a semicolon, and no head of a table that stands in a comment is closed in what
follows it. -/
def Undisturbed : List CommentedTable → Prop
  | [] => True
  | x :: xs =>
    ';' ∉ x.comment ∧
      (∀ head ∈ tableHead.allMatches (Sql.quoted x.comment),
        closeGroup {} (head.stop.rest ++ x.ending (xs.flatMap CommentedTable.text)) = none) ∧
      Undisturbed xs

/-! ### Comments -/

/-- A comment without a semicolon is read as it was written. -/
theorem commentIn_options (x : CommentedTable) (h : ';' ∉ x.comment) (t : List Char) :
    commentIn (x.options t) = some (String.ofList x.comment) := by
  have hoptions : x.options t =
      (' ' :: (commentWord ++ '=' :: Sql.quoted x.comment)) ++ ';' :: (x.gap ++ t) := by
    simp [CommentedTable.options, CommentedTable.ending]
  have hword : ∀ c ∈ commentWord, c ≠ ';' := Text.forall_mem_of_all (by decide)
  have htake : (x.options t).takeWhile (· != ';') =
      ' ' :: (commentWord ++ '=' :: Sql.quoted x.comment) := by
    rw [hoptions, List.takeWhile_append_of_pos, List.takeWhile_cons_of_neg (by decide),
      List.append_nil]
    intro c hc
    rw [bne_iff_ne]
    rintro rfl
    simp only [List.mem_cons, List.mem_append, Sql.quoted, List.not_mem_nil, or_false] at hc
    -- A semicolon could only stand in the comment itself.
    rcases hc with hc | hc | hc | (hc | hc) | hc
    · exact absurd hc (by decide)
    · exact hword _ hc rfl
    · exact absurd hc (by decide)
    · exact absurd hc (by decide)
    · exact h (Text.mem_of_mem_doubleQuotes hc)
    · exact absurd hc (by decide)
  obtain ⟨inside, hliteral, hinside⟩ := first_literal x.comment (t := []) (by simp) (some '=')
  rw [List.append_nil] at hliteral
  have hfirst : First commentOption ⟨some ' ', commentWord ++ '=' :: Sql.quoted x.comment⟩
      inside ⟨some '\'', []⟩ := by
    show First commentOption ⟨some ' ', "COMMENT".toList ++ '=' :: Sql.quoted x.comment⟩ _ _
    have hspaces (d : Char) (hd : isSpace d = false) (before : Option Char) (s : List Char) :
        First spaces ⟨before, d :: s⟩ () ⟨before, d :: s⟩ :=
      First.spaces (g := []) (by simp) (by simpa using hd) before
    refine (First.boundary (by rintro c ⟨⟩; decide) ⟨'C', rfl, by decide⟩).bind ?_
    refine (First.word (w := "COMMENT") (by decide) _ _).bind ?_
    refine (hspaces '=' (by decide) _ _).bind ?_
    refine (First.optional (First.of_singleton (char_of (by decide) _ _))).bind ?_
    exact (hspaces '\'' (by decide) _ _).bind hliteral
  have hfind : commentOption.find? (' ' :: (commentWord ++ '=' :: Sql.quoted x.comment)) =
      some inside := by
    -- The space in front is part of no word, so the search steps over it.
    have hfails : Fails commentOption
        ⟨none, ' ' :: (commentWord ++ '=' :: Sql.quoted x.comment)⟩ :=
      Fails.boundary_word (w := "COMMENT") (by decide) (by decide) _ (by rintro c ⟨⟩; decide) none
    exact find?_of_searchFrom ((searchFrom_of_fails hfails).trans (searchFrom_of_first hfirst))
  rw [commentIn, htake, hfind, Option.map_some, hinside, Text.undoubleQuotes_doubleQuotes]

/-- A comment that is found holds no semicolon. -/
theorem notMem_of_commentIn {tail : List Char} {s : String} (h : commentIn tail = some s) :
    ';' ∉ s.toList := by
  -- Every part of the pattern moves forward, so that the literal lies within the text that was
  -- searched.
  have hsuffix : ∀ here, ∀ m ∈ commentOption here, m.1.start.rest <:+ here.rest := by
    intro here m hm
    obtain ⟨n₁, h₁, hm⟩ := List.mem_flatMap.1 hm
    obtain ⟨n₂, h₂, hm⟩ := List.mem_flatMap.1 hm
    obtain ⟨n₃, h₃, hm⟩ := List.mem_flatMap.1 hm
    obtain ⟨n₄, h₄, hm⟩ := List.mem_flatMap.1 hm
    obtain ⟨n₅, h₅, hm⟩ := List.mem_flatMap.1 hm
    exact (start_suffix_of_mem_literal hm).trans ((Forward.spaces _ _ h₅).trans
      ((Forward.optional (.char _) _ _ h₄).trans ((Forward.spaces _ _ h₃).trans
        ((Forward.word _ _ _ h₂).trans (Forward.boundary _ _ h₁)))))
  obtain ⟨inside, hfind, rfl⟩ := Option.map_eq_some_iff.1 h
  obtain ⟨found, hfound, rfl⟩ := Option.map_eq_some_iff.1 hfind
  obtain ⟨hstart, hmem⟩ := searchFrom_spec hfound
  rw [String.toList_ofList]
  intro hsemicolon
  have hchars := List.mem_of_mem_take (Text.mem_of_mem_undoubleQuotes hsemicolon)
  have htake := hstart.subset ((hsuffix _ _ hmem).subset hchars)
  have hne := List.mem_takeWhile_imp htake
  simp at hne

/-! ### Heads in comments -/

section Literals

variable {w : List Char}

/-- A head that starts in a literal does not reach past the quote that closes it. -/
theorem carries_tableHead_quote :
    Carries ('\'' :: w) (Span.extend ('\'' :: w)) tableHead tableHead :=
  carries_tableHead (by rintro c ⟨⟩; decide)

/-- Where no further head stands in a literal, a scan goes on behind it. -/
theorem scanAt_literal_of_none {here : Place} (h : tableHead.search here = none) :
    scanAt (here.extend ('\'' :: w)) = scanAt ⟨some '\'', w⟩ := by
  refine scanAt_congr ((carries_tableHead_quote.searchFrom_of_none h).trans ?_)
  exact keyed_tableHead.searchFrom_cons (by decide) _ _

/-- Where all heads in a literal stay open, a scan finds nothing there. It goes by induction on the
heads, each of which is stepped over. -/
theorem tables_scanAt_literal {fuel : Nat} {here : Place} (hfuel : here.rest.length < fuel)
    (h : ∀ head ∈ tableHead.matchesUpTo fuel here,
      closeGroup {} (head.stop.rest ++ '\'' :: w) = none) :
    (scanAt (here.extend ('\'' :: w))).tables = (scanAt ⟨some '\'', w⟩).tables := by
  induction fuel generalizing here with
  | zero => cases hfuel
  | succ fuel ih =>
      rw [matchesUpTo] at h
      -- Each head found in the literal opens a body that does not close, and the scan goes on right
      -- behind the head.
      cases hsearch : tableHead.search here with
      | none => rw [scanAt_literal_of_none hsearch]
      | some head =>
          rw [hsearch] at h
          have hlt := length_stop_lt hsearch
          rw [scanAt_of_open (carries_tableHead_quote.search_extend hsearch)
            (h head List.mem_cons_self)]
          exact ih (by omega) fun next hnext => h next (List.mem_cons_of_mem _ hnext)

/-- Where the group that holds the one column ends, the literal goes on. -/
theorem exists_tail_of_idColumn {s tail : List Char}
    (h : closeGroup {} (s ++ '\'' :: w) = some (idColumn, tail)) :
    ∃ rest, tail = rest ++ '\'' :: w ∧ rest.length < s.length := by
  have hquote : '\'' ∉ idColumn ++ [')'] := by decide
  have heq : s ++ '\'' :: w = (idColumn ++ [')']) ++ tail := by
    rw [eq_of_closeGroup h, List.append_assoc, List.singleton_append]
  rcases List.append_eq_append_iff.1 heq with ⟨a, ha, hw⟩ | ⟨rest, rfl, htail⟩
  · -- There is no quote in the column.
    cases a with
    | nil =>
        refine ⟨[], hw.symm, ?_⟩
        rw [← List.append_nil s, ← ha, List.length_append]
        exact Nat.succ_pos _
    | cons c a =>
        obtain ⟨rfl, -⟩ := List.cons.inj hw
        exact absurd (by simp [ha]) hquote
  · refine ⟨rest, htail, ?_⟩
    rw [List.length_append, List.length_append, List.length_singleton]
    omega

/-- What a scan finds in a literal comes in front of what it finds behind it; if that is nothing,
then no head in the literal is closed. Here every table that is found has the one column. -/
theorem exists_tables_literal (here : Place)
    (h : ∀ raw ∈ (scanAt (here.extend ('\'' :: w))).tables, raw.body = String.ofList idColumn) :
    ∃ found, (scanAt (here.extend ('\'' :: w))).tables = found ++ (scanAt ⟨some '\'', w⟩).tables ∧
      (found = [] → ∀ fuel, ∀ head ∈ tableHead.matchesUpTo fuel here,
        closeGroup {} (head.stop.rest ++ '\'' :: w) = none) := by
  -- On the length of what is left of the literal.
  induction hn : here.rest.length using Nat.strongRecOn generalizing here with
  | _ n ih =>
      cases hsearch : tableHead.search here with
      | none =>
          refine ⟨[], by rw [scanAt_literal_of_none hsearch, List.nil_append],
            fun _ fuel head hm => ?_⟩
          cases fuel with
          | zero => cases hm
          | succ fuel =>
              rw [matchesUpTo, hsearch] at hm
              cases hm
      | some head =>
          have hfound := (carries_tableHead_quote (w := w)).search_extend hsearch
          have hlt := length_stop_lt hsearch
          cases hgroup : closeGroup {} (head.stop.rest ++ '\'' :: w) with
          | none =>
              rw [scanAt_of_open hfound hgroup] at h ⊢
              obtain ⟨found, htables, hopen⟩ := ih _ (hn ▸ hlt) head.stop h rfl
              refine ⟨found, htables, fun hnil fuel next hnext => ?_⟩
              cases fuel with
              | zero => cases hnext
              | succ fuel =>
                  rw [matchesUpTo, hsearch] at hnext
                  rcases List.mem_cons.1 hnext with rfl | hnext
                  · exact hgroup
                  · exact hopen hnil fuel next hnext
          | some cut =>
              obtain ⟨body, tail⟩ := cut
              rw [scanAt_of_closed hfound hgroup] at h ⊢
              have hbody : body = idColumn := by
                have heq := congrArg String.toList (h _ List.mem_cons_self)
                rwa [String.toList_ofList, String.toList_ofList] at heq
              obtain ⟨rest, rfl, hrest⟩ := exists_tail_of_idColumn (hbody ▸ hgroup)
              obtain ⟨found, htables, -⟩ := ih _ (hn ▸ (hrest.trans hlt)) ⟨some ')', rest⟩
                (fun raw hraw => h raw (List.mem_cons_of_mem _ hraw)) rfl
              exact ⟨_ :: found, by rw [List.cons_append, ← htables]; rfl, by simp⟩

end Literals

/-! ### Scans -/

/-- A scan in front of a table finds it, and goes on in its comment. Its comment is what the reader
makes of the options, cut at the first semicolon. -/
theorem tables_scanAt_cons (x : CommentedTable) (t : List Char) {before : Option Char}
    (hbefore : ∀ c ∈ before, isWordChar c = false) :
    (scanAt ⟨before, x.text ++ t⟩).tables =
      { x.table with comment := commentIn (x.options t) } ::
        (scanAt (Place.extend ('\'' :: x.ending t)
          ⟨some '\'', doubleQuotes '\'' x.comment⟩)).tables := by
  obtain ⟨span, hfirst, hspan⟩ := first_tableHead_of x.name hbefore (idColumn ++ ')' :: x.options t)
  have hcolumn := inert_idColumn.staysOpen 0
  -- The option's word and the equals sign belong to no head, so the scan comes to the literal.
  have hgap : scanAt ⟨some ')', x.options t⟩ =
      scanAt (Place.extend ('\'' :: x.ending t) ⟨some '\'', doubleQuotes '\'' x.comment⟩) := by
    refine scanAt_congr ?_
    show searchFrom tableHead _
        (' ' :: (commentWord ++ '=' :: (Sql.quoted x.comment ++ x.ending t)))
      = searchFrom tableHead _ _
    rw [keyed_tableHead.searchFrom_cons (by decide),
      keyed_tableHead.searchFrom_run (r := commentWord)
        (Text.forall_mem_of_all (by decide)) (by rintro c ⟨⟩; decide) (by decide),
      keyed_tableHead.searchFrom_cons (by decide), quoted_append x.comment,
      keyed_tableHead.searchFrom_cons (by decide)]
    rfl
  rw [x.text_append, scanAt_of_closed (search_of_first hfirst) (hcolumn.closeGroup_close _),
    hgap, Span.text, hspan]
  rfl

/-- Behind a comment a scan goes on in front of the next table. -/
theorem exists_scanAt_ending (x : CommentedTable) (t : List Char) :
    ∃ before, (∀ c ∈ before, isWordChar c = false) ∧
      scanAt ⟨some '\'', x.ending t⟩ = scanAt ⟨before, t⟩ := by
  refine ⟨after (some ';') x.gap, fun c hc => ?_, scanAt_congr ?_⟩
  · cases hlast : x.gap.getLast? with
    | none =>
        rw [after, hlast] at hc
        obtain rfl := Option.some.inj hc
        decide
    | some d =>
        rw [after, hlast] at hc
        obtain rfl := Option.some.inj hc
        exact Text.isWordChar_of_isSpace (x.isSpace d (List.mem_of_getLast? hlast))
  · show searchFrom tableHead _ (';' :: (x.gap ++ t)) = searchFrom tableHead _ t
    rw [keyed_tableHead.searchFrom_cons (by decide), keyed_tableHead.searchFrom_spaces x.isSpace]

/-- The heads in a quoted comment. They are those of the text between the marks, seen with the
closing mark behind them. -/
theorem forall_allMatches_quoted (c : List Char) {p : List Char → Prop} :
    (∀ head ∈ tableHead.allMatches (Sql.quoted c), p head.stop.rest) ↔
      ∀ head ∈ tableHead.matchesUpTo ((Sql.quoted c).length + 1) ⟨some '\'', doubleQuotes '\'' c⟩,
        p (head.stop.rest ++ ['\'']) := by
  have hnone (before : Option Char) : searchFrom tableHead before ['\''] = none :=
    (keyed_tableHead.searchFrom_cons (by decide) _ _).trans (keyed_tableHead.searchFrom_nil _)
  have hmark (s : List Char) : tableHead ⟨none, '\'' :: s⟩ = [] :=
    keyed_tableHead.fails_of_head (by rintro c ⟨⟩; decide) none
  have hquoted := quoted_append c []
  rw [List.append_nil] at hquoted
  -- The mark behind the literal is carried along. It neither opens a head nor ends one.
  have hmatches : tableHead.allMatches (Sql.quoted c) = (tableHead.matchesUpTo
      ((Sql.quoted c).length + 1) ⟨some '\'', doubleQuotes '\'' c⟩).map
        (·.extend ['\''] (Span.extend ['\''])) := by
    rw [← carries_tableHead_quote.matchesUpTo_of_none hnone, allMatches, Place.start]
    generalize (Sql.quoted c).length + 1 = fuel
    rw [hquoted, matchesUpTo_cons (hmark _)]
    rfl
  rw [hmatches, List.forall_mem_map]
  rfl

/-- If a scan finds no other tables than such with the one column, it finds all of these. So if it
finds anything else, the list is too long. -/
theorem length_le_tables (xs : List CommentedTable) {before : Option Char}
    (hbefore : ∀ c ∈ before, isWordChar c = false)
    (h : ∀ raw ∈ (scanAt ⟨before, xs.flatMap CommentedTable.text⟩).tables,
      raw.body = String.ofList idColumn) :
    xs.length ≤ (scanAt ⟨before, xs.flatMap CommentedTable.text⟩).tables.length := by
  induction xs generalizing before with
  | nil => exact Nat.zero_le _
  | cons x xs ih =>
      obtain ⟨before', hbefore', hending⟩ :=
        exists_scanAt_ending x (xs.flatMap CommentedTable.text)
      rw [List.flatMap_cons, tables_scanAt_cons x _ hbefore] at h ⊢
      -- What the literal itself might add comes in between, and can only make the list longer.
      obtain ⟨found, htables, -⟩ := exists_tables_literal _ fun raw hraw =>
        h raw (List.mem_cons_of_mem _ hraw)
      rw [htables, hending] at h ⊢
      have hle := ih hbefore' fun raw hraw => h raw (by simp [hraw])
      simp only [List.length_cons, List.length_append]
      omega

/-- From a place in front of commented tables on. It goes by induction on the tables, with what a
scan finds within each comment counted in. -/
theorem tables_scanAt_iff (xs : List CommentedTable) {before : Option Char}
    (hbefore : ∀ c ∈ before, isWordChar c = false) :
    (scanAt ⟨before, xs.flatMap CommentedTable.text⟩).tables = xs.map CommentedTable.table ↔
      Undisturbed xs := by
  induction xs generalizing before with
  | nil =>
      rw [show scanAt ⟨before, [].flatMap CommentedTable.text⟩ = {} from
        scanAt_of_none (keyed_tableHead.searchFrom_nil before)]
      exact ⟨fun _ => trivial, fun _ => rfl⟩
  | cons x xs ih =>
      obtain ⟨before', hbefore', hending⟩ :=
        exists_scanAt_ending x (xs.flatMap CommentedTable.text)
      rw [List.flatMap_cons, tables_scanAt_cons x _ hbefore, Undisturbed,
        forall_allMatches_quoted x.comment (p := fun s =>
          closeGroup {} (s ++ x.ending (xs.flatMap CommentedTable.text)) = none)]
      simp only [List.append_assoc, List.singleton_append]
      constructor
      · intro h
        obtain ⟨hhead, htail⟩ := List.cons.inj h
        have hcomment := congrArg RawTable.comment hhead
        dsimp only [CommentedTable.table] at hcomment
        have hbody : ∀ raw ∈ xs.map CommentedTable.table, raw.body = String.ofList idColumn := by
          simp [CommentedTable.table]
        obtain ⟨found, hfound, hopen⟩ := exists_tables_literal _ (htail ▸ hbody)
        rw [htail, hending] at hfound
        -- All tables behind the comment are found there, which leaves none in the comment.
        have hle := length_le_tables xs hbefore' fun raw hraw => hbody raw (by simp [hfound, hraw])
        have hlength := congrArg List.length hfound
        rw [List.length_map, List.length_append] at hlength
        obtain rfl : found = [] := List.length_eq_zero_iff.1 (by omega)
        have hsemicolon := notMem_of_commentIn hcomment
        rw [String.toList_ofList] at hsemicolon
        exact ⟨hsemicolon, hopen rfl _, (ih hbefore').1 (by rw [hfound, List.nil_append])⟩
      · rintro ⟨hsemicolon, hopen, hrest⟩
        have hlength :
            (doubleQuotes '\'' x.comment).length < (Sql.quoted x.comment).length + 1 := by
          simp only [Sql.quoted, List.length_append, List.length_cons]
          omega
        rw [tables_scanAt_literal hlength hopen, hending, (ih hbefore').2 hrest,
          commentIn_options x hsemicolon]
        rfl

/-- Tables with comments are found with these comments exactly if no comment holds a semicolon and
no head of a table that stands in a comment is ever closed. -/
theorem scanTables_commented_iff (xs : List CommentedTable) :
    scanTables (String.ofList (xs.flatMap CommentedTable.text)) = xs.map CommentedTable.table ↔
      Undisturbed xs := by
  have hbare := Bare.flatMap (by decide) CommentedTable.exists_text_eq CommentedTable.bare_text xs
  rw [scanTables, scan_eq_scanAt, String.toList_ofList, hbare.stripComments_eq]
  exact tables_scanAt_iff xs (by simp)

/-- A table whose comment holds a semicolon. -/
def exampleSemicolon : CommentedTable where
  name := ⟨⟨⟨"t", by decide, by decide⟩, false⟩, []⟩
  comment := "a;b".toList
  gap := []
  isSpace := Text.forall_isSpace_nil

/-- Its comment is lost. The statement is well-formed, and the semicolon is part of a quoted
text. -/
theorem scanTables_exampleSemicolon :
    String.ofList exampleSemicolon.text = "CREATE TABLE t (id INT) COMMENT='a;b';" ∧
      scanTables (String.ofList ([exampleSemicolon].flatMap CommentedTable.text)) ≠
        [exampleSemicolon].map CommentedTable.table := by
  decide +kernel

end EntityDiagram.Excerpt
