import EntityDiagram.Proofs.Excerpt.Literal
import EntityDiagram.Proofs.Text.Locality

/-!
# `EntityDiagram.Proofs.Excerpt.ValueOption`: options of a column that have a value

The default value and the comment of a column are read alike: a word, white space, and a value
behind it (`ValueOption.clause`). Both are searched for in the options as they are written, literals
included. This module follows these searches through a text with a literal in it.

* `ValueOption.mark`: the word of an option and the first character of a value. Where no mark is, no
  clause is (`fails_clause`), and a search steps over a text without one up to the next literal
  (`searchFrom_clause_of_none`).
* `exists_first_clause`: where the first mark is, there the clause is, if the value can be read.
* `ValueOption.Awaits o s`: in front of a literal that the options `s` lead up to, the first value
  of `o` is that literal, and the options give no other reason to look into it.
* `Awaits.find?_clause_own`: the literal is the value of the option, whatever it holds.
* `Awaits.exists_find?_clause_other`: the other option has the same value whatever the literal
  holds, unless the literal has a mark of it.
-/

set_option autoImplicit false

namespace EntityDiagram

/-- An option of a column that has a value. -/
inductive ValueOption where
  | default
  | comment
deriving DecidableEq, Repr

namespace ValueOption

open Text (isSpace isWordChar Pattern Place Span)
open Text.Pattern
open Excerpt

/-! ### Clauses -/

/-- The word of the option. -/
def keyword : ValueOption → String
  | .default => "DEFAULT"
  | .comment => "COMMENT"

/-- The option that this one is not. -/
def other : ValueOption → ValueOption
  | .default => .comment
  | .comment => .default

/-- Whether a value of the option may start with the character. -/
def starts : ValueOption → Char → Bool
  | .default, c => !isSpace c && c != ','
  | .comment, c => c == '\''

/-- The word of the option, with white space behind it. -/
def lead (o : ValueOption) : Pattern Unit := do boundary; word o.keyword; spaces1

/-- The start of a value. -/
def mark (o : ValueOption) : Pattern Unit := do o.lead; char o.starts

/-- A value of the option. -/
def value : ValueOption → Pattern Span
  | .default => span (oneOf [
      (do let _ ← literal),
      (do char (· == '('); many (· != ')'); char (· == ')')),
      (do
        some1 fun c => !isSpace c && c != ','
        let _ ← optional (exactly ['(', ')']))])
  | .comment => literal

/-- The option with its value. -/
def clause (o : ValueOption) : Pattern Span := do o.lead; o.value

/-- The value that is written by the characters. -/
def read : ValueOption → List Char → String
  | .default, s => String.ofList (Sql.unquoted s)
  | .comment, s => String.ofList (Text.undoubleQuotes '\'' s)

/-- The column with this value of the option. -/
def set (o : ValueOption) (v : String) (c : Column) : Column :=
  match o with
  | .default => { c with defaultValue := some v }
  | .comment => { c with comment := some v }

/-- A default value is searched for by its clause. -/
theorem clause_default : clause .default = defaultClause := by
  rw [clause, lead, bind_bind]
  refine congrArg _ (funext fun _ => ?_)
  rw [bind_bind]
  rfl

/-- So is a comment. -/
theorem clause_comment : clause .comment = commentClause := by
  rw [clause, lead, bind_bind]
  refine congrArg _ (funext fun _ => ?_)
  rw [bind_bind]
  rfl

/-- The words are plain. -/
theorem keyword_plain (o : ValueOption) : o.keyword.toList.all Text.startsPlain = true := by
  cases o <;> decide

/-- The words are none of them empty. -/
theorem keyword_ne_nil (o : ValueOption) : o.keyword.toList ≠ [] := by
  cases o <;> decide

variable {o : ValueOption} {before : Option Char}

/-! ### Values -/

/-- No value starts with another character. -/
theorem fails_value {here : Place} (h : ∀ c ∈ here.rest.head?, o.starts c = false) :
    Fails o.value here := by
  obtain ⟨before, s⟩ := here
  -- A character that starts no value starts none of its kinds.
  have hnot {p : Char → Bool} (hp : ∀ c, p c = true → o.starts c = true) :
      ∀ c ∈ s.head?, p c = false := by
    intro c hc
    rw [Bool.eq_false_iff]
    intro hpc
    have hstarts := hp c hpc
    rw [h c hc] at hstarts
    cases hstarts
  have hliteral (hp : o.starts '\'' = true) : Fails literal ⟨before, s⟩ :=
    Fails.bind_left (Fails.char (hnot fun c hc => by rwa [beq_iff_eq.1 hc]))
  cases o with
  | comment => exact hliteral rfl
  | default =>
      refine Fails.span (Fails.oneOf fun p hp => ?_)
      simp only [List.mem_cons, List.not_mem_nil, or_false] at hp
      rcases hp with rfl | rfl | rfl
      · exact (hliteral (by decide)).bind_left
      · exact Fails.bind_left (Fails.char (hnot fun c hc => by rw [beq_iff_eq.1 hc]; decide))
      · exact Fails.bind_left (Fails.some1 (hnot fun c hc => hc))

/-- A literal is a default value. -/
theorem first_default_literal {here there : Place} {inside : Span}
    (h : First literal here inside there) : First (value .default) here ⟨here, there⟩ there :=
  ((h.bind (First.pure () there)).oneOf_head _).span

/-- A group in parentheses is a default value. -/
theorem first_default_group {inner : List Char} (hinner : ')' ∉ inner) (t : List Char) :
    First (value .default) ⟨before, '(' :: (inner ++ ')' :: t)⟩
      ⟨⟨before, '(' :: (inner ++ ')' :: t)⟩, ⟨some ')', t⟩⟩ ⟨some ')', t⟩ := by
  have hrun : ∀ c ∈ inner, (c != ')') = true := by
    intro c hc
    rw [bne_iff_ne]
    rintro rfl
    exact hinner hc
  have hgroup : First (do char (· == '('); many (· != ')'); char (· == ')'))
      ⟨before, '(' :: (inner ++ ')' :: t)⟩ () ⟨some ')', t⟩ := by
    refine (First.of_singleton (char_of (by decide) _ _)).bind ?_
    refine (First.many hrun (by simp) _).bind ?_
    exact First.of_singleton (char_of (by decide) _ _)
  refine (First.oneOf_tail ?_ (hgroup.oneOf_head _)).span
  exact Fails.bind_left (Fails.bind_left (Fails.char (by simp)))

/-- A run up to white space or a comma is a default value, unless a literal or a group starts it. It
is the last of the three ways in which a default value may be written. -/
theorem first_default_run {run t : List Char}
    (hhead : ∃ c ∈ run.head?, c ≠ '\'' ∧ c ≠ '(')
    (hrun : ∀ c ∈ run, starts .default c = true) (ht : ∃ c ∈ t.head?, starts .default c = false) :
    First (value .default) ⟨before, run ++ t⟩ ⟨⟨before, run ++ t⟩, ⟨after before run, t⟩⟩
      ⟨after before run, t⟩ := by
  obtain ⟨c, hc, hquote, hparen⟩ := hhead
  obtain ⟨run, rfl⟩ := List.head?_eq_some_iff.1 hc
  obtain ⟨e, he, hstop⟩ := ht
  have hstops : ∀ d ∈ t.head?, starts .default d = false := by
    intro d hd
    obtain rfl := Option.mem_unique hd he
    exact hstop
  -- The run is not followed by a pair of parentheses, since it would have gone on over the first of
  -- them.
  have hpair : Fails (exactly ['(', ')']) ⟨after before (c :: run), t⟩ := by
    refine Fails.bind_left (Fails.char fun d hd => ?_)
    rw [beq_eq_false_iff_ne]
    rintro rfl
    exact absurd (hstops _ hd) (by decide)
  refine (First.oneOf_tail ?_ (First.oneOf_tail ?_ (First.oneOf_head (a := ()) ?_ _))).span
  · exact Fails.bind_left (Fails.bind_left (Fails.char (by simpa using hquote)))
  · exact Fails.bind_left (Fails.char (by simpa using hparen))
  · exact (First.some1 (by simp) hrun hstops _).bind ((First.optional_none hpair).bind
      (First.pure _ _))

/-- A literal is a value, and it is read as it was written. What follows must not double the closing
mark. -/
theorem exists_first_value_quoted (o : ValueOption) (c : List Char) {t : List Char}
    (ht : t.head? ≠ some '\'') (before : Option Char) :
    ∃ v, First o.value ⟨before, Sql.quoted c ++ t⟩ v ⟨some '\'', t⟩ ∧
      o.read v.chars = String.ofList c := by
  obtain ⟨inside, hinside, hchars⟩ := first_literal c ht before
  cases o with
  | comment =>
      refine ⟨inside, hinside, ?_⟩
      rw [hchars, read, Text.undoubleQuotes_doubleQuotes]
  | default =>
      refine ⟨_, first_default_literal hinside, ?_⟩
      rw [chars_append, read, Sql.unquoted_quoted]

variable {d : Nat} {r : List Char}

/-- A literal that is closed in the text is the same value whatever follows the text. -/
theorem exists_first_value_literal (o : ValueOption)
    (hclosed : (r.foldl Sql.Nesting.step ⟨d, some '\''⟩).quote = none)
    (hlast : ∃ l ∈ ('\'' :: r).getLast?, isSpace l = true) :
    ∃ chars, ∀ before t, ∃ v stop,
      First o.value ⟨before, '\'' :: r ++ t⟩ v stop ∧ v.chars = chars := by
  obtain ⟨l, hl, hspace⟩ := hlast
  obtain ⟨c, u, heq, hu⟩ := exists_quoted_of_closed hclosed
  -- The literal is not the end of the text, so no quote that follows can go on with it.
  have hne : u ≠ [] := by
    rintro rfl
    rw [heq, List.append_nil, Sql.quoted, List.getLast?_concat] at hl
    obtain rfl := Option.some.inj hl
    exact absurd hspace (by decide)
  have hliteral (before : Option Char) (t : List Char) :
      ∃ inside, First literal ⟨before, Sql.quoted c ++ (u ++ t)⟩ inside ⟨some '\'', u ++ t⟩ ∧
        inside.chars = Text.doubleQuotes '\'' c :=
    first_literal c (by rwa [List.head?_append_of_ne_nil _ hne]) before
  cases o with
  | comment =>
      refine ⟨Text.doubleQuotes '\'' c, fun before t => ?_⟩
      obtain ⟨inside, hinside, hchars⟩ := hliteral before t
      rw [heq, List.append_assoc]
      exact ⟨inside, _, hinside, hchars⟩
  | default =>
      refine ⟨Sql.quoted c, fun before t => ?_⟩
      obtain ⟨inside, hinside, -⟩ := hliteral before t
      rw [heq, List.append_assoc]
      exact ⟨_, _, first_default_literal hinside, chars_append _ _ _ _⟩

/-- So is a group that is closed in the text. -/
theorem exists_first_default_group (hclosed : r.foldl Sql.Nesting.step ⟨d + 1, none⟩ = {}) :
    ∃ chars, ∀ before t, ∃ v stop,
      First (value .default) ⟨before, '(' :: r ++ t⟩ v stop ∧ v.chars = chars := by
  -- Without a closing parenthesis the depth would not come back to zero.
  have hmem : ')' ∈ r := by
    by_contra hnot
    have hle := depth_le_foldl_step hnot ⟨d + 1, none⟩
    rw [hclosed] at hle
    exact absurd hle (Nat.not_succ_le_zero d)
  obtain ⟨inner, u, rfl, hinner⟩ := List.eq_append_cons_of_mem hmem
  refine ⟨'(' :: (inner ++ [')']), fun before t => ?_⟩
  have happend : '(' :: (inner ++ ')' :: u) ++ t = '(' :: (inner ++ ')' :: (u ++ t)) := by
    simp
  have hsplit : '(' :: (inner ++ ')' :: (u ++ t)) = '(' :: (inner ++ [')']) ++ (u ++ t) := by
    simp
  rw [happend]
  refine ⟨_, _, first_default_group hinner (u ++ t), ?_⟩
  rw [hsplit]
  exact chars_append _ _ _ _

/-- So is a run if the text ends with white space, where the run ends if not before. The place where
it ends does not depend on what follows. -/
theorem exists_first_default_run {c : Char} (hstart : starts .default c = true)
    (hquote : c ≠ '\'') (hparen : c ≠ '(') (hlast : ∃ l ∈ (c :: r).getLast?, isSpace l = true) :
    ∃ chars, ∀ before t, ∃ v stop,
      First (value .default) ⟨before, c :: r ++ t⟩ v stop ∧ v.chars = chars := by
  obtain ⟨l, hl, hspace⟩ := hlast
  have hsplit : (c :: r).takeWhile (starts .default) ++ (c :: r).dropWhile (starts .default) =
      c :: r := List.takeWhile_append_dropWhile
  -- The run ends in the text, at the white space at its end if not before.
  have hstop : ∃ e ∈ ((c :: r).dropWhile (starts .default)).head?, starts .default e = false := by
    cases hrest : (c :: r).dropWhile (starts .default) with
    | nil =>
        have hall := List.dropWhile_eq_nil_iff.1 hrest l (List.mem_of_getLast? hl)
        simp [starts, hspace] at hall
    | cons e u =>
        have hnot := List.head?_dropWhile_not (starts .default) (c :: r)
        rw [hrest] at hnot
        exact ⟨e, rfl, hnot⟩
  have hrun : ∀ e ∈ (c :: r).takeWhile (starts .default), starts .default e = true :=
    List.all_eq_true.1 (List.all_takeWhile ..)
  have hhead : ∃ e ∈ ((c :: r).takeWhile (starts .default)).head?, e ≠ '\'' ∧ e ≠ '(' :=
    ⟨c, by rw [List.takeWhile_cons_of_pos hstart]; rfl, hquote, hparen⟩
  generalize (c :: r).takeWhile (starts .default) = run at *
  generalize (c :: r).dropWhile (starts .default) = u at *
  refine ⟨run, fun before t => ?_⟩
  rw [← hsplit, List.append_assoc]
  refine ⟨_, _, first_default_run hhead hrun ?_, chars_append _ _ _ _⟩
  obtain ⟨e, he, hnot⟩ := hstop
  exact ⟨e, by rw [Option.mem_def, List.head?_append, Option.mem_def.1 he]; rfl, hnot⟩

/-- A value that stands outside of quotes is the same whatever follows the text, if the text closes
what it opens and ends with white space. -/
theorem exists_first_value {s : List Char} (hstart : ∃ c ∈ s.head?, o.starts c = true)
    (hclosed : s.foldl Sql.Nesting.step ⟨d, none⟩ = {})
    (hlast : ∃ l ∈ s.getLast?, isSpace l = true) :
    ∃ chars, ∀ before t, ∃ v stop, First o.value ⟨before, s ++ t⟩ v stop ∧ v.chars = chars := by
  obtain ⟨c, hc, hstart⟩ := hstart
  obtain ⟨r, rfl⟩ := List.head?_eq_some_iff.1 hc
  -- The first character tells whether it is a literal, a group or a run.
  by_cases hquote : c = '\''
  · subst hquote
    exact o.exists_first_value_literal (d := d) (congrArg Sql.Nesting.quote hclosed) hlast
  cases o with
  | comment => exact absurd (beq_iff_eq.1 hstart) hquote
  | default =>
      by_cases hparen : c = '('
      · subst hparen
        exact exists_first_default_group hclosed
      · exact exists_first_default_run hstart hquote hparen hlast

/-! ### Marks -/

/-- The word of an option is not looked for behind a quote. -/
theorem carries_lead (o : ValueOption) (t : List Char) : Carries ('\'' :: t) id o.lead o.lead := by
  have hword : ∀ c ∈ ('\'' :: t).head?, isWordChar c = false := by
    intro c hc
    obtain rfl := Option.some.inj hc
    decide
  have hspace : ∀ c ∈ ('\'' :: t).head?, isSpace c = false := by
    intro c hc
    obtain rfl := Option.some.inj hc
    decide
  exact (Carries.boundary hword).bind fun _ => (Carries.word o.keyword_plain hword).bind fun _ =>
    Carries.spaces1 hspace

/-- No option starts where no word does. -/
theorem fails_lead {s : List Char} (hs : ∀ c ∈ s.head?, isWordChar c = false) :
    Fails o.lead ⟨before, s⟩ := Fails.boundary_word o.keyword_plain o.keyword_ne_nil _ hs before

/-- In front of a value are the word of its option and white space. -/
theorem exists_of_mem_lead {s : List Char} {m : Unit × Place} (hm : m ∈ o.lead ⟨before, s⟩) :
    ∃ u g, s = u ++ (g ++ m.2.rest) ∧ (∀ c ∈ u, isWordChar c = true) ∧ g ≠ [] ∧
      ∀ c ∈ g, isSpace c = true := by
  obtain ⟨u, v, rfl, hu, -, -, hm⟩ := mem_boundary_word o.keyword_plain o.keyword_ne_nil hm
  obtain ⟨g, v, rfl, hne, hg, rfl⟩ := mem_some1 hm
  exact ⟨u, g, rfl, hu.isWordChar o.keyword_plain, hne, hg⟩

/-- At a quote, what follows it does not matter. -/
theorem head?_append_quote (s t : List Char) :
    (s ++ '\'' :: t).head? = (s ++ ['\'']).head? := by
  cases s <;> rfl

/-- Where there is no mark, there is no clause. -/
theorem fails_clause {s : List Char} (h : Fails o.mark ⟨before, s ++ ['\'']⟩) (t : List Char) :
    Fails o.clause ⟨before, s ++ '\'' :: t⟩ := by
  show Fails (o.lead >>= fun _ => o.value) _
  refine Fails.bind fun m hm => ?_
  rw [show o.lead ⟨before, s ++ '\'' :: t⟩ = _ from o.carries_lead t ⟨before, s⟩] at hm
  obtain ⟨n, hn, rfl⟩ := List.mem_map.1 hm
  have hmem : (n.1, n.2.extend ['\'']) ∈ o.lead ⟨before, s ++ ['\'']⟩ := by
    rw [show o.lead ⟨before, s ++ ['\'']⟩ = _ from o.carries_lead [] ⟨before, s⟩]
    exact List.mem_map_of_mem hn
  show Fails o.value (n.2.extend ('\'' :: t))
  refine fails_value fun c hc => ?_
  have hchar : Fails (char o.starts) (n.2.extend ['\'']) := List.flatMap_eq_nil_iff.1 h _ hmem
  exact head?_of_fails_char hchar c ((head?_append_quote n.2.rest t).symm ▸ hc)

/-- Where the mark of an option is, there is its clause, if a value is read behind its word. The
mark is only the first character of a value, and stands for the whole of it. -/
theorem exists_first_clause {s : List Char} {there : Place}
    (h : First o.mark ⟨before, s ++ ['\'']⟩ () there) :
    ∃ n : Place, ((), n) ∈ o.lead ⟨before, s⟩ ∧
      (∃ c, o.starts c = true ∧ n.rest ++ ['\''] = c :: there.rest) ∧
      ∀ t v stop, First o.value (n.extend ('\'' :: t)) v stop →
        First o.clause ⟨before, s ++ '\'' :: t⟩ v stop := by
  obtain ⟨ms, m, more, hlead, hchar, hms⟩ := First.bind_iff.1 h
  rw [show o.lead ⟨before, s ++ ['\'']⟩ = _ from o.carries_lead [] ⟨before, s⟩,
    List.map_eq_append_iff] at hlead
  obtain ⟨ns, rest, hlead, rfl, hrest⟩ := hlead
  obtain ⟨n, more, rfl, rfl, rfl⟩ := List.map_eq_cons_iff.1 hrest
  refine ⟨n.2, by simp [hlead], ?_, fun t v stop hvalue => ?_⟩
  · obtain ⟨c, hc, hstop⟩ := exists_of_first_char hchar
    exact ⟨c, hc, hstop⟩
  · show First (o.lead >>= fun _ => o.value) _ v stop
    refine First.bind_iff.2 ⟨ns.map fun m => (m.1, m.2.extend ('\'' :: t)),
      (n.1, n.2.extend ('\'' :: t)), more.map fun m => (m.1, m.2.extend ('\'' :: t)), ?_, hvalue,
      fun k hk => ?_⟩
    · rw [show o.lead ⟨before, s ++ '\'' :: t⟩ = _ from o.carries_lead t ⟨before, s⟩, hlead,
        List.map_append, List.map_cons]
    · -- Behind the earlier matches of the word, no value starts.
      obtain ⟨n, hn, rfl⟩ := List.mem_map.1 hk
      show Fails o.value (n.2.extend ('\'' :: t))
      refine fails_value fun c hc => ?_
      have hchar : Fails (char o.starts) (n.2.extend ['\'']) := hms _ (List.mem_map_of_mem hn)
      exact head?_of_fails_char hchar c ((head?_append_quote n.2.rest t).symm ▸ hc)

/-! ### Searches -/

/-- No clause starts at a quote. -/
theorem searchFrom_clause_quote (o : ValueOption) (before : Option Char) (t : List Char) :
    searchFrom o.clause before ('\'' :: t) = searchFrom o.clause (some '\'') t :=
  searchFrom_of_fails (Fails.bind_left (fails_lead (by
    intro c hc
    obtain rfl := Option.some.inj hc
    decide)))

/-- Nor a mark. -/
theorem searchFrom_mark_quote (o : ValueOption) (before : Option Char) (t : List Char) :
    searchFrom o.mark before ('\'' :: t) = searchFrom o.mark (some '\'') t :=
  searchFrom_of_fails (Fails.bind_left (fails_lead (by
    intro c hc
    obtain rfl := Option.some.inj hc
    decide)))

/-- A search for the clause steps over a text without a mark, up to the next quote. -/
theorem searchFrom_clause_of_none {s : List Char}
    (h : searchFrom o.mark before (s ++ ['\'']) = none) (t : List Char) :
    searchFrom o.clause before (s ++ '\'' :: t) = searchFrom o.clause (some '\'') t := by
  induction s generalizing before with
  | nil => exact o.searchFrom_clause_quote before t
  | cons c s ih =>
      rw [List.cons_append, searchFrom] at h
      split at h
      · cases h
      · rename_i hnone
        rw [← List.cons_append, List.head?_eq_none_iff] at hnone
        have hfails : Fails o.clause ⟨before, (c :: s) ++ '\'' :: t⟩ := fails_clause hnone t
        rw [List.cons_append] at hfails ⊢
        rw [searchFrom_of_fails hfails, ih h]

/-- A search for the clause goes on from the first mark. Before that there is no mark, and so no
clause. -/
theorem exists_searchFrom_clause {s : List Char} {found : Found Unit}
    (h : searchFrom o.mark before (s ++ ['\'']) = some found) :
    ∃ x y, s = x ++ y ∧ found.start = ⟨after before x, y ++ ['\'']⟩ ∧
      First o.mark found.start () found.stop ∧ ∀ t,
        searchFrom o.clause before (s ++ '\'' :: t) =
          searchFrom o.clause (after before x) (y ++ '\'' :: t) := by
  induction s generalizing before with
  | nil =>
      -- At the quote itself and behind it there is no mark.
      have hnone : searchFrom o.mark (some '\'') [] = none :=
        searchFrom_nil (Fails.bind_left (fails_lead (by simp)))
      rw [List.nil_append, searchFrom_mark_quote, hnone] at h
      cases h
  | cons c s ih =>
      rw [List.cons_append, searchFrom] at h
      split at h
      · rename_i m hm
        cases h
        exact ⟨[], c :: s, rfl, rfl, hm, fun t => rfl⟩
      · rename_i hnone
        rw [← List.cons_append, List.head?_eq_none_iff] at hnone
        obtain ⟨x, y, rfl, hstart, hfirst, hsearch⟩ := ih h
        refine ⟨c :: x, y, rfl, by rw [hstart, after_cons], hfirst, fun t => ?_⟩
        have hfails : Fails o.clause ⟨before, (c :: (x ++ y)) ++ '\'' :: t⟩ := fails_clause hnone t
        rw [List.cons_append] at hfails ⊢
        rw [searchFrom_of_fails hfails, hsearch, after_cons]

/-! ### Options that lead up to a literal -/

/-- The options lead up to a literal that is the value of `o`. -/
structure Awaits (o : ValueOption) (s : List Char) : Prop where
  /-- All quotes and parentheses are closed. -/
  closed : s.foldl Sql.Nesting.step {} = {}
  /-- So are the single quotes, taken by themselves. -/
  even : s.count '\'' % 2 = 0
  /-- The first value of the option is the literal. -/
  own : (o.mark.search (.start (s ++ ['\'']))).map (·.stop.rest) = some []
  /-- A first value of the other option stands in front of the literal and outside of quotes. -/
  other : ∀ found ∈ o.other.mark.search (.start (s ++ ['\''])), found.stop.rest ≠ [] ∧
    ((Span.mk (.start (s ++ ['\''])) found.start).chars.foldl Sql.Nesting.step {}).quote = none

/-- The text of a literal says nothing about this option: either the options have a value of it in
front of the literal, or the literal has no mark of it. -/
def Overlooks (o : ValueOption) (s c : List Char) : Prop :=
  o.mark.occursIn (s ++ ['\'']) = true ∨ o.mark.occursIn (Sql.quoted c) = false

/-- A search of a pattern can be computed. -/
instance (o : ValueOption) (s c : List Char) : Decidable (o.Overlooks s c) :=
  inferInstanceAs (Decidable (_ ∨ _))

namespace Awaits

variable {s q : List Char}

/-- The first value of the option starts where the options end. Everything in front of the value has
been read then. -/
theorem exists_lead (h : Awaits o s) : ∃ x y n, s = x ++ y ∧ n.rest = [] ∧
    ((), n) ∈ o.lead ⟨after none x, y⟩ ∧ ∀ t v stop,
      First o.value (n.extend ('\'' :: t)) v stop → ∃ found,
        searchFrom o.clause none (s ++ '\'' :: t) = some found ∧ found.value = v := by
  obtain ⟨found, hfound, hstop⟩ := Option.map_eq_some_iff.1 h.own
  obtain ⟨x, y, rfl, hstart, hfirst, hsearch⟩ := exists_searchFrom_clause hfound
  rw [hstart] at hfirst
  obtain ⟨n, hn, ⟨c, -, hrest⟩, hclause⟩ := exists_first_clause hfirst
  rw [hstop] at hrest
  refine ⟨x, y, n, rfl, (List.append_eq_singleton_iff.1 hrest).elim (·.1) fun h => ?_, hn, ?_⟩
  · exact absurd h.2 (by simp)
  · intro t v stop hvalue
    exact ⟨_, (hsearch t).trans (searchFrom_of_first (hclause t v stop hvalue)), rfl⟩

/-- The options end with white space. -/
theorem exists_getLast? (h : Awaits o s) : ∃ l ∈ s.getLast?, isSpace l = true := by
  obtain ⟨x, y, n, rfl, hrest, hn, -⟩ := h.exists_lead
  obtain ⟨u, g, hy, -, hne, hg⟩ := exists_of_mem_lead hn
  rw [hrest, List.append_nil] at hy
  subst hy
  refine ⟨g.getLast hne, ?_, hg _ (List.getLast_mem hne)⟩
  rw [List.getLast?_append_of_ne_nil _ (by simp [hne]), List.getLast?_append_of_ne_nil _ hne,
    List.getLast?_eq_some_getLast hne]
  rfl

/-- The literal is the value of the option, whatever it holds. -/
theorem find?_clause_own (h : Awaits o s) (hq : q.head? ≠ some '\'') (c : List Char) :
    (o.clause.find? (s ++ (Sql.quoted c ++ q))).map (fun v => o.read v.chars) =
      some (String.ofList c) := by
  obtain ⟨x, y, ⟨before, r⟩, -, hrest, -, hsearch⟩ := h.exists_lead
  obtain rfl : r = [] := hrest
  obtain ⟨v, hvalue, hread⟩ := exists_first_value_quoted o c hq before
  rw [quoted_append] at hvalue ⊢
  obtain ⟨found, hfound, rfl⟩ := hsearch _ _ _ hvalue
  rw [find?_of_searchFrom hfound, Option.map_some, hread]

/-- Without a mark of the other option, the search for it steps over the options and a literal that
it overlooks. -/
theorem find?_clause_other_of_none (hmark : o.other.mark.search (.start (s ++ ['\''])) = none)
    (q : List Char) {c : List Char} (hc : o.other.Overlooks s c) :
    o.other.clause.find? (s ++ (Sql.quoted c ++ q)) =
      (searchFrom o.other.clause (some '\'') q).map (·.value) := by
  have hnone : o.other.mark.occursIn (s ++ ['\'']) = false := by rw [occursIn, hmark]; rfl
  have hliteral : searchFrom o.other.mark (some '\'') (Text.doubleQuotes '\'' c ++ ['\'']) =
      none := by
    -- The mark stands before the literal, which the hypothesis excludes, or it does not occur in
    -- the literal.
    rcases hc with hc | hc
    · rw [hnone] at hc
      cases hc
    · have hquoted := quoted_append c []
      rw [List.append_nil] at hquoted
      rw [occursIn, Option.isSome_eq_false_iff, Option.isNone_iff_eq_none, hquoted] at hc
      exact (searchFrom_mark_quote _ _ _).symm.trans hc
  have hsearch := (searchFrom_clause_of_none hmark _).trans (searchFrom_clause_of_none hliteral q)
  rw [quoted_append, find?, search]
  exact congrArg (Option.map (·.value)) hsearch

/-- A mark of the other option starts a value in front of the literal, which is read whatever the
literal holds. -/
theorem exists_find?_clause_other_of_some (h : Awaits o s) {found : Found Unit}
    (hmark : o.other.mark.search (.start (s ++ ['\''])) = some found) :
    ∃ chars, ∀ t, (o.other.clause.find? (s ++ '\'' :: t)).map (·.chars) = some chars := by
  obtain ⟨hstop, hquote⟩ := h.other found hmark
  obtain ⟨l, hl, hspace⟩ := h.exists_getLast?
  have hclosed := h.closed
  obtain ⟨x, y, rfl, hstart, hfirst, hsearch⟩ := exists_searchFrom_clause hmark
  rw [hstart] at hfirst hquote
  obtain ⟨n, hn, ⟨c, hc, hrest⟩, hclause⟩ := exists_first_clause hfirst
  obtain ⟨u, g, rfl, hu, -, hg⟩ := exists_of_mem_lead hn
  -- The value starts in the options, and outside of quotes.
  have hhead : ∃ c ∈ n.rest.head?, o.other.starts c = true := by
    cases hr : n.rest with
    | nil =>
        rw [hr] at hrest
        exact absurd (List.cons.inj hrest).2.symm hstop
    | cons e r =>
        rw [hr] at hrest
        exact ⟨e, rfl, (List.cons.inj hrest).1 ▸ hc⟩
  have hne : n.rest ≠ [] := by
    obtain ⟨c, hc, -⟩ := hhead
    rintro hnil
    rw [hnil] at hc
    cases hc
  obtain ⟨d, hd⟩ : ∃ d, x.foldl Sql.Nesting.step {} = ⟨d, none⟩ := by
    rw [Place.start, List.append_assoc, chars_append] at hquote
    exact ⟨_, congrArg (Sql.Nesting.mk _) hquote⟩
  have hplain : Inert (u ++ g) := Inert.of_plain fun c hc =>
    (List.mem_append.1 hc).imp (hu c) (hg c)
  have hvalue : n.rest.foldl Sql.Nesting.step ⟨d, none⟩ = {} := by
    rw [List.foldl_append, hd, ← List.append_assoc, List.foldl_append,
      (hplain.staysOpen d).foldl_eq] at hclosed
    exact hclosed
  have hlast : ∃ l ∈ n.rest.getLast?, isSpace l = true := by
    rw [← List.append_assoc, ← List.append_assoc, List.getLast?_append_of_ne_nil _ hne] at hl
    exact ⟨l, hl, hspace⟩
  obtain ⟨chars, hchars⟩ := exists_first_value hhead hvalue hlast
  refine ⟨chars, fun t => ?_⟩
  obtain ⟨v, stop, hfirst, rfl⟩ := hchars n.before ('\'' :: t)
  rw [find?_of_searchFrom ((hsearch _).trans (searchFrom_of_first (hclause _ v stop hfirst)))]
  rfl

/-- The other option has the same value whatever the literal holds, if it overlooks the literal. -/
theorem exists_find?_clause_other (h : Awaits o s) (q : List Char) :
    ∃ chars : Option (List Char), ∀ c, o.other.Overlooks s c →
      (o.other.clause.find? (s ++ (Sql.quoted c ++ q))).map (·.chars) = chars := by
  cases hmark : o.other.mark.search (.start (s ++ ['\''])) with
  | none =>
      refine ⟨(searchFrom o.other.clause (some '\'') q).map (·.value.chars), fun c hc => ?_⟩
      rw [find?_clause_other_of_none hmark q hc, Option.map_map]
      rfl
  | some found =>
      obtain ⟨chars, hchars⟩ := h.exists_find?_clause_other_of_some hmark
      refine ⟨some chars, fun c _ => ?_⟩
      rw [quoted_append]
      exact hchars _

end Awaits

end ValueOption

end EntityDiagram
