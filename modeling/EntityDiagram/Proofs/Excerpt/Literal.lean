import EntityDiagram.Excerpt.Definition
import EntityDiagram.Proofs.Excerpt.Enclosure
import EntityDiagram.Proofs.Sql.Literal
import EntityDiagram.Proofs.Text.Replacement
import EntityDiagram.Proofs.Text.WordSearch

/-!
# `EntityDiagram.Proofs.Excerpt.Literal`: literals in single quotes

`Sql.quoted` writes a text as a literal. Three readers meet such literals: the scan that counts
parentheses, the comment scan, and patterns. For the first two a literal is nothing but quotes,
whatever it holds (`inert_quoted`); the pattern reads exactly what was written
(`first_literal`), and `Text.undoubleQuotes_doubleQuotes` gives it back.

A text that starts inside a literal either holds its end or doubles all of its quotes
(`literal_cases`). So where literals are left out of a text, it does not matter what one of them
held: `exists_blankLiterals`.

The readers by patterns look for most of what they read in a text with its literals left out, so
that what these say decides about nothing there. Whether a text is inside a literal is told by the
number of quotes before it, since a doubled quote counts for two (`exists_quoted_of_even`). The
induction in `literal_cases` takes two quotes at once and is therefore on the length of the text.
-/

set_option autoImplicit false

namespace EntityDiagram.Text

/-- What is read of a text with its quotes doubled stands in it. -/
theorem mem_of_mem_undoubleQuotes {quote c : Char} {s : List Char}
    (h : c ∈ undoubleQuotes quote s) : c ∈ s := by
  fun_induction undoubleQuotes quote s with
  | case1 => exact h
  | case2 => exact h
  | case3 d e rest hquotes ih =>
      obtain ⟨hd, -⟩ := Bool.and_eq_true_iff.1 hquotes
      rcases List.mem_cons.1 h with rfl | h
      · rw [beq_iff_eq.1 hd]
        exact List.mem_cons_self
      · exact List.mem_cons_of_mem _ (List.mem_cons_of_mem _ (ih h))
  | case4 d e rest _ ih =>
      rcases List.mem_cons.1 h with rfl | h
      · exact List.mem_cons_self
      · exact List.mem_cons_of_mem _ (ih h)

/-- Doubling quotes brings in no other characters. -/
theorem mem_of_mem_doubleQuotes {quote c : Char} {s : List Char} (h : c ∈ doubleQuotes quote s) :
    c ∈ s := by
  obtain ⟨d, hd, hc⟩ := List.mem_flatMap.1 h
  split at hc
  · rename_i hquote
    rw [beq_iff_eq.1 hquote] at hd
    simp only [List.mem_cons, List.not_mem_nil, or_false, or_self] at hc
    exact hc ▸ hd
  · exact List.mem_singleton.1 hc ▸ hd

end EntityDiagram.Text

namespace EntityDiagram.Excerpt

open Text (doubleQuotes Pattern Place Span)
open Text.Pattern
open Sql (quoteStep outside step_quoted)

/-- A literal closes its quotes, and only marks are outside of them. -/
theorem inert_quoted (c : List Char) : Inert (Sql.quoted c) := by
  -- A doubled quote closes the quotes and opens them again.
  have key : (doubleQuotes '\'' c ++ ['\'']).foldl quoteStep (some '\'') = none ∧
      ∀ d ∈ outside (some '\'') (doubleQuotes '\'' c ++ ['\'']), d = '\'' := by
    induction c with
    | nil => exact ⟨rfl, by simp [doubleQuotes, outside]⟩
    | cons e c ih =>
        rw [Ddl.Token.doubleQuotes_cons, List.append_assoc]
        split
        · refine ⟨ih.1, fun d hd => ?_⟩
          rcases List.mem_cons.1 hd with rfl | hd
          · rfl
          · exact ih.2 d hd
        · rename_i he
          have hstep : quoteStep (some '\'') e = some '\'' := by simp [quoteStep, he]
          rw [List.singleton_append, List.foldl_cons, outside, hstep]
          exact ih
  refine ⟨key.1, fun d hd => ?_⟩
  obtain rfl : d = '\'' := (List.mem_cons.1 hd).elim id fun h => key.2 d h
  decide

/-- A literal is its inside between two quotes. -/
theorem quoted_append (c t : List Char) :
    Sql.quoted c ++ t = '\'' :: (doubleQuotes '\'' c ++ '\'' :: t) := by
  simp [Sql.quoted]

/-- What is read as the inside of a literal stands in the text. -/
theorem start_suffix_of_mem_literal {here : Place} {m : Span × Place} (hm : m ∈ literal here) :
    m.1.start.rest <:+ here.rest := by
  obtain ⟨n, hn, hm⟩ := List.mem_flatMap.1 hm
  obtain ⟨inside, hinside, hm⟩ := List.mem_flatMap.1 hm
  obtain ⟨stop, -, hm⟩ := List.mem_flatMap.1 hm
  obtain rfl := List.mem_singleton.1 hm
  obtain ⟨k, -, rfl⟩ := List.mem_map.1 hinside
  exact Forward.char _ here n hn

/-- A character of the inside of a literal: no quote, or two. -/
def insideStep : Pattern Unit := orElse (char (· != '\'')) (exactly ['\'', '\''])

/-- The inside of a literal does not go on at a single quote. -/
theorem fails_insideStep {t : List Char} (ht : t.head? ≠ some '\'') (before : Option Char) :
    Fails insideStep ⟨before, '\'' :: t⟩ := by
  have hother : Fails (char (· != '\'')) ⟨before, '\'' :: t⟩ := Fails.char (by simp)
  have hpair : Fails (exactly ['\'', '\'']) ⟨before, '\'' :: t⟩ :=
    Fails.bind_right (char_of (by decide) before t) (Fails.bind_left (Fails.char fun c hc => by
      rw [beq_eq_false_iff_ne]
      rintro rfl
      exact ht hc))
  show char (· != '\'') _ ++ exactly ['\'', '\''] _ = []
  rw [hother, hpair, List.append_nil]

/-- Quotes are doubled, so a text gets no shorter. -/
theorem length_le_length_doubleQuotes (c : List Char) :
    c.length ≤ (doubleQuotes '\'' c).length := by
  induction c with
  | nil => exact Nat.le_refl _
  | cons e c ih =>
      rw [Ddl.Token.doubleQuotes_cons, List.length_append, List.length_cons]
      split <;> simp only [List.length_cons, List.length_nil] <;> omega

/-- The inside of a literal is read up to the quote that closes it in as many rounds as its text has
characters, or more. -/
theorem first_repeatUpTo_insideStep (c : List Char) {t : List Char} (ht : t.head? ≠ some '\'')
    {fuel : Nat} (hfuel : c.length ≤ fuel) (before : Option Char) :
    First (repeatUpTo insideStep fuel) ⟨before, doubleQuotes '\'' c ++ '\'' :: t⟩ ()
      ⟨after before (doubleQuotes '\'' c), '\'' :: t⟩ := by
  induction c generalizing fuel before with
  | nil =>
      cases fuel with
      | zero => rfl
      | succ fuel =>
          show (List.flatMap _ (insideStep ⟨before, '\'' :: t⟩) ++ _).head? = _
          rw [fails_insideStep ht]
          rfl
  | cons e c ih =>
      cases fuel with
      | zero => cases hfuel
      | succ fuel =>
          have hrest := ih (Nat.le_of_succ_le_succ hfuel)
          -- A quote of the text takes one round, though it is written as two.
          rw [Ddl.Token.doubleQuotes_cons]
          split
          · have hpair : First insideStep ⟨before, ['\'', '\''] ++ doubleQuotes '\'' c ++ '\'' :: t⟩
                () ⟨some '\'', doubleQuotes '\'' c ++ '\'' :: t⟩ := rfl
            exact hpair.repeatUpTo_succ (by simpa using hrest (some '\''))
          · rename_i he
            have hother : First insideStep ⟨before, [e] ++ doubleQuotes '\'' c ++ '\'' :: t⟩ ()
                ⟨some e, doubleQuotes '\'' c ++ '\'' :: t⟩ := by
              have hchar := char_of (p := (· != '\'')) (by simpa using he) before
                (doubleQuotes '\'' c ++ '\'' :: t)
              show (char (· != '\'') ⟨before, e :: (doubleQuotes '\'' c ++ '\'' :: t)⟩ ++
                _).head? = _
              rw [hchar]
              rfl
            exact hother.repeatUpTo_succ (by simpa using hrest (some e))

/-- The inside of a literal is read up to the quote that closes it. Every mark within is doubled, so
only the last one closes it. -/
theorem first_literalInside (c : List Char) {t : List Char} (ht : t.head? ≠ some '\'')
    (before : Option Char) :
    First (repeated insideStep) ⟨before, doubleQuotes '\'' c ++ '\'' :: t⟩ ()
      ⟨after before (doubleQuotes '\'' c), '\'' :: t⟩ := by
  refine first_repeatUpTo_insideStep c ht ?_ before
  have hlength := length_le_length_doubleQuotes c
  dsimp only
  rw [List.length_append]
  omega

/-- A literal is read as it was written. What it gives is the text between the marks, in which marks
are still doubled. -/
theorem first_literal (c : List Char) {t : List Char} (ht : t.head? ≠ some '\'')
    (before : Option Char) :
    ∃ inside, First literal ⟨before, Sql.quoted c ++ t⟩ inside ⟨some '\'', t⟩ ∧
      inside.chars = doubleQuotes '\'' c := by
  rw [quoted_append]
  have hinside := (first_literalInside c ht (some '\'')).span
  refine ⟨⟨⟨some '\'', _⟩, ⟨_, '\'' :: t⟩⟩, ?_,
    chars_append _ (after (some '\'') (doubleQuotes '\'' c)) _ _⟩
  exact (First.of_singleton (char_of (by decide) _ _)).bind (hinside.bind
    ((First.of_singleton (char_of (by decide) _ _)).bind (First.pure _ _)))

/-! ### Texts with literals in them -/

/-- Doubled quotes are even in number. -/
theorem count_doubleQuotes (c : List Char) : (doubleQuotes '\'' c).count '\'' % 2 = 0 := by
  induction c with
  | nil => rfl
  | cons e c ih =>
      rw [Ddl.Token.doubleQuotes_cons, List.count_append]
      split
      · rw [show ['\'', '\''].count '\'' = 2 from rfl]
        omega
      · rename_i he
        rw [List.count_singleton, if_neg (by simpa using he)]
        omega

/-- A text that starts inside a literal holds its end, or all quotes in it are doubled. -/
theorem literal_cases (s : List Char) :
    (∃ c t, s = doubleQuotes '\'' c ++ '\'' :: t ∧ t.head? ≠ some '\'') ∨
      ∃ c, s = doubleQuotes '\'' c := by
  -- Two quotes are taken at once, so the induction is on the length.
  induction hn : s.length using Nat.strongRecOn generalizing s with
  | _ n ih =>
      have grow {e : Char} {w t : List Char} (hlt : t.length < n)
          (hw : ∀ c, w ++ doubleQuotes '\'' c = doubleQuotes '\'' (e :: c)) :
          (∃ c u, w ++ t = doubleQuotes '\'' c ++ '\'' :: u ∧ u.head? ≠ some '\'') ∨
            ∃ c, w ++ t = doubleQuotes '\'' c := by
        rcases ih _ hlt t rfl with ⟨c, u, rfl, hu⟩ | ⟨c, rfl⟩
        · exact .inl ⟨e :: c, u, by rw [← List.append_assoc, hw], hu⟩
        · exact .inr ⟨e :: c, hw c⟩
      cases s with
      | nil => exact .inr ⟨[], rfl⟩
      | cons x s =>
          rw [List.length_cons] at hn
          by_cases hx : x = '\''
          · subst hx
            by_cases hs : s.head? = some '\''
            · obtain ⟨t, rfl⟩ := List.head?_eq_some_iff.1 hs
              rw [List.length_cons] at hn
              exact grow (e := '\'') (w := ['\'', '\'']) (t := t) (by omega) fun c => rfl
            · exact .inl ⟨[], s, rfl, hs⟩
          · exact grow (e := x) (w := [x]) (t := s) (by omega) fun c => by
              rw [Ddl.Token.doubleQuotes_cons, if_neg hx]

/-- A text that starts with a quote and holds an even number of them starts with a literal. -/
theorem exists_quoted_of_even {s : List Char} (h : ('\'' :: s).count '\'' % 2 = 0) :
    ∃ c t, '\'' :: s = Sql.quoted c ++ t ∧ t.head? ≠ some '\'' ∧ t.count '\'' % 2 = 0 := by
  rcases literal_cases s with ⟨c, t, rfl, ht⟩ | ⟨c, rfl⟩
  · refine ⟨c, t, (quoted_append c t).symm, ht, ?_⟩
    have hc := count_doubleQuotes c
    rw [List.count_cons_self, List.count_append, List.count_cons_self] at h
    omega
  · have hc := count_doubleQuotes c
    rw [List.count_cons_self] at h
    omega

/-- With all of its quotes doubled, a text does not close a literal. -/
theorem foldl_step_doubleQuotes (d : Nat) (c : List Char) :
    (doubleQuotes '\'' c).foldl Sql.Nesting.step ⟨d, some '\''⟩ = ⟨d, some '\''⟩ := by
  induction c with
  | nil => rfl
  | cons e c ih =>
      rw [Ddl.Token.doubleQuotes_cons, List.foldl_append]
      split
      · exact ih
      · rename_i he
        rw [List.foldl_cons, List.foldl_nil, step_quoted, quoteStep, if_neg (by simpa using he)]
        exact ih

/-- A literal that is open is closed in a text behind which none is. -/
theorem exists_quoted_of_closed {d : Nat} {s : List Char}
    (h : (s.foldl Sql.Nesting.step ⟨d, some '\''⟩).quote = none) :
    ∃ c t, '\'' :: s = Sql.quoted c ++ t ∧ t.head? ≠ some '\'' := by
  rcases literal_cases s with ⟨c, t, rfl, ht⟩ | ⟨c, rfl⟩
  · exact ⟨c, t, (quoted_append c t).symm, ht⟩
  · rw [foldl_step_doubleQuotes] at h
    cases h

/-- A literal takes characters. -/
theorem consuming_literal : Consuming literal :=
  .char_bind _ fun _ => (Forward.repeated (p := insideStep) fun here m hm =>
    (List.mem_append.1 hm).elim (Forward.char _ here m) (Forward.exactly _ here m)).span.bind
      fun inside => (Forward.char _).bind fun _ => .pure inside

/-- Literals are left out of a text no matter what follows, if the quotes in it are even in number
and the last of them does not touch what follows. -/
theorem exists_replaced_append {s : List Char} (heven : s.count '\'' % 2 = 0)
    (hlast : ∀ l ∈ s.getLast?, l ≠ '\'') : ∃ front, ∀ before r rest,
      Replaced literal ['\'', '\''] ⟨after before s, r⟩ rest →
        Replaced literal ['\'', '\''] ⟨before, s ++ r⟩ (front ++ rest) := by
  -- On the length, as a literal is left out at once.
  induction hn : s.length using Nat.strongRecOn generalizing s with
  | _ n ih =>
      cases s with
      | nil => exact ⟨[], fun _ _ _ h => h⟩
      | cons x s =>
          rw [List.length_cons] at hn
          by_cases hx : x = '\''
          · subst hx
            obtain ⟨c, t, heq, ht, hcount⟩ := exists_quoted_of_even heven
            have hlength : ('\'' :: s).length = (Sql.quoted c ++ t).length := by rw [heq]
            rw [List.length_cons, List.length_append, Sql.quoted, List.length_append,
              List.length_cons] at hlength
            rw [heq] at hlast ⊢
            -- The literal is not the end of the text, so what follows does not go on with it.
            have hne : t ≠ [] := by
              rintro rfl
              rw [List.append_nil] at hlast
              exact hlast '\'' List.getLast?_concat rfl
            rw [List.getLast?_append_of_ne_nil _ hne] at hlast
            obtain ⟨front, hfront⟩ := ih t.length (by omega) hcount hlast rfl
            refine ⟨['\'', '\''] ++ front, fun before r rest hrest => ?_⟩
            have hhead : (t ++ r).head? ≠ some '\'' := by
              rwa [List.head?_append_of_ne_nil _ hne]
            obtain ⟨inside, hfirst, -⟩ := first_literal c hhead before
            have hafter : after before (Sql.quoted c ++ t) = after (some '\'') t := by
              rw [after, after, List.getLast?_append_of_ne_nil _ hne,
                List.getLast?_eq_some_getLast hne]
              rfl
            rw [hafter] at hrest
            rw [List.append_assoc, List.append_assoc]
            exact .replace hfirst (hfront _ r rest hrest)
          · rw [List.count_cons_of_ne (by simpa using hx)] at heven
            have hlast' : ∀ l ∈ s.getLast?, l ≠ '\'' := by
              intro l hl
              obtain ⟨t, rfl⟩ := List.getLast?_eq_some_iff.1 hl
              rw [← List.cons_append] at hlast
              exact hlast l List.getLast?_concat
            obtain ⟨front, hfront⟩ := ih s.length (by omega) heven hlast' rfl
            refine ⟨x :: front, fun before r rest hrest => .keep ?_ (hfront _ r rest ?_)⟩
            · exact Fails.bind_left (Fails.char (by simpa using hx))
            · rwa [after_cons] at hrest

/-- With the insides of literals left out, a text does not tell what one of them held. -/
theorem exists_blankLiterals {s q : List Char} (heven : s.count '\'' % 2 = 0)
    (hlast : ∀ l ∈ s.getLast?, l ≠ '\'') (hq : q.head? ≠ some '\'') :
    ∃ bare, ∀ c, blankLiterals (s ++ (Sql.quoted c ++ q)) = bare := by
  obtain ⟨rest, hrest⟩ : ∃ rest, Replaced literal ['\'', '\''] ⟨some '\'', q⟩ rest :=
    ⟨_, replaced_substitute consuming_literal _ (q.length + 1) _ (Nat.lt_succ_self _)⟩
  obtain ⟨front, hfront⟩ := exists_replaced_append heven hlast
  refine ⟨front ++ (['\'', '\''] ++ rest), fun c => ?_⟩
  obtain ⟨inside, hfirst, -⟩ := first_literal c hq (after none s)
  exact (replaced_replaceAll consuming_literal _ _).unique consuming_literal
    (hfront none _ _ (.replace hfirst hrest))

end EntityDiagram.Excerpt
