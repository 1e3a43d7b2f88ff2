import EntityDiagram.Excerpt.Scan
import EntityDiagram.Proofs.Ddl.Token.Round
import EntityDiagram.Proofs.Text.Space

/-!
# `EntityDiagram.Proofs.Excerpt.Comment`: taking comments out of a text

Two scanners know what a comment is. `stripComments` takes comments out of a text before it is
searched for tables; the lexer of the tolerant reader skips them while it reads tokens. This module
shows that they agree.

* `stripFrom_cons`: behind a character that opens neither quotes nor a comment, stripping goes on.
  `stripFrom_line` and `stripFrom_block` say where it goes on behind a comment.
* `mem_head?_stripFrom`: what a text without its comments starts with, it started with before, white
  space apart. So no scanner reads further, and no comment opens, because another one is gone.
* `tokens_strip_cons`: a round of the lexer on a text and on the text without its comments.
* `tokens_stripComments`: the main statement. Stripping twice is stripping once, and the lexer reads
  the same tokens from a text and from the text without its comments, unless one of the characters
  occurs that mean something to the lexer alone: a backslash escapes in a literal, `#` opens a
  comment and `[` a name.
-/

set_option autoImplicit false

namespace EntityDiagram.Excerpt

open Text (isSpace isAsciiDigit)
open Ddl.Token
open Sql (isQuote)

/-! ### Where stripping goes on -/

/-- Whether the two characters open a comment. -/
def opensComment (c d : Char) : Bool := (c == '-' && d == '-') || (c == '/' && d == '*')

/-- In quotes every character stays, and the mark that opened them ends them. -/
theorem stripFrom_quoted_cons (mark c : Char) (s : List Char) :
    stripFrom (.quoted mark) (c :: s) =
      c :: stripFrom (if c == mark then .code else .quoted mark) s := rfl

/-- In a line comment nothing stays but the line break that ends it. -/
theorem stripFrom_line_cons (c : Char) (s : List Char) :
    stripFrom .line (c :: s) = if c == '\n' then c :: stripFrom .code s else stripFrom .line s :=
  rfl

/-- In a block comment nothing stays. Whether it ends depends on this character and on whether the
one before it was a star. -/
theorem stripFrom_block_cons (star : Bool) (c : Char) (s : List Char) :
    stripFrom (.block star) (c :: s) =
      if star && c == '/' then stripFrom .code s else stripFrom (.block (c == '*')) s := rfl

/-- Quotes are kept with their mark. -/
theorem stripFrom_mark {c : Char} (hc : isQuote c = true) (s : List Char) :
    stripFrom .code (c :: s) = c :: stripFrom (.quoted c) s := by
  rw [stripFrom.eq_def]
  simp [hc]

/-- A character that opens nothing is kept. -/
theorem stripFrom_cons {c : Char} (hc : isQuote c = false) {s : List Char}
    (hs : ∀ d ∈ s.head?, opensComment c d = false) :
    stripFrom .code (c :: s) = c :: stripFrom .code s := by
  rw [stripFrom]
  · simp [hc]
  · rintro more rfl rfl
    exact absurd (hs '-' rfl) (by decide)
  · rintro more rfl rfl
    exact absurd (hs '*' rfl) (by decide)

/-- A line comment leaves the break of its line, if it has one, and what follows that. -/
theorem stripFrom_line (s : List Char) :
    stripFrom .line s = if '\n' ∈ s then '\n' :: stripFrom .code (afterLine s) else [] := by
  induction s with
  | nil => rfl
  | cons c s ih =>
      rw [stripFrom_line_cons, afterLine]
      by_cases hc : c = '\n'
      · simp [hc]
      · simp [hc, Ne.symm hc, ih]

/-- A block comment leaves what follows its end. -/
theorem stripFrom_block (s : List Char) :
    stripFrom (.block false) s = stripFrom .code (afterBlock s) := by
  -- A star decides about the next character, so both states are followed at once.
  have key (s : List Char) : stripFrom (.block false) s = stripFrom .code (afterBlock s) ∧
      stripFrom (.block true) s =
        if s.head? = some '/' then stripFrom .code s.tail else stripFrom .code (afterBlock s) := by
    induction s with
    | nil => exact ⟨rfl, rfl⟩
    | cons c s ih =>
        have hblock : stripFrom (.block (c == '*')) s = stripFrom .code (afterBlock (c :: s)) := by
          by_cases hstar : c = '*'
          · subst hstar
            rw [beq_self_eq_true, ih.2]
            split
            · rename_i hhead
              obtain ⟨more, rfl⟩ := List.head?_eq_some_iff.1 hhead
              rfl
            · rename_i hhead
              rw [afterBlock_cons fun _ => hhead]
          · rw [beq_eq_false_iff_ne.2 hstar, ih.1, afterBlock_cons fun h => absurd h hstar]
        constructor
        · rw [stripFrom_block_cons, Bool.false_and, if_neg Bool.false_ne_true, hblock]
        · rw [stripFrom_block_cons, Bool.true_and, hblock]
          simp
  exact (key s).1

/-- What a text in code mode starts with: quotes, a comment, or a character that is kept. It is used
as a rule for case analysis, in place of the equations of the scan. -/
theorem code_cases {motive : List Char → Prop} (s : List Char) (hnil : motive [])
    (hmark : ∀ c s, isQuote c = true → motive (c :: s))
    (hline : ∀ s, motive ('-' :: '-' :: s)) (hblock : ∀ s, motive ('/' :: '*' :: s))
    (hcons : ∀ c s, isQuote c = false → (∀ d ∈ s.head?, opensComment c d = false) →
      motive (c :: s)) : motive s := by
  cases s with
  | nil => exact hnil
  | cons c s =>
      by_cases hc : isQuote c = true
      · exact hmark c s hc
      · rw [Bool.not_eq_true] at hc
        cases s with
        | nil => exact hcons c [] hc (by simp)
        | cons d s =>
            -- Two characters are needed to open a comment, so the second one has to be looked at.
            by_cases hopens : opensComment c d = true
            · simp only [opensComment, Bool.or_eq_true, Bool.and_eq_true, beq_iff_eq] at hopens
              rcases hopens with ⟨rfl, rfl⟩ | ⟨rfl, rfl⟩
              · exact hline s
              · exact hblock s
            · exact hcons c (d :: s) hc (by simpa using hopens)

/-- Without comments, a text starts as before or with white space. -/
theorem mem_head?_stripFrom {s : List Char} {d : Char} (h : d ∈ (stripFrom .code s).head?) :
    d ∈ s.head? ∨ isSpace d = true := by
  cases s using code_cases with
  | hnil => exact .inl h
  | hmark c s hc =>
      rw [stripFrom_mark hc] at h
      exact .inl h
  -- A comment leaves at most a line break or a space behind.
  | hline s =>
      rw [show stripFrom .code ('-' :: '-' :: s) = stripFrom .line s from rfl, stripFrom_line] at h
      split at h
      · obtain rfl := Option.some.inj h
        exact .inr (by decide)
      · cases h
  | hblock s =>
      obtain rfl := Option.some.inj h
      exact .inr (by decide)
  | hcons c s hc hs =>
      rw [stripFrom_cons hc hs] at h
      exact .inl h

/-- Where no comment opens, none opens once the comments behind are gone. -/
theorem not_opensComment_stripFrom {c : Char} {s : List Char}
    (hs : ∀ d ∈ s.head?, opensComment c d = false) :
    ∀ d ∈ (stripFrom .code s).head?, opensComment c d = false := by
  intro d hd
  rcases mem_head?_stripFrom hd with h | h
  · exact hs d h
  · have hne : d ≠ '-' ∧ d ≠ '*' := by
      constructor <;> rintro rfl <;> exact absurd h (by decide)
    simp [opensComment, hne]

/-- A text without comments has none to take out. -/
theorem stripComments_stripComments (s : List Char) :
    stripComments (stripComments s) = stripComments s := by
  -- Quotes that are open stay open, and behind a comment the text that is left is shorter.
  have key (n : Nat) : ∀ s : List Char, s.length ≤ n →
      stripFrom .code (stripFrom .code s) = stripFrom .code s ∧
        ∀ mark, stripFrom (.quoted mark) (stripFrom (.quoted mark) s) =
          stripFrom (.quoted mark) s := by
    induction n with
    | zero =>
        intro s hs
        obtain rfl := List.length_eq_zero_iff.1 (Nat.le_zero.1 hs)
        exact ⟨rfl, fun _ => rfl⟩
    | succ n ih =>
        intro s hs
        constructor
        · cases s using code_cases with
          | hnil => rfl
          | hmark c s hc =>
              rw [stripFrom_mark hc, stripFrom_mark hc, (ih s (Nat.le_of_succ_le_succ hs)).2]
          | hline s =>
              have hle : (afterLine s).length ≤ n := by
                have := length_afterLine_le s
                simp only [List.length_cons] at hs
                omega
              rw [show stripFrom .code ('-' :: '-' :: s) = stripFrom .line s from rfl,
                stripFrom_line]
              split
              · rw [stripFrom_cons (by decide) (by simp [opensComment]), (ih _ hle).1]
              · rfl
          | hblock s =>
              have hle : (afterBlock s).length ≤ n := by
                have := length_afterBlock_le s
                simp only [List.length_cons] at hs
                omega
              rw [show stripFrom .code ('/' :: '*' :: s) = ' ' :: stripFrom (.block false) s
                  from rfl,
                stripFrom_block, stripFrom_cons (by decide) (by simp [opensComment]), (ih _ hle).1]
          | hcons c s hc hs' =>
              rw [stripFrom_cons hc hs', stripFrom_cons hc (not_opensComment_stripFrom hs'),
                (ih s (Nat.le_of_succ_le_succ hs)).1]
        · intro mark
          cases s with
          | nil => rfl
          | cons c s =>
              have hih := ih s (Nat.le_of_succ_le_succ hs)
              rw [stripFrom_quoted_cons, stripFrom_quoted_cons]
              split
              · rw [hih.1]
              · rw [hih.2]
  exact (key s.length s (Nat.le_refl _)).1

/-! ### Scanners of the lexer -/

/-- Quotes are read alike with the comments behind them and without. A backslash would escape the
mark for the lexer alone, which is why there must not be one. -/
theorem readQuoted_stripFrom {mark : Char} (hmark : isQuote mark = true) (escapes : Bool)
    {s : List Char} (hs : '\\' ∉ s) :
    readQuoted mark escapes (stripFrom (.quoted mark) s) =
      ((readQuoted mark escapes s).1, stripFrom .code (readQuoted mark escapes s).2) := by
  -- A doubled mark closes the quotes for the one scanner, and opens them again at once.
  fun_induction readQuoted mark escapes s with
  | case1 => rfl
  | case2 c hc =>
      obtain rfl : c = mark := by simpa using hc
      rw [show stripFrom (.quoted c) [c] = [c] from rfl]
      exact readQuoted_close (by simp)
  | case3 c hc d rest hd ih =>
      obtain rfl : c = mark := by simpa using hc
      obtain rfl : d = c := by simpa using hd
      rw [stripFrom_quoted_cons, if_pos hc, stripFrom_mark hmark, readQuoted_mark_mark,
        ih fun h => hs (by simp [h])]
      rfl
  | case4 c hc d rest hd =>
      obtain rfl : c = mark := by simpa using hc
      rw [stripFrom_quoted_cons, if_pos hc]
      refine readQuoted_close fun hhead => ?_
      rcases mem_head?_stripFrom hhead with h | h
      · exact hd (by simpa using h)
      · simp only [isQuote, Bool.or_eq_true, beq_iff_eq] at hmark
        rcases hmark with (rfl | rfl) | rfl <;> exact absurd h (by decide)
  | case5 c hc hescape => simp_all
  | case6 c hc hescape d rest ih => simp_all
  | case7 c rest hc hescape ih =>
      have hslash : c ≠ '\\' := by
        rintro rfl
        exact hs (by simp)
      rw [stripFrom_quoted_cons, if_neg hc, readQuoted_other (by simpa using hc) fun _ => hslash,
        ih fun h => hs (by simp [h])]
      rfl

/-- Characters that open neither quotes nor a comment are kept, whatever follows. -/
theorem stripFrom_cons_of {p : Char → Bool} (hp : ['\'', '"', '`', '-', '/'].any p = false)
    {c : Char} (hc : p c = true) (s : List Char) :
    stripFrom .code (c :: s) = c :: stripFrom .code s := by
  have hne : ∀ d ∈ ['\'', '"', '`', '-', '/'], c ≠ d := by
    rintro d hd rfl
    exact List.any_eq_false.1 hp c hd hc
  simp only [List.mem_cons, List.not_mem_nil, or_false, forall_eq_or_imp, forall_eq] at hne
  exact stripFrom_cons (by simp [isQuote, hne]) (by simp [opensComment, hne])

/-- A run of characters is the same with the comments behind it and without. A comment is replaced
by white space, which ends the run as the comment does. -/
theorem takeWhile_stripFrom {p : Char → Bool} (hp : ['\'', '"', '`', '-', '/'].any p = false)
    (hspace : ∀ c, isSpace c = true → p c = false) (s : List Char) :
    (stripFrom .code s).takeWhile p = s.takeWhile p ∧
      (stripFrom .code s).dropWhile p = stripFrom .code (s.dropWhile p) := by
  induction s with
  | nil => exact ⟨rfl, rfl⟩
  | cons c s ih =>
      by_cases hc : p c = true
      · rw [stripFrom_cons_of hp hc]
        simp [hc, ih]
      · -- What takes the place of a comment does not belong to the run either.
        have hhead : ∀ d ∈ (stripFrom .code (c :: s)).head?, p d = false := by
          intro d hd
          rcases mem_head?_stripFrom hd with h | h
          · obtain rfl := Option.some.inj h
            simpa using hc
          · exact hspace d h
        rw [List.takeWhile_cons_of_neg hc, List.dropWhile_cons_of_neg hc]
        cases hstrip : stripFrom .code (c :: s) with
        | nil => exact ⟨rfl, rfl⟩
        | cons d t =>
            rw [hstrip] at hhead
            simp [hhead d rfl]

/-- Digits are read alike with the comments behind them and without. -/
theorem readDigits_stripFrom (dotted : Bool) (s : List Char) :
    readDigits dotted (stripFrom .code s) =
      ((readDigits dotted s).1, stripFrom .code (readDigits dotted s).2) := by
  fun_induction readDigits dotted s with
  | case1 => rfl
  | case2 dotted c rest hdigit ih =>
      rw [stripFrom_cons_of (by decide) hdigit, readDigits, if_pos hdigit, ih]
      rfl
  | case3 dotted c rest hdigit hdot ih =>
      obtain ⟨rfl, -⟩ : c = '.' ∧ dotted = false := by simpa using hdot
      rw [stripFrom_cons (by decide) (by simp [opensComment]), readDigits, if_neg hdigit,
        if_pos hdot, ih]
      rfl
  | case4 dotted c rest hdigit hdot =>
      -- What stands in front once the comments are gone is the character itself or a space.
      have hhead : ∀ d ∈ (stripFrom .code (c :: rest)).head?,
          isAsciiDigit d = false ∧ (d == '.' && !dotted) = false := by
        intro d hd
        rcases mem_head?_stripFrom hd with h | h
        · obtain rfl := Option.some.inj h
          exact ⟨by simpa using hdigit, by simpa using hdot⟩
        · obtain ⟨hnot, hne⟩ := Text.forall_isSpace
            (p := fun c => isAsciiDigit c = false ∧ c ≠ '.') (by decide) h
          exact ⟨hnot, by simp [hne]⟩
      cases hstrip : stripFrom .code (c :: rest) with
      | nil => rfl
      | cons d t =>
          rw [hstrip] at hhead
          obtain ⟨h₁, h₂⟩ := hhead d rfl
          rw [readDigits, if_neg (by simp [h₁]), if_neg (by simp [h₂])]

/-- A line comment that is stripped leaves the tokens behind it. -/
theorem tokens_stripFrom_line (s : List Char) :
    tokens (stripFrom .line s) = tokens (stripFrom .code (afterLine s)) := by
  rw [stripFrom_line]
  split
  · exact tokens_of_step (step_space (by decide) _)
  · rename_i hbreak
    have hnone : afterLine s = [] := by
      fun_induction afterLine s with
      | case1 => rfl
      | case2 c rest hc => simp_all
      | case3 c rest hc ih => exact ih fun h => hbreak (by simp [h])
    rw [hnone]
    rfl

/-- Behind a dash that opens no comment, a number starts or nothing. -/
theorem stepDash_stripFrom {s : List Char} (hs : s.head? ≠ some '-') :
    stepDash (stripFrom .code s) = ((stepDash s).1, stripFrom .code (stepDash s).2) := by
  have hother {t : List Char} (ht : ∀ d ∈ t.head?, d ≠ '-' ∧ isAsciiDigit d = false) :
      stepDash t = (none, t) := by
    cases t with
    | nil => rfl
    | cons d t => simp [stepDash, ht d rfl]
  -- Behind the dash is a digit or not. Only a number makes a token, and no comment can open inside
  -- it.
  by_cases hdigit : ∃ d ∈ s.head?, isAsciiDigit d = true
  · obtain ⟨d, hd, hdigit⟩ := hdigit
    obtain ⟨more, rfl⟩ := List.head?_eq_some_iff.1 hd
    have hread := readDigits_stripFrom false (d :: more)
    have hne : d ≠ '-' := by simpa using hs
    rw [stripFrom_cons_of (by decide) hdigit] at hread ⊢
    simp [stepDash, hne, hdigit, hread]
  · have hhead : ∀ d ∈ s.head?, d ≠ '-' ∧ isAsciiDigit d = false := by
      intro d hd
      exact ⟨fun h => hs (h ▸ hd), by simpa using fun h => hdigit ⟨d, hd, h⟩⟩
    rw [hother hhead, hother]
    intro d hd
    rcases mem_head?_stripFrom hd with h | h
    · exact hhead d h
    · exact Text.forall_isSpace (p := fun c => c ≠ '-' ∧ isAsciiDigit c = false) (by decide) h

/-! ### Rounds of the lexer -/

/-- A character that makes a round by itself is kept, whatever follows. -/
theorem stripFrom_cons_of_one {c : Char} {t : Option Ddl.Token} (hquotes : opensQuotes c = false)
    (hstep : ∀ rest, step c rest = (t, rest)) (s : List Char) :
    stripFrom .code (c :: s) = c :: stripFrom .code s := by
  have hdash : c ≠ '-' := by
    rintro rfl
    exact absurd (show (step '-' ['-']).2 = ['-'] from congrArg Prod.snd (hstep ['-'])) (by decide)
  have hslash : c ≠ '/' := by
    rintro rfl
    exact absurd (show (step '/' ['*']).2 = ['*'] from congrArg Prod.snd (hstep ['*'])) (by decide)
  have hquote : isQuote c = false := by
    simp only [opensQuotes, Bool.or_eq_false_iff, beq_eq_false_iff_ne] at hquotes
    simp [isQuote, hquotes]
  exact stripFrom_cons hquote (by simp [opensComment, hdash, hslash])

/-- A round at a dash, which may open a comment. -/
theorem tokens_stripFrom_dash (s : List Char) : tokens (stripFrom .code ('-' :: s)) =
    (stepDash s).1.toList ++ tokens (stripFrom .code (stepDash s).2) := by
  by_cases hs : s.head? = some '-'
  · obtain ⟨more, rfl⟩ := List.head?_eq_some_iff.1 hs
    exact tokens_stripFrom_line more
  · have hopens : ∀ d ∈ s.head?, opensComment '-' d = false := by
      intro d hd
      have hne : d ≠ '-' := fun h => hs (h ▸ hd)
      simp [opensComment, hne]
    have hstep (rest : List Char) : step '-' rest = stepDash rest := rfl
    rw [stripFrom_cons (by decide) hopens, tokens_cons, hstep, stepDash_stripFrom hs]

/-- A round at a slash, which may open a comment too. -/
theorem tokens_stripFrom_slash (s : List Char) :
    tokens (stripFrom .code ('/' :: s)) = tokens (stripFrom .code (stepSlash s)) := by
  by_cases hs : s.head? = some '*'
  · obtain ⟨more, rfl⟩ := List.head?_eq_some_iff.1 hs
    rw [show stripFrom .code ('/' :: '*' :: more) = ' ' :: stripFrom (.block false) more from rfl,
      stripFrom_block]
    exact tokens_of_step (step_space (by decide) _)
  · have hother {t : List Char} (ht : t.head? ≠ some '*') : stepSlash t = t := by
      unfold stepSlash
      split
      · exact absurd rfl ht
      · rfl
    -- Without a star behind it the slash opens no comment, and is nothing to the lexer either.
    have hopens : ∀ d ∈ s.head?, opensComment '/' d = false := by
      intro d hd
      have hne : d ≠ '*' := fun h => hs (h ▸ hd)
      simp [opensComment, hne]
    have hstar : (stripFrom .code s).head? ≠ some '*' := fun hmem =>
      absurd (not_opensComment_stripFrom hopens '*' hmem) (by decide)
    have hstep (rest : List Char) : step '/' rest = (none, stepSlash rest) := rfl
    rw [stripFrom_cons (by decide) hopens, tokens_cons, hstep, hother hstar, hother hs]
    rfl

/-- A round on a text and on the text without its comments, where no character occurs that means
something to the lexer alone. -/
theorem tokens_strip_cons {c : Char} {s : List Char} (h : ∀ d ∈ c :: s, d ∉ ['\\', '#', '[']) :
    tokens (stripFrom .code (c :: s)) =
      (step c s).1.toList ++ tokens (stripFrom .code (step c s).2) := by
  have hhead := h c (by simp)
  have hslash : '\\' ∉ s := fun hmem => h '\\' (by simp [hmem]) (by simp)
  simp only [List.mem_cons, List.not_mem_nil, or_false, not_or] at hhead
  -- One case for each kind of round. The two that are ruled out are those where lexer and comment
  -- scanner disagree.
  cases kind c with
  | one t hquotes hstep =>
      rw [stripFrom_cons_of_one hquotes hstep, hstep]
      exact tokens_of_step (hstep _)
  | dash hc hstep =>
      subst hc
      rw [hstep]
      exact tokens_stripFrom_dash s
  | slash hc hstep =>
      subst hc
      rw [hstep]
      exact tokens_stripFrom_slash s
  | hash hc hstep => exact absurd hc hhead.2.1
  | bracket hc hstep => exact absurd hc hhead.2.2
  | name hc hstep =>
      have hquote : isQuote c = true := by rcases hc with rfl | rfl <;> decide
      rw [stripFrom_mark hquote, tokens_cons, hstep, hstep,
        readQuoted_stripFrom hquote false hslash]
  | literal hc hstep =>
      subst hc
      rw [stripFrom_mark (by decide), tokens_cons, hstep, hstep,
        readQuoted_stripFrom (by decide) true hslash]
  | number hc hstep =>
      rw [stripFrom_cons_of (by decide) hc, tokens_cons, hstep, hstep, readDigits_stripFrom]
  | word hc hstep =>
      obtain ⟨htake, hdrop⟩ :=
        takeWhile_stripFrom (by decide) (fun _ => continuesWord_of_isSpace) s
      rw [stripFrom_cons_of (by decide) hc, tokens_cons, hstep, hstep, htake, hdrop]

/-! ### Texts -/

/-- The lexer reads the same tokens from a text and from the text without its comments, which has
none itself. -/
theorem tokens_stripComments (s : List Char) :
    stripComments (stripComments s) = stripComments s ∧
      ((∀ c ∈ s, c ∉ ['\\', '#', '[']) → tokens (stripComments s) = tokens s) := by
  refine ⟨stripComments_stripComments s, fun h => ?_⟩
  -- On the rounds of the lexer: each leaves an end of the text.
  induction s using tokens.induct with
  | case1 => rfl
  | case2 c s read t hread ih =>
      rw [stripComments, tokens_strip_cons h, tokens_cons c s]
      exact congrArg _ (ih fun d hd => h d (List.mem_cons_of_mem c ((step_suffix c s).subset hd)))
  | case3 c s read hread ih =>
      rw [stripComments, tokens_strip_cons h, tokens_cons c s]
      exact congrArg _ (ih fun d hd => h d (List.mem_cons_of_mem c ((step_suffix c s).subset hd)))

/-- A text with comment marks in quotes and behind other marks, and quotes that are never closed. -/
def exampleMarks : List Char := "a '--x' /*/ b */-/**/-1---\"c\"\n/ * `d''/*--".toList

/-- Marks in quotes open no comment, and where a comment was, marks do not meet. -/
theorem tokens_stripComments_exampleMarks :
    stripComments exampleMarks = "a '--x'  - -1\n/ * `d''/*--".toList ∧
      tokens (stripComments exampleMarks) = tokens exampleMarks :=
  ⟨by decide +kernel,
    (tokens_stripComments exampleMarks).2 (Text.forall_mem_of_all (by decide +kernel))⟩

end EntityDiagram.Excerpt
