import EntityDiagram.Proofs.Ddl.Token.Round
import Mathlib.Data.List.TakeWhile

/-!
# `EntityDiagram.Proofs.Ddl.Token.LineEnd`: texts that go on in the next line

A text can be closed at its end, or stop inside a comment or inside quotes: `Ending`. Behind a
closed text, the next line is read as if it stood alone. A comment or quotes that are still open
take the next lines until a character closes them, one of `closers`.

`ending` finds the case of a text by induction on the rounds of the lexer. No round but the last
reaches the end of the text (`step_append`), and `lastRound` says what that one does.

The induction could not be on characters, since a line break means nothing inside quotes and ends a
comment of one kind only. A round, on the other hand, is either finished in front of the end of the
text, and then it is the same whatever follows, or it reaches the end. The last rounds are told
apart by the scanner that they run, as `Kind` lists them, and of the nine only block comments and
the three kinds of quotes may stay open.

It is used where texts are joined to one script, each with a line break behind it
(`EntityDiagram.Proofs.Parsing.Joining`).
-/

set_option autoImplicit false

namespace EntityDiagram.Ddl.Token

/-- The characters that can close a comment or quotes, or stand for another character there. -/
def closers : List Char := ['/', '"', '`', ']', '\'', '\\']

/-- Whether a comment or quotes that are open before a text are open behind it. -/
def KeepsOpen (s : List Char) : Prop := ∀ c ∈ s, c ∉ closers

/-- The characters of a text can be tested one by one. -/
instance (s : List Char) : Decidable (KeepsOpen s) :=
  decidable_of_iff ((s.all fun c => decide (c ∉ closers)) = true) (by simp [KeepsOpen])

/-- Whether the token may stand in quotes: a name or a literal. -/
inductive Quoted : Token → Prop where
  | name (s : String) : Quoted (.name s)
  | text (s : String) : Quoted (.text s)

/-- A line break is no token. -/
theorem tokens_newline (s : List Char) : tokens ('\n' :: s) = tokens s :=
  tokens_of_step (step_space (by decide) s)

/-! ### Scanners that reach the end of a text -/

/-- A line comment ends with its line. -/
theorem tokens_afterLine {s : List Char} (h : afterLine s = []) (more : List Char) :
    tokens (afterLine (s ++ '\n' :: more)) = tokens more := by
  induction s with
  | nil => rfl
  | cons c s ih =>
      rw [List.cons_append]
      rw [afterLine] at h ⊢
      by_cases hc : (c == '\n') = true
      · rw [if_pos hc] at h ⊢
        rw [h]
        exact tokens_newline more
      · rw [if_neg hc] at h ⊢
        exact ih h

/-- Nothing but a slash closes a block comment. -/
theorem afterBlock_eq_nil {s : List Char} (h : '/' ∉ s) : afterBlock s = [] := by
  fun_induction afterBlock s with
  | case1 => rfl
  | case2 => simp at h
  | case3 c rest _ ih => exact ih fun hmem => h (List.mem_cons_of_mem _ hmem)

/-- A block comment is closed at the end of a text, or goes on. -/
theorem afterBlock_newline {s : List Char} (h : afterBlock s = []) :
    (∀ more, afterBlock (s ++ '\n' :: more) = '\n' :: more) ∨
      ∀ more, '/' ∉ more → afterBlock (s ++ '\n' :: more) = [] := by
  fun_induction afterBlock s with
  | case1 => exact .inr fun more hmore => afterBlock_eq_nil (by simp [hmore])
  | case2 rest =>
      subst h
      exact .inl fun more => rfl
  | case3 c rest hend ih =>
      -- The first character ends the comment in neither text, so it can be taken away from both.
      have hcons (more : List Char) :
          afterBlock (c :: rest ++ '\n' :: more) = afterBlock (rest ++ '\n' :: more) := by
        refine afterBlock_cons fun hc hhead => ?_
        cases rest with
        | nil => cases hhead
        | cons d rest => exact hend rest hc (by simpa using hhead)
      simp only [hcons]
      exact ih h

/-- Quotes without a closing mark reach to the end. -/
theorem readQuoted_eq_nil {mark : Char} (escapes : Bool) {s : List Char} (hmark : mark ∉ s)
    (hslash : '\\' ∉ s) : (readQuoted mark escapes s).2 = [] := by
  induction s with
  | nil => rfl
  | cons c s ih =>
      rw [List.mem_cons, not_or] at hmark hslash
      rw [readQuoted_other (Ne.symm hmark.1) fun _ => Ne.symm hslash.1]
      exact ih hmark.2 hslash.2

/-- Quotes are closed at the end of a text, or go on. In the second case what is added must not
close them. -/
theorem readQuoted_newline {mark : Char} {escapes : Bool} {s : List Char} (hmark : mark ≠ '\n')
    (h : (readQuoted mark escapes s).2 = []) :
    (∀ more, readQuoted mark escapes (s ++ '\n' :: more) =
        ((readQuoted mark escapes s).1, '\n' :: more)) ∨
      ∀ more, mark ∉ more → '\\' ∉ more →
        (readQuoted mark escapes (s ++ '\n' :: more)).2 = [] := by
  fun_induction readQuoted mark escapes s with
  | case1 =>
      exact .inr fun more hclose hslash =>
        readQuoted_eq_nil _ (by simp [hmark, hclose]) (by simp [hslash])
  | case2 c hc =>
      obtain rfl : c = mark := by simpa using hc
      exact .inl fun more => readQuoted_close (by simpa using Ne.symm hmark)
  | case3 c hc d rest hd ih =>
      obtain rfl : c = mark := by simpa using hc
      obtain rfl : d = c := by simpa using hd
      refine (ih h).imp (fun hclosed more => ?_) fun hopen more hclose hslash => ?_
      · exact readQuoted_mark_mark.trans (congrArg (consRead _) (hclosed more))
      · rw [List.cons_append, List.cons_append, readQuoted_mark_mark]
        exact hopen more hclose hslash
  | case4 c hc d rest hd => cases h
  | case5 c hc hescape =>
      -- The backslash at the end takes the line break.
      obtain ⟨rfl, rfl⟩ : c = '\\' ∧ escapes = true := by simpa using hescape
      refine .inr fun more hclose hslash => ?_
      rw [List.singleton_append, readQuoted_escape fun h => hc (by simp [h])]
      exact readQuoted_eq_nil _ hclose hslash
  | case6 c hc hescape d rest ih =>
      obtain ⟨rfl, rfl⟩ : c = '\\' ∧ escapes = true := by simpa using hescape
      have hmark : mark ≠ '\\' := fun h => hc (by simp [h])
      refine (ih h).imp (fun hclosed more => ?_) fun hopen more hclose hslash => ?_
      · exact (readQuoted_escape hmark d).trans (congrArg (consRead _) (hclosed more))
      · rw [List.cons_append, List.cons_append, readQuoted_escape hmark]
        exact hopen more hclose hslash
  | case7 c rest hc hescape ih =>
      have hne : escapes = true → c ≠ '\\' := by
        rintro rfl rfl
        exact hescape rfl
      have hc : c ≠ mark := by simpa using hc
      refine (ih h).imp (fun hclosed more => ?_) fun hopen more hclose hslash => ?_
      · exact (readQuoted_other hc hne).trans (congrArg (consRead _) (hclosed more))
      · rw [List.cons_append, readQuoted_other hc hne]
        exact hopen more hclose hslash

/-- A number ends with its line. -/
theorem readDigits_newline {dotted : Bool} {s : List Char} (h : (readDigits dotted s).2 = [])
    (more : List Char) :
    readDigits dotted (s ++ '\n' :: more) = ((readDigits dotted s).1, '\n' :: more) := by
  fun_induction readDigits dotted s <;> grind [readDigits, consRead, Text.isAsciiDigit]

/-- A word ends with its line. A line break is no character of a word. -/
theorem takeWhile_newline {p : Char → Bool} (hp : p '\n' = false) {s : List Char}
    (h : s.dropWhile p = []) (more : List Char) :
    (s ++ '\n' :: more).takeWhile p = s.takeWhile p ∧
      (s ++ '\n' :: more).dropWhile p = '\n' :: more := by
  have hs : ∀ c ∈ s, p c = true := List.dropWhile_eq_nil_iff.1 h
  rw [List.takeWhile_append_of_pos hs, List.dropWhile_append_of_pos hs]
  simp [hp, List.takeWhile_eq_self_iff.2 hs]

/-! ### The last round of a text -/

/-- What the last round of a text reads if the text goes on in the next line. -/
inductive LastRound (c : Char) (rest : List Char) : Prop where
  /-- It is done, and the next line is read as if it stood alone. -/
  | closed (h : ∀ more, (step c (rest ++ '\n' :: more)).1 = (step c rest).1 ∧
      tokens (step c (rest ++ '\n' :: more)).2 = tokens more)
  /-- A comment goes on. -/
  | comment (htoken : (step c rest).1 = none)
      (h : ∀ more, KeepsOpen more → step c (rest ++ '\n' :: more) = (none, []))
  /-- Quotes go on. -/
  | quotes {q : Token} (hq : Quoted q) (htoken : (step c rest).1 = some q)
      (h : ∀ more, KeepsOpen more →
        ∃ q', Quoted q' ∧ step c (rest ++ '\n' :: more) = (some q', []))

/-- None of the characters that could close it stands in a text that keeps a comment open. -/
theorem KeepsOpen.not_mem {s : List Char} (h : KeepsOpen s) {c : Char} (hc : c ∈ closers) :
    c ∉ s := fun hmem => h c hmem hc

/-- A round that reads quotes up to the end of a text. Both outcomes are possible, as the text may
or may not be closed at its end. -/
theorem lastRound_quotes {c : Char} {rest : List Char} (mark : Char) (escapes : Bool)
    {token : List Char → Token} (htoken : ∀ s, Quoted (token s)) (hmark : mark ∈ closers)
    (hstep : ∀ s, s = rest ∨ (∃ more, s = rest ++ '\n' :: more) → step c s =
      (some (token (readQuoted mark escapes s).1), (readQuoted mark escapes s).2))
    (h : (step c rest).2 = []) : LastRound c rest := by
  have hnewline : mark ≠ '\n' := by
    rintro rfl
    exact absurd hmark (by decide)
  have hstep₀ := hstep rest (.inl rfl)
  have hstep₁ (more : List Char) := hstep (rest ++ '\n' :: more) (.inr ⟨more, rfl⟩)
  rw [hstep₀] at h
  -- If the text was closed at its very end, then what follows is read by itself. If not, it goes on
  -- into the next line.
  rcases readQuoted_newline hnewline h with hclosed | hopen
  · exact .closed fun more => by
      rw [hstep₀, hstep₁, hclosed]
      exact ⟨rfl, tokens_newline more⟩
  · exact .quotes (htoken _) (by rw [hstep₀]) fun more hmore => ⟨_, htoken _, by
      rw [hstep₁, hopen more (hmore.not_mem hmark) (hmore.not_mem (by decide))]⟩

/-- A minus sign or a line comment at the end of a text is done with its line. -/
theorem stepDash_newline {rest : List Char} (h : (stepDash rest).2 = []) (more : List Char) :
    (stepDash (rest ++ '\n' :: more)).1 = (stepDash rest).1 ∧
      tokens (stepDash (rest ++ '\n' :: more)).2 = tokens more := by
  cases rest with
  | nil => exact ⟨rfl, tokens_newline more⟩
  | cons d rest =>
      rw [List.cons_append]
      unfold stepDash at h ⊢
      dsimp only at h ⊢
      split_ifs at h ⊢
      · exact ⟨rfl, tokens_afterLine h more⟩
      · rw [← List.cons_append, readDigits_newline h]
        exact ⟨rfl, tokens_newline more⟩

/-- A slash or a block comment at the end of a text is done, or the comment goes on. -/
theorem stepSlash_newline {rest : List Char} (h : stepSlash rest = []) :
    (∀ more, tokens (stepSlash (rest ++ '\n' :: more)) = tokens more) ∨
      ∀ more, '/' ∉ more → stepSlash (rest ++ '\n' :: more) = [] := by
  unfold stepSlash at h
  split at h
  · refine (afterBlock_newline h).imp_left fun hclosed more => ?_
    exact (congrArg tokens (hclosed more)).trans (tokens_newline more)
  · subst h
    exact .inl tokens_newline

/-- A round whose scanner is done at the end of the text. It covers every scanner that does not care
whether a line break follows. -/
theorem LastRound.of_step {c : Char} {rest : List Char}
    {read : List Char → Option Token × List Char} (hstep : ∀ s, step c s = read s)
    (h : ∀ more, (read (rest ++ '\n' :: more)).1 = (read rest).1 ∧
      tokens (read (rest ++ '\n' :: more)).2 = tokens more) : LastRound c rest :=
  .closed fun more => by
    rw [hstep, hstep]
    exact h more

/-- The last round of a text is done, or leaves a comment or quotes open. -/
theorem lastRound {c : Char} {rest : List Char} (h : (step c rest).2 = []) :
    LastRound c rest := by
  cases kind c with
  | one t _ hstep =>
      rw [hstep] at h
      subst h
      exact .of_step hstep fun more => ⟨rfl, tokens_newline more⟩
  | dash _ hstep =>
      rw [hstep] at h
      exact .of_step hstep (stepDash_newline h)
  | slash _ hstep =>
      rw [hstep] at h
      rcases stepSlash_newline h with hclosed | hopen
      · exact .of_step hstep fun more => ⟨rfl, hclosed more⟩
      · exact .comment (by rw [hstep]) fun more hmore => by
          rw [hstep, hopen more (hmore.not_mem (by decide))]
  | hash _ hstep =>
      rw [hstep] at h
      exact .of_step hstep fun more => ⟨rfl, tokens_afterLine h more⟩
  | name hc hstep =>
      refine lastRound_quotes c false (fun s => .name (String.ofList s)) ?_ (fun s _ => hstep s) h
      rcases hc with rfl | rfl <;> decide
  | literal hc hstep =>
      exact lastRound_quotes '\'' true (fun s => .text (String.ofList s)) (by decide)
        (fun s _ => hstep s) h
  | bracket hc hstep =>
      by_cases hclose : rest.head? = some ']'
      · obtain ⟨left, rfl⟩ : ∃ left, rest = ']' :: left := List.head?_eq_some_iff.1 hclose
        rw [hstep] at h
        obtain rfl : left = [] := h
        exact .of_step hstep fun more => ⟨rfl, tokens_newline more⟩
      · -- Behind a bracket that is not closed at once stands a quoted name.
        refine lastRound_quotes ']' false (fun s => .name (String.ofList s)) (by decide)
          (fun s hs => ?_) h
        have hother : s.head? ≠ some ']' := by
          rcases hs with rfl | ⟨more, rfl⟩
          · exact hclose
          · cases rest with
            | nil => simp
            | cons d rest => exact hclose
        rw [hstep, stepBracket_other hother]
  | number _ hstep =>
      rw [hstep] at h
      refine .of_step hstep fun more => ?_
      rw [readDigits_newline h]
      exact ⟨rfl, tokens_newline more⟩
  | word _ hstep =>
      rw [hstep] at h
      refine .of_step hstep fun more => ?_
      obtain ⟨htake, hdrop⟩ := takeWhile_newline (by decide) h more
      rw [htake, hdrop]
      exact ⟨rfl, tokens_newline more⟩

/-! ### The end of a text -/

/-- How a text ends. -/
inductive Ending (s : List Char) : Prop where
  /-- The next line is read as if it stood alone. -/
  | closed {front : List Token} (htokens : tokens s = front ++ [.eof])
      (h : ∀ more, tokens (s ++ '\n' :: more) = front ++ tokens more)
  /-- A comment goes on. -/
  | comment (h : ∀ more, KeepsOpen more → tokens (s ++ '\n' :: more) = tokens s)
  /-- Quotes go on. -/
  | quotes {front : List Token} {q : Token} (hq : Quoted q)
      (htokens : tokens s = front ++ [q, .eof])
      (h : ∀ more, KeepsOpen more →
        ∃ q', Quoted q' ∧ tokens (s ++ '\n' :: more) = front ++ [q', .eof])

/-- A text whose first round is the last. What the round has done decides how the text ends. -/
theorem LastRound.ending {c : Char} {rest : List Char} (h : (step c rest).2 = []) :
    LastRound c rest → Ending (c :: rest)
  | .closed hmore => by
      refine .closed (by rw [tokens_cons, h, tokens_nil]) fun more => ?_
      rw [List.cons_append, tokens_cons, (hmore more).1, (hmore more).2]
  | .comment htoken hmore => by
      refine .comment fun more hopen => ?_
      rw [List.cons_append, tokens_cons, hmore more hopen, tokens_cons, h, htoken]
  | .quotes (q := q) hq htoken hmore => by
      -- The quoted text was cut off by the end, so it is the last token but one.
      have htokens : tokens (c :: rest) = [] ++ [q, .eof] := by
        rw [tokens_cons, h, htoken, tokens_nil]
        rfl
      refine .quotes hq htokens fun more hopen => ?_
      obtain ⟨q', hq', hstep⟩ := hmore more hopen
      refine ⟨q', hq', ?_⟩
      rw [List.cons_append, tokens_cons, hstep, tokens_nil]
      rfl

/-- A round before the last does not matter for the end of a text. -/
theorem Ending.cons {c : Char} {rest : List Char} (h : (step c rest).2 ≠ [])
    (hleft : Ending (step c rest).2) : Ending (c :: rest) := by
  have hcons (more : List Char) : tokens (c :: rest ++ '\n' :: more) =
      (step c rest).1.toList ++ tokens ((step c rest).2 ++ '\n' :: more) := by
    rw [List.cons_append, tokens_cons, step_append h]
  -- A round that leaves something behind gives the same token in both texts, so the ending is that
  -- of what is left.
  cases hleft with
  | closed htokens hmore =>
      refine .closed (by rw [tokens_cons, htokens, List.append_assoc]) fun more => ?_
      rw [hcons, hmore, List.append_assoc]
  | comment hmore =>
      refine .comment fun more hopen => ?_
      rw [hcons, hmore more hopen, tokens_cons]
  | quotes hq htokens hmore =>
      refine .quotes hq (by rw [tokens_cons, htokens, List.append_assoc]) fun more hopen => ?_
      obtain ⟨q', hq', htokens'⟩ := hmore more hopen
      exact ⟨q', hq', by rw [hcons, htokens', List.append_assoc]⟩

/-- **Every text is closed at its end, or leaves a comment or quotes open.** -/
theorem ending (s : List Char) : Ending s := by
  have hround {c : Char} {rest : List Char} (ih : Ending (step c rest).2) : Ending (c :: rest) := by
    by_cases h : (step c rest).2 = []
    · exact (lastRound h).ending h
    · exact .cons h ih
  induction s using tokens.induct with
  | case1 =>
      have htokens : tokens [] = [] ++ [.eof] := tokens_nil
      exact .closed htokens tokens_newline
  | case2 c rest read t hread ih => exact hround ih
  | case3 c rest read hread ih => exact hround ih

end EntityDiagram.Ddl.Token
