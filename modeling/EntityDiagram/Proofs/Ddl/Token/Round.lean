import EntityDiagram.Proofs.Ddl.Token.Lexer
import Mathlib.Tactic.SplitIfs

/-!
# `EntityDiagram.Proofs.Ddl.Token.Round`: following the lexer through a text

`Reads s rounds left` says that the lexer, started on `s`, goes through these rounds and then
stands in front of `left`. Each round records the text that it consumes beside the token that it
reads, so that one can ask what stands in quotes.

* `Reads.tokens_eq`: a run reads the first tokens of a text.
* `Reads.append`: a run that does not reach the end of a text is the same whatever follows. No
  scanner looks further ahead than one character, which `step_append` says for one round.
* `reads_advance`: runs can be computed.

Two more things are recorded here because several modules need them. `Kind` lists the scanners that
a round may run, one for each kind of first character, and `kind` says that there are no others; a
statement about all rounds is proved by cases on it, with a lemma for each scanner. And the readers
of comments, quotes and numbers all leave an end of their text (`readQuoted_suffix` and the others),
which is what the decision procedure for runs, `advance`, relies on.
-/

set_option autoImplicit false

namespace EntityDiagram.Ddl.Token

open Text (isSpace isAsciiDigit)

/-- Whether the character opens a quoted name or a literal. -/
def opensQuotes (c : Char) : Bool := c == '"' || c == '`' || c == '[' || c == '\''

/-- A character that a property tells from the four marks opens no quotes. -/
theorem not_opensQuotes_of {p : Char → Bool} (hp : ['"', '`', '[', '\''].any p = false)
    {c : Char} (h : p c = true) : opensQuotes c = false := by
  cases hc : opensQuotes c with
  | false => rfl
  | true =>
      simp only [opensQuotes, Bool.or_eq_true, beq_iff_eq] at hc
      have hmem : c ∈ ['"', '`', '[', '\''] := by
        rcases hc with ((rfl | rfl) | rfl) | rfl <;> simp
      exact absurd h (List.any_eq_false.1 hp c hmem)

/-- A round of the lexer: the text that it consumes and the token that it reads, if any. -/
structure Round where
  text : List Char
  token : Option Token
deriving DecidableEq, Repr

/-- Whether the round reads a quoted name or a literal. -/
def Round.isQuoted (r : Round) : Bool := (r.text.head?.map opensQuotes).getD false

/-- The lexer, started on a text, goes through the rounds and then stands in front of the last
argument. -/
inductive Reads : List Char → List Round → List Char → Prop where
  | done (s : List Char) : Reads s [] s
  | round {c : Char} {text left s : List Char} {t : Option Token} {rounds : List Round}
      (hstep : step c (text ++ left) = (t, left)) (h : Reads left rounds s) :
      Reads (c :: (text ++ left)) (⟨c :: text, t⟩ :: rounds) s

/-- A run reads the first tokens of the text. -/
theorem Reads.tokens_eq {s left : List Char} {rounds : List Round} (h : Reads s rounds left) :
    tokens s = rounds.filterMap (·.token) ++ tokens left := by
  induction h with
  | done s => rfl
  | @round c text left s t rounds hstep h ih =>
      rw [tokens_of_step hstep, ih]
      cases t <;> rfl

/-- White space is read without a token. -/
theorem exists_reads_spaces {g : List Char} (hg : ∀ c ∈ g, isSpace c = true) (s : List Char) :
    ∃ rounds, Reads (g ++ s) rounds s := by
  induction g with
  | nil => exact ⟨[], .done s⟩
  | cons c g ih =>
      rw [List.forall_mem_cons] at hg
      obtain ⟨rounds, hreads⟩ := ih hg.2
      exact ⟨_, @Reads.round c [] (g ++ s) s none rounds (step_space hg.1 (g ++ s)) hreads⟩

/-! ### Kinds of rounds -/

/-- What a round that starts with the character does, by the scanner that it runs. -/
inductive Kind (c : Char) : Prop where
  /-- The character is a token by itself or none at all. -/
  | one (t : Option Token) (hc : opensQuotes c = false) (hstep : ∀ rest, step c rest = (t, rest))
  | dash (hc : c = '-') (hstep : ∀ rest, step c rest = stepDash rest)
  | slash (hc : c = '/') (hstep : ∀ rest, step c rest = (none, stepSlash rest))
  | hash (hc : c = '#') (hstep : ∀ rest, step c rest = (none, afterLine rest))
  | name (hc : c = '"' ∨ c = '`') (hstep : ∀ rest, step c rest =
      (some (.name (String.ofList (readQuoted c false rest).1)), (readQuoted c false rest).2))
  | bracket (hc : c = '[') (hstep : ∀ rest, step c rest =
      (some (.name (stepBracket rest).1), (stepBracket rest).2))
  | literal (hc : c = '\'') (hstep : ∀ rest, step c rest =
      (some (.text (String.ofList (readQuoted '\'' true rest).1)), (readQuoted '\'' true rest).2))
  | number (hc : isAsciiDigit c = true) (hstep : ∀ rest, step c rest =
      (some (.number (String.ofList (c :: (readDigits false rest).1))), (readDigits false rest).2))
  | word (hc : startsWord c = true) (hstep : ∀ rest, step c rest =
      (some (ofWord (c :: rest.takeWhile continuesWord)), rest.dropWhile continuesWord))

/-- Every round is of one kind. -/
theorem kind (c : Char) : Kind c := by
  cases hsymbol : symbol? c with
  | some t =>
      have hquotes : opensQuotes c = false := by
        -- A symbol is none of the marks that open quotes.
        unfold symbol? at hsymbol
        split at hsymbol
        · rfl
        · rfl
        · rfl
        · rfl
        · rfl
        · cases hsymbol
      exact .one (some t) hquotes fun rest => by rw [step, hsymbol]
  | none =>
      by_cases hspace : isSpace c = true
      · exact .one none (not_opensQuotes_of (by decide) hspace) fun rest => by
          rw [step, hsymbol]; simp [hspace]
      by_cases hdash : c = '-'
      · exact .dash hdash fun rest => by subst hdash; rfl
      by_cases hslash : c = '/'
      · exact .slash hslash fun rest => by subst hslash; rfl
      by_cases hhash : c = '#'
      · exact .hash hhash fun rest => by subst hhash; rfl
      by_cases hname : c = '"' ∨ c = '`'
      · exact .name hname fun rest => by
          rw [step, hsymbol]; simp [hspace, hdash, hslash, hhash, hname]
      have hnot := not_or.1 hname
      by_cases hbracket : c = '['
      · exact .bracket hbracket fun rest => by subst hbracket; rfl
      by_cases hquote : c = '\''
      · exact .literal hquote fun rest => by subst hquote; rfl
      by_cases hdigit : isAsciiDigit c = true
      · exact .number hdigit fun rest => by
          rw [step, hsymbol]
          simp [hspace, hdash, hslash, hhash, hnot, hbracket, hquote, hdigit]
      by_cases hword : startsWord c = true
      · exact .word hword fun rest => by
          rw [step, hsymbol]
          simp [hspace, hdash, hslash, hhash, hnot, hbracket, hquote, hdigit, hword]
      have hquotes : opensQuotes c = false := by
        simp [opensQuotes, hnot, hbracket, hquote]
      exact .one none hquotes fun rest => by
        rw [step, hsymbol]
        simp [hspace, hdash, hslash, hhash, hnot, hbracket, hquote, hdigit, hword]

/-! ### No scanner looks far ahead -/

/-- A line comment that ends inside a text ends there whatever follows. -/
theorem afterLine_append {s : List Char} (h : afterLine s ≠ []) (more : List Char) :
    afterLine (s ++ more) = afterLine s ++ more := by
  -- The line break that ends the comment stands in the text itself.
  fun_induction afterLine s <;> grind [afterLine]

/-- A block comment goes on where `*` and `/` do not meet. -/
theorem afterBlock_cons {c : Char} {rest : List Char} (h : c = '*' → rest.head? ≠ some '/') :
    afterBlock (c :: rest) = afterBlock rest := by
  rw [afterBlock]
  rintro more rfl rfl
  exact h rfl rfl

/-- A block comment that is closed inside a text is closed there whatever follows: the star in front
of its end and the slash behind it both stand in the text. -/
theorem afterBlock_append {s : List Char} (h : afterBlock s ≠ []) (more : List Char) :
    afterBlock (s ++ more) = afterBlock s ++ more := by
  fun_induction afterBlock s with
  | case1 => exact absurd rfl h
  | case2 rest => rfl
  | case3 c rest hend ih =>
      have hne : rest ≠ [] := by
        rintro rfl
        exact h rfl
      -- The comment goes on here, so what follows the text cannot close it at this place.
      have hcons : c = '*' → (rest ++ more).head? ≠ some '/' := by
        intro hc hhead
        cases rest with
        | nil => exact hne rfl
        | cons d rest => exact hend rest hc (by simpa using hhead)
      rw [List.cons_append, afterBlock_cons hcons, ih h]

/-- Quotes that are closed inside a text are read the same whatever follows. Only one thing is
looked at behind the mark that closes them, namely whether a second mark follows, and since
something is left that character is in the text too. -/
theorem readQuoted_append {mark : Char} {escapes : Bool} {s : List Char}
    (h : (readQuoted mark escapes s).2 ≠ []) (more : List Char) :
    readQuoted mark escapes (s ++ more) =
      ((readQuoted mark escapes s).1, (readQuoted mark escapes s).2 ++ more) := by
  fun_induction readQuoted mark escapes s with
  | case1 => exact absurd rfl h
  | case2 c hc => exact absurd rfl h
  | case3 c hc d rest hd ih =>
      obtain rfl : c = mark := by simpa using hc
      obtain rfl : d = c := by simpa using hd
      exact readQuoted_mark_mark.trans (congrArg (consRead _) (ih h))
  | case4 c hc d rest hd =>
      obtain rfl : c = mark := by simpa using hc
      -- The text goes on, so it says itself that no second mark follows.
      exact readQuoted_close (by simpa using hd)
  | case5 c hc hescape => exact absurd rfl h
  | case6 c hc hescape d rest ih =>
      obtain ⟨rfl, rfl⟩ : c = '\\' ∧ escapes = true := by simpa using hescape
      have hmark : mark ≠ '\\' := fun h => hc (by simp [h])
      exact (readQuoted_escape hmark d).trans (congrArg (consRead _) (ih h))
  | case7 c rest hc hescape ih =>
      have hne : escapes = true → c ≠ '\\' := by
        rintro rfl rfl
        exact hescape rfl
      exact (readQuoted_other (by simpa using hc) hne).trans (congrArg (consRead _) (ih h))

/-- A number that ends inside a text ends there whatever follows. -/
theorem readDigits_append_of_ne_nil {dotted : Bool} {s : List Char}
    (h : (readDigits dotted s).2 ≠ []) (more : List Char) :
    readDigits dotted (s ++ more) = ((readDigits dotted s).1, (readDigits dotted s).2 ++ more) := by
  fun_induction readDigits dotted s <;> grind [readDigits, consRead]

/-- A run of characters that ends inside a text ends there whatever follows. -/
theorem takeWhile_dropWhile_append {p : Char → Bool} {s : List Char} (h : s.dropWhile p ≠ [])
    (more : List Char) :
    (s ++ more).takeWhile p = s.takeWhile p ∧ (s ++ more).dropWhile p = s.dropWhile p ++ more := by
  induction s with
  | nil => exact absurd rfl h
  | cons c s ih =>
      by_cases hc : p c = true
      · rw [List.dropWhile_cons_of_pos hc] at h
        obtain ⟨htake, hdrop⟩ := ih h
        simp [hc, htake, hdrop]
      · simp [hc]

/-- Behind a dash stands a comment, a number or anything else, and which of them it is the next
character tells. -/
theorem stepDash_append {rest : List Char} (h : (stepDash rest).2 ≠ []) (more : List Char) :
    stepDash (rest ++ more) = ((stepDash rest).1, (stepDash rest).2 ++ more) := by
  cases rest with
  | nil => exact absurd rfl h
  | cons d rest =>
      rw [List.cons_append]
      unfold stepDash at h ⊢
      dsimp only at h ⊢
      split_ifs at h ⊢
      · rw [afterLine_append h]
      · rw [← List.cons_append, readDigits_append_of_ne_nil h]
      · rfl

/-- Behind a slash stands a block comment or anything else. -/
theorem stepSlash_append {rest : List Char} (h : stepSlash rest ≠ []) (more : List Char) :
    stepSlash (rest ++ more) = stepSlash rest ++ more := by
  unfold stepSlash at h ⊢
  split at h
  · exact afterBlock_append h more
  · rename_i hstar
    split
    · rename_i heq
      cases rest with
      | nil => exact absurd rfl h
      | cons d rest =>
          obtain ⟨rfl, -⟩ := List.cons.inj heq
          exact absurd rfl (hstar rest)
    · rfl

/-- A name in brackets is quoted by them, unless they are empty. -/
theorem stepBracket_other {s : List Char} (h : s.head? ≠ some ']') : stepBracket s =
    (String.ofList (readQuoted ']' false s).1, (readQuoted ']' false s).2) := by
  unfold stepBracket
  split
  · exact absurd rfl h
  · rfl

/-- A name in brackets that is closed inside a text is read the same whatever follows. The empty
brackets are read on their own. -/
theorem stepBracket_append {rest : List Char} (h : (stepBracket rest).2 ≠ []) (more : List Char) :
    stepBracket (rest ++ more) = ((stepBracket rest).1, (stepBracket rest).2 ++ more) := by
  unfold stepBracket at h ⊢
  split at h
  · rfl
  · rename_i hclose
    split
    · rename_i heq
      cases rest with
      | nil => exact absurd rfl h
      | cons d rest =>
          obtain ⟨rfl, -⟩ := List.cons.inj heq
          exact absurd rfl (hclose rest)
    · rw [readQuoted_append h]

/-- A round that does not reach the end of the text is the same whatever follows. -/
theorem step_append {c : Char} {rest : List Char} (h : (step c rest).2 ≠ []) (more : List Char) :
    step c (rest ++ more) = ((step c rest).1, (step c rest).2 ++ more) := by
  -- In each kind of round, what has stopped before the end of the text stops at the same place in
  -- the longer one.
  cases kind c with
  | one t _ hstep => rw [hstep, hstep]
  | dash _ hstep =>
      rw [hstep] at h ⊢
      rw [hstep, stepDash_append h]
  | slash _ hstep =>
      rw [hstep] at h ⊢
      rw [hstep, stepSlash_append h]
  | hash _ hstep =>
      rw [hstep] at h ⊢
      rw [hstep, afterLine_append h]
  | name _ hstep =>
      rw [hstep] at h ⊢
      rw [hstep, readQuoted_append h]
  | bracket _ hstep =>
      rw [hstep] at h ⊢
      rw [hstep, stepBracket_append h]
  | literal _ hstep =>
      rw [hstep] at h ⊢
      rw [hstep, readQuoted_append h]
  | number _ hstep =>
      rw [hstep] at h ⊢
      rw [hstep, readDigits_append_of_ne_nil h]
  | word _ hstep =>
      rw [hstep] at h ⊢
      obtain ⟨htake, hdrop⟩ := takeWhile_dropWhile_append h more
      rw [hstep, htake, hdrop]

/-- A run that does not reach the end of the text is the same whatever follows. -/
theorem Reads.append {s left : List Char} {rounds : List Round} (h : Reads s rounds left)
    (hleft : left ≠ []) (more : List Char) : Reads (s ++ more) rounds (left ++ more) := by
  induction h with
  | done s => exact .done _
  | @round c text left s t rounds hstep h ih =>
      -- Only the last round could reach the end, and it leaves something.
      have hne : left ≠ [] := by
        rintro rfl
        cases h
        exact hleft rfl
      have hstep' : step c (text ++ (left ++ more)) = (t, left ++ more) := by
        rw [← List.append_assoc, step_append (by rwa [hstep]), hstep]
      have hrun := Reads.round hstep' (ih hleft)
      rwa [← List.append_assoc] at hrun

/-! ### Computing a run -/

/-- An end of a text is an end of the text with two more characters in front. -/
theorem suffix_cons_cons {s t : List Char} (h : s <:+ t) (c d : Char) : s <:+ c :: d :: t :=
  (h.trans (List.suffix_cons d t)).trans (List.suffix_cons c (d :: t))

/-- A line comment leaves an end of the text. -/
theorem afterLine_suffix (s : List Char) : afterLine s <:+ s := by
  fun_induction afterLine s with
  | case1 => exact List.suffix_refl _
  | case2 => exact List.suffix_cons _ _
  | case3 c rest _ ih => exact ih.trans (List.suffix_cons _ _)

/-- A block comment leaves an end of the text, which is empty if it is not closed. -/
theorem afterBlock_suffix (s : List Char) : afterBlock s <:+ s := by
  fun_induction afterBlock s with
  | case1 => exact List.suffix_refl _
  | case2 => exact suffix_cons_cons (List.suffix_refl _) _ _
  | case3 c rest _ ih => exact ih.trans (List.suffix_cons _ _)

/-- Quotes leave an end of the text, which is empty if they are not closed. -/
theorem readQuoted_suffix (mark : Char) (escapes : Bool) (s : List Char) :
    (readQuoted mark escapes s).2 <:+ s := by
  fun_induction readQuoted mark escapes s with
  | case1 => exact List.suffix_refl _
  | case2 => exact List.nil_suffix
  | case3 c _ d rest _ ih => exact suffix_cons_cons ih _ _
  | case4 => exact List.suffix_cons _ _
  | case5 => exact List.nil_suffix
  | case6 c _ _ d rest ih => exact suffix_cons_cons ih _ _
  | case7 c rest _ _ ih => exact ih.trans (List.suffix_cons _ _)

/-- The digits of a number are taken from the front of the text. -/
theorem readDigits_suffix (dotted : Bool) (s : List Char) : (readDigits dotted s).2 <:+ s := by
  fun_induction readDigits dotted s with
  | case1 => exact List.suffix_refl _
  | case2 dotted c rest _ ih => exact ih.trans (List.suffix_cons _ _)
  | case3 dotted c rest _ _ ih => exact ih.trans (List.suffix_cons _ _)
  | case4 => exact List.suffix_refl _

/-- A dash leaves what the comment or the number behind it leaves. -/
theorem stepDash_suffix (rest : List Char) : (stepDash rest).2 <:+ rest := by
  unfold stepDash
  split
  · exact List.suffix_refl _
  · split
    · exact (afterLine_suffix _).trans (List.suffix_cons _ _)
    · split
      · exact readDigits_suffix _ _
      · exact List.suffix_refl _

/-- A slash leaves what the comment behind it leaves, or all that follows. -/
theorem stepSlash_suffix (rest : List Char) : stepSlash rest <:+ rest := by
  unfold stepSlash
  split
  · exact (afterBlock_suffix _).trans (List.suffix_cons _ _)
  · exact List.suffix_refl _

/-- A name in brackets leaves an end of the text, like other names in quotes. -/
theorem stepBracket_suffix (rest : List Char) : (stepBracket rest).2 <:+ rest := by
  unfold stepBracket
  split
  · exact List.suffix_cons _ _
  · exact readQuoted_suffix _ _ _

/-- What a round leaves is an end of the text. -/
theorem step_suffix (c : Char) (rest : List Char) : (step c rest).2 <:+ rest := by
  cases kind c with
  | one t _ hstep => exact ⟨[], congrArg Prod.snd (hstep rest)⟩
  | dash _ hstep => rw [hstep]; exact stepDash_suffix rest
  | slash _ hstep => rw [hstep]; exact stepSlash_suffix rest
  | hash _ hstep => rw [hstep]; exact afterLine_suffix rest
  | name _ hstep => rw [hstep]; exact readQuoted_suffix _ _ rest
  | bracket _ hstep => rw [hstep]; exact stepBracket_suffix rest
  | literal _ hstep => rw [hstep]; exact readQuoted_suffix _ _ rest
  | number _ hstep => rw [hstep]; exact readDigits_suffix _ rest
  | word _ hstep => rw [hstep]; exact List.dropWhile_suffix _

/-- The first `n` rounds on a text, and what they leave. A round reads one token or steps over
something that is none. -/
def advance : (n : Nat) → List Char → List Round × List Char
  | 0, s => ([], s)
  | _ + 1, [] => ([], [])
  | n + 1, c :: rest =>
    let read := step c rest
    let more := advance n read.2
    (⟨c :: rest.take (rest.length - read.2.length), read.1⟩ :: more.1, more.2)

/-- The rounds that are computed are a run. -/
theorem reads_advance (n : Nat) (s : List Char) : Reads s (advance n s).1 (advance n s).2 := by
  induction n generalizing s with
  | zero => exact .done s
  | succ n ih =>
      cases s with
      | nil => exact .done []
      | cons c rest =>
          obtain ⟨text, htext⟩ := step_suffix c rest
          have htake : rest.take (rest.length - (step c rest).2.length) = text := by
            -- What the round consumed is as long as what is missing at the end.
            have hlength := congrArg List.length htext
            rw [List.length_append] at hlength
            have heq : rest.length - (step c rest).2.length = text.length := by omega
            rw [heq]
            conv => lhs; rw [← htext]
            exact List.take_left
          have hstep : step c (text ++ (step c rest).2) = ((step c rest).1, (step c rest).2) := by
            rw [htext]
          have hrun := Reads.round hstep (ih (step c rest).2)
          rw [htext] at hrun
          simpa [advance, htake] using hrun

/-- Rounds that leave the expected text are a run up to it. -/
theorem reads_of_advance {n : Nat} {s left : List Char} (h : (advance n s).2 = left) :
    Reads s (advance n s).1 left := h ▸ reads_advance n s

end EntityDiagram.Ddl.Token
