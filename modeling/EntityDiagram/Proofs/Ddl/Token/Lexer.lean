import EntityDiagram.Ddl.Token.Lexer
import EntityDiagram.Proofs.Text.Space

/-!
# `EntityDiagram.Proofs.Ddl.Token.Lexer`: what the lexer reads at the front of a text

`tokens` reads a text in rounds, and `tokens_of_step` puts one of them in front of the others.
What a round reads is stated once for every kind of front: white space (`step_space`), symbols
(`step_symbol`), words (`step_asciiWord`), quoted names (`step_quotedName`), literals
(`step_literal`) and numbers (`step_number`). The marks in a quoted text have to be doubled, and a
word, number or closing mark must not be continued by what comes after it.

Rounds that read a character and nothing else are computed. The others run a scanner, and each
scanner has a lemma about a text of which it takes a known part: `readQuoted` on a text with doubled
marks, `takeWhile` on a word, `readDigits` on a number. What may follow is always a condition on the
first character behind, which is how the lemmas are put together to a run over a whole statement in
`EntityDiagram.Proofs.Ddl.Spelling`.
-/

set_option autoImplicit false

namespace EntityDiagram.Ddl.Token

open Text (isSpace isAsciiDigit isAsciiLetter isPlain startsPlain doubleQuotes)

/-! ### Rounds -/

/-- The end of a text is the last token. -/
theorem tokens_nil : tokens [] = [.eof] := by
  rw [tokens]

/-- The tokens of a text are that of the first round, if it reads one, and those of what it
leaves. -/
theorem tokens_cons (c : Char) (rest : List Char) :
    tokens (c :: rest) = (step c rest).1.toList ++ tokens (step c rest).2 := by
  rw [tokens]
  split <;> simp [*]

/-- A round whose outcome is known. -/
theorem tokens_of_step {c : Char} {rest left : List Char} {t : Option Token}
    (h : step c rest = (t, left)) : tokens (c :: rest) = t.toList ++ tokens left := by
  rw [tokens_cons, h]

/-! ### White space and symbols -/

/-- White space is no symbol. -/
theorem symbol?_of_isSpace {c : Char} (h : isSpace c = true) : symbol? c = none := by
  unfold symbol?
  split <;> first
    | rfl
    | exact absurd h (by decide)

/-- White space is skipped. -/
theorem step_space {c : Char} (h : isSpace c = true) (rest : List Char) :
    step c rest = (none, rest) := by
  rw [step, symbol?_of_isSpace h]
  simp [h]

/-- A symbol is a token. -/
theorem step_symbol {c : Char} {t : Token} (h : symbol? c = some t) (rest : List Char) :
    step c rest = (some t, rest) := by
  rw [step, h]

/-- A symbol is a token by itself. -/
theorem tokens_symbol {c : Char} {t : Token} (h : symbol? c = some t) (s : List Char) :
    tokens (c :: s) = t :: tokens s :=
  tokens_of_step (step_symbol h s)

/-! ### Words -/

/-- Whether an ASCII word may start with the character. -/
def startsAsciiWord (c : Char) : Bool := isAsciiLetter c || c == '_'

/-- A character that starts an ASCII word starts nothing else, and continues a word. -/
theorem startsAsciiWord_facts {c : Char} (h : startsAsciiWord c = true) :
    symbol? c = none ∧ isSpace c = false ∧ c ∉ ['-', '/', '#', '"', '`', '[', '\''] ∧
      isAsciiDigit c = false ∧ startsWord c = true ∧ continuesWord c = true := by
  have hascii : Text.isAscii c = true := by
    simp only [startsAsciiWord, isAsciiLetter, Bool.or_eq_true, Bool.and_eq_true,
      decide_eq_true_eq, beq_iff_eq] at h
    have hle : c ≤ 'z' := by
      rcases h with (⟨-, h⟩ | ⟨-, h⟩) | rfl
      · exact h
      · exact Char.le_trans h (by decide)
      · decide
    have hlt : c.toNat < 128 := Nat.lt_of_le_of_lt (Char.le_def.1 hle) (by decide)
    simpa [Text.isAscii] using hlt
  -- There are only 128 characters left, and all of them are looked at.
  have key : startsAsciiWord c = true → symbol? c = none ∧ isSpace c = false ∧
      c ∉ ['-', '/', '#', '"', '`', '[', '\''] ∧ isAsciiDigit c = false ∧ startsWord c = true ∧
        continuesWord c = true :=
    Text.forall_ascii (p := fun c => startsAsciiWord c = true → symbol? c = none ∧
      isSpace c = false ∧ c ∉ ['-', '/', '#', '"', '`', '[', '\''] ∧ isAsciiDigit c = false ∧
        startsWord c = true ∧ continuesWord c = true) (by decide) hascii
  exact key h

/-- A plain word starts as an ASCII word does. -/
theorem startsAsciiWord_of_startsPlain {c : Char} (h : startsPlain c = true) :
    startsAsciiWord c = true := by
  rw [startsPlain] at h
  rw [startsAsciiWord, isAsciiLetter, Bool.or_assoc, h, Bool.or_true]

/-- So does what equals a plain word without regard to case. -/
theorem startsAsciiWord_of_eqIgnoreCase {u w : String} (hw : w.toList.all startsPlain = true)
    (h : Text.eqIgnoreCase u w = true) : ∀ c ∈ u.toList, startsAsciiWord c = true := by
  intro c hc
  obtain ⟨d, hd, hcd⟩ := Text.exists_rel_of_mem (Text.eqIgnoreCase_iff_forall₂.1 h).flip hc
  have hstart : startsPlain d = true := List.all_eq_true.1 hw d hd
  obtain ⟨hascii, hupper, -⟩ := Text.upper_of_toLower (Text.isPlain_of_startsPlain hstart) hcd
  have key : startsPlain c.toUpper = true → startsAsciiWord c = true :=
    Text.forall_ascii (p := fun c => startsPlain c.toUpper = true → startsAsciiWord c = true)
      (by decide) hascii
  exact key (hupper ▸ hstart)

/-- White space ends a word. -/
theorem continuesWord_of_isSpace {c : Char} (h : isSpace c = true) : continuesWord c = false := by
  have hmark := Text.forall_isSpace (p := fun c => (c == '_' || c == '$') = false) (by decide) h
  rw [continuesWord, Bool.or_assoc, Text.isAlphanumeric_of_isSpace h, hmark, Bool.or_false]

/-- A plain character continues a word. -/
theorem continuesWord_of_isPlain {c : Char} (h : isPlain c = true) : continuesWord c = true := by
  have key : isPlain c = true → continuesWord c = true :=
    Text.forall_ascii (p := fun c => isPlain c = true → continuesWord c = true) (by decide)
      (Text.isAscii_of_isPlain h)
  exact key h

/-- An ASCII word is one token, if what follows does not continue it. Whether it is a keyword or a
name is decided by the whole of it. -/
theorem step_asciiWord {c : Char} (hc : startsAsciiWord c = true) {w : List Char}
    (hw : ∀ d ∈ w, continuesWord d = true) {s : List Char}
    (hs : ∀ d ∈ s.head?, continuesWord d = false) :
    step c (w ++ s) = (some (ofWord (c :: w)), s) := by
  obtain ⟨hsymbol, hspace, hmark, hdigit, hstart, -⟩ := startsAsciiWord_facts hc
  -- The word is what `takeWhile` takes: all of it continues, and what follows does not.
  have htake : (w ++ s).takeWhile continuesWord = w := by
    rw [List.takeWhile_append_of_pos hw]
    cases s with
    | nil => simp
    | cons d s => rw [List.takeWhile_cons_of_neg (by simp [hs d (by simp)]), List.append_nil]
  have hdrop : (w ++ s).dropWhile continuesWord = s := by
    rw [List.dropWhile_append_of_pos hw]
    cases s with
    | nil => simp
    | cons d s => rw [List.dropWhile_cons_of_neg (by simp [hs d (by simp)])]
  simp only [List.mem_cons, not_or] at hmark
  obtain ⟨h₁, h₂, h₃, h₄, h₅, h₆, h₇, -⟩ := hmark
  rw [step, hsymbol]
  simp [hspace, hdigit, hstart, htake, hdrop, h₁, h₂, h₃, h₄, h₅, h₆, h₇]

/-- A plain word is one token, if what follows does not continue it. -/
theorem step_word {c : Char} {w : List Char} (hw : Text.isPlainWord (c :: w) = true)
    {s : List Char} (hs : ∀ d ∈ s.head?, continuesWord d = false) :
    step c (w ++ s) = (some (ofWord (c :: w)), s) := by
  rw [Text.isPlainWord, Bool.and_eq_true, List.all_eq_true] at hw
  exact step_asciiWord (startsAsciiWord_of_startsPlain hw.1)
    (fun d hd => continuesWord_of_isPlain (hw.2 d hd)) hs

/-! ### Quoted names and literals -/

section readQuoted

variable {mark : Char} {escapes : Bool} {s : List Char}

/-- A doubled mark stands for itself. -/
theorem readQuoted_mark_mark :
    readQuoted mark escapes (mark :: mark :: s) = consRead mark (readQuoted mark escapes s) := by
  rw [readQuoted]
  simp

/-- A single mark closes the quotes. -/
theorem readQuoted_close (hs : s.head? ≠ some mark) :
    readQuoted mark escapes (mark :: s) = ([], s) := by
  cases s with
  | nil => simp [readQuoted]
  | cons d s =>
      have hd : d ≠ mark := by simpa using hs
      simp [readQuoted, hd]

/-- A backslash escapes what follows. -/
theorem readQuoted_escape (hmark : mark ≠ '\\') (d : Char) :
    readQuoted mark true ('\\' :: d :: s) = consRead (unescape d) (readQuoted mark true s) := by
  rw [readQuoted]
  simp [hmark.symm]

/-- Any other character stands for itself. -/
theorem readQuoted_other {c : Char} (hc : c ≠ mark) (hslash : escapes = true → c ≠ '\\') :
    readQuoted mark escapes (c :: s) = consRead c (readQuoted mark escapes s) := by
  have hescape : (c == '\\' && escapes) = false := by
    cases escapes with
    | false => simp
    | true => simpa using hslash rfl
  -- By the definition, since the equations would split on the rest of the text.
  rw [readQuoted.eq_def]
  dsimp only
  rw [if_neg (by simpa using hc), if_neg (by simp [hescape])]

end readQuoted

/-- Each character of a quoted text is doubled by itself. -/
theorem doubleQuotes_cons (mark c : Char) (s : List Char) :
    doubleQuotes mark (c :: s) =
      (if c = mark then [mark, mark] else [c]) ++ doubleQuotes mark s := by
  simp [doubleQuotes]

/-- A text without the mark is not changed by doubling it. -/
theorem doubleQuotes_eq_self {mark : Char} {s : List Char} (h : mark ∉ s) :
    doubleQuotes mark s = s := by
  induction s with
  | nil => rfl
  | cons c s ih =>
      rw [List.mem_cons, not_or] at h
      rw [doubleQuotes_cons, if_neg (Ne.symm h.1), ih h.2]
      rfl

/-- A name whose marks are doubled is read up to its closing mark. -/
theorem readQuoted_doubled {mark : Char} (name : List Char) {s : List Char}
    (hs : s.head? ≠ some mark) :
    readQuoted mark false (doubleQuotes mark name ++ mark :: s) = (name, s) := by
  induction name with
  | nil => exact readQuoted_close hs
  | cons c name ih =>
      rw [doubleQuotes_cons]
      by_cases hc : c = mark
      · rw [if_pos hc, hc, List.append_assoc]
        exact readQuoted_mark_mark.trans (congrArg (consRead _) ih)
      · rw [if_neg hc, List.append_assoc]
        exact (readQuoted_other hc (by simp)).trans (congrArg (consRead _) ih)

/-- A quoted name is one token, if no further mark follows. -/
theorem step_quotedName {mark : Char} (hmark : mark = '`' ∨ mark = '"') (name : List Char)
    {s : List Char} (hs : s.head? ≠ some mark) :
    step mark (doubleQuotes mark name ++ mark :: s) = (some (.name (String.ofList name)), s) := by
  have hsymbol : symbol? mark = none ∧ isSpace mark = false := by
    rcases hmark with rfl | rfl <;> decide
  rw [step, hsymbol.1]
  rcases hmark with rfl | rfl <;> simp [hsymbol.2, readQuoted_doubled name hs]

/-- A literal in which quotes and backslashes are doubled. -/
def escaped (s : List Char) : List Char := doubleQuotes '\'' (doubleQuotes '\\' s)

/-- Each character of a literal is doubled by itself. -/
theorem escaped_cons (c : Char) (s : List Char) :
    escaped (c :: s) = (if c = '\'' ∨ c = '\\' then [c, c] else [c]) ++ escaped s := by
  by_cases hquote : c = '\''
  · subst hquote
    simp [escaped, doubleQuotes]
  · by_cases hslash : c = '\\'
    · subst hslash
      simp [escaped, doubleQuotes]
    · simp [escaped, doubleQuotes, hquote, hslash]

/-- A literal whose quotes and backslashes are doubled is read up to its closing quote. -/
theorem readQuoted_escaped (text : List Char) {s : List Char} (hs : s.head? ≠ some '\'') :
    readQuoted '\'' true (escaped text ++ '\'' :: s) = (text, s) := by
  induction text with
  | nil => exact readQuoted_close hs
  | cons c text ih =>
      rw [escaped_cons, List.append_assoc]
      by_cases hquote : c = '\''
      · rw [if_pos (.inl hquote), hquote]
        exact readQuoted_mark_mark.trans (congrArg (consRead _) ih)
      · by_cases hslash : c = '\\'
        · rw [if_pos (.inr hslash), hslash]
          exact (readQuoted_escape (by decide) '\\').trans (congrArg (consRead _) ih)
        · rw [if_neg (by simp [hquote, hslash])]
          exact (readQuoted_other hquote fun _ => hslash).trans (congrArg (consRead _) ih)

/-- A literal is one token, if no further quote follows. -/
theorem step_literal (text : List Char) {s : List Char} (hs : s.head? ≠ some '\'') :
    step '\'' (escaped text ++ '\'' :: s) = (some (.text (String.ofList text)), s) := by
  have hsymbol : symbol? '\'' = none ∧ isSpace '\'' = false := by decide
  rw [step, hsymbol.1]
  simp [hsymbol.2, readQuoted_escaped text hs]

/-! ### Numbers -/

/-- A digit starts a number and nothing else. -/
theorem isAsciiDigit_facts {c : Char} (h : isAsciiDigit c = true) :
    symbol? c = none ∧ isSpace c = false ∧ c ∉ ['-', '/', '#', '"', '`', '[', '\''] := by
  have hascii : Text.isAscii c = true := Text.isAscii_of_isPlain (by simp [isPlain, h])
  have key : isAsciiDigit c = true →
      symbol? c = none ∧ isSpace c = false ∧ c ∉ ['-', '/', '#', '"', '`', '[', '\''] :=
    Text.forall_ascii (p := fun c => isAsciiDigit c = true →
      symbol? c = none ∧ isSpace c = false ∧ c ∉ ['-', '/', '#', '"', '`', '[', '\''])
      (by decide) hascii
  exact key h

/-- Digits are read up to the first character that is neither a digit nor a dot. -/
theorem readDigits_append {ds : List Char} (hds : ∀ c ∈ ds, isAsciiDigit c = true) {s : List Char}
    (hs : ∀ d ∈ s.head?, isAsciiDigit d = false ∧ d ≠ '.') :
    readDigits false (ds ++ s) = (ds, s) := by
  induction ds with
  | nil =>
      cases s with
      | nil => rfl
      | cons d s =>
          obtain ⟨hdigit, hdot⟩ := hs d (by simp)
          simp [readDigits, hdigit, hdot]
  | cons c ds ih =>
      rw [List.cons_append, readDigits, if_pos (hds c (by simp)),
        ih fun d hd => hds d (by simp [hd])]
      rfl

/-- Digits are one token, if neither a digit nor a dot follows. -/
theorem step_number {c : Char} {ds : List Char} (hds : ∀ d ∈ c :: ds, isAsciiDigit d = true)
    {s : List Char} (hs : ∀ d ∈ s.head?, isAsciiDigit d = false ∧ d ≠ '.') :
    step c (ds ++ s) = (some (.number (String.ofList (c :: ds))), s) := by
  have hc := hds c (by simp)
  obtain ⟨hsymbol, hspace, hmark⟩ := isAsciiDigit_facts hc
  simp only [List.mem_cons, not_or] at hmark
  obtain ⟨h₁, h₂, h₃, h₄, h₅, h₆, h₇, -⟩ := hmark
  have hread : readDigits false (ds ++ s) = (ds, s) :=
    readDigits_append (fun d hd => hds d (List.mem_cons_of_mem _ hd)) hs
  rw [step, hsymbol]
  simp [hspace, hc, hread, h₁, h₂, h₃, h₄, h₅, h₆, h₇]

/-! ### The end of a script -/

/-- No round reads the end of the script. -/
theorem step_ne_eof (c : Char) (rest : List Char) : (step c rest).1 ≠ some .eof := by
  have hsymbol : symbol? c ≠ some .eof := by
    unfold symbol?
    split <;> simp
  have hword (w : List Char) : ofWord w ≠ .eof := by
    unfold ofWord
    split <;> simp
  unfold step stepDash
  repeat' split
  all_goals simp_all

/-- The end of the script is the last token and occurs nowhere else. -/
theorem tokens_eq_append_eof (s : List Char) :
    ∃ ts, tokens s = ts ++ [.eof] ∧ Token.eof ∉ ts := by
  induction s using tokens.induct with
  | case1 => exact ⟨[], tokens_nil, by simp⟩
  | case2 c rest read t hread ih =>
      obtain ⟨ts, hts, heof⟩ := ih
      -- No round of the lexer gives the end token. It is only added when the text is used up.
      have hne : t ≠ .eof := by
        rintro rfl
        exact step_ne_eof c rest hread
      refine ⟨t :: ts, ?_, by simp [heof, hne.symm]⟩
      rw [tokens_cons, hts, hread]
      rfl
  | case3 c rest read hread ih =>
      obtain ⟨ts, hts, heof⟩ := ih
      refine ⟨ts, ?_, heof⟩
      rw [tokens_cons, hts, hread]
      rfl

end EntityDiagram.Ddl.Token
