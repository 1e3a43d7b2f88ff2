import EntityDiagram.Proofs.Ddl.Spelling
import EntityDiagram.Proofs.Sql.Name
import EntityDiagram.Proofs.Text.Space
import Mathlib.Data.List.Forall2

/-!
# `EntityDiagram.Proofs.Ddl.PlainLexeme`: plain notation and the space in it

Most scripts use little of what the readers understand: upper-case words, names in backticks,
numbers and four symbols. These are `PlainLexeme`s, and `Spaced ls s` says that the text `s`
consists of the lexemes `ls` with any white space around them, where two words do not touch.

* `Spaced.exists_cons`, `Spaced.exists_append`, `Spaced.exists_joinWith`: such a text is taken
  apart along its lexemes.
* `Spaced.trim`: white space around it can be trimmed.
* `Spaced.tokens_eq`: the tokens of the text are those of the lexemes.

Plain notation is what all three backends read alike, and the modules on it come in pairs, for
tokens and for patterns. They share the texts of this module: `Spaced` is stated for characters and
mentions neither tokens nor patterns. White space may be missing wherever two lexemes can be told
apart without it, so that `a,b` and `a , b` are both spaced texts of three lexemes.
-/

set_option autoImplicit false

namespace EntityDiagram.Ddl

open Text (isSpace isWordChar isAsciiDigit isAsciiLetter isPlain)
open Token (tokens continuesWord)

/-! ### Lexemes -/

/-- Whether the character may stand in a plain name. -/
def isNameChar (c : Char) : Bool := isAsciiLetter c || isAsciiDigit c || c == '_' || c == '$'

/-- A name that is written in backticks: a word of ASCII letters, digits, `_` and `$`. -/
structure QuotedName where
  text : String
  nonempty : text.toList ≠ []
  isName : text.toList.all isNameChar = true
deriving DecidableEq, Repr

/-- A number as it is written: any digits. -/
structure Numeral where
  digits : List Char
  nonempty : digits ≠ []
  isDigits : digits.all isAsciiDigit = true
deriving DecidableEq, Repr

/-- A lexeme of a plain statement. -/
inductive PlainLexeme where
  | keyword (k : Keyword)
  | word (w : PlainName) (isWord : w.text.toList.all isWordChar = true)
  | name (n : QuotedName)
  | numeral (n : Numeral)
  | openParen
  | closeParen
  | comma
  | semicolon
deriving DecidableEq, Repr

namespace PlainLexeme

/-- The characters of a lexeme. -/
def chars : PlainLexeme → List Char
  | .keyword k => k.word.toList
  | .word w _ => w.text.toList
  | .name n => '`' :: (n.text.toList ++ ['`'])
  | .numeral n => n.digits
  | .openParen => ['(']
  | .closeParen => [')']
  | .comma => [',']
  | .semicolon => [';']

/-- The token of a lexeme. -/
def token : PlainLexeme → Token
  | .keyword k => .keyword k
  | .word w _ => .name w.text
  | .name n => .name n.text
  | .numeral n => .number (String.ofList n.digits)
  | .openParen => .openParen
  | .closeParen => .closeParen
  | .comma => .comma
  | .semicolon => .semicolon

/-- Whether the lexeme is a word, a name or a number, which another such lexeme may not touch. -/
def isWord : PlainLexeme → Bool
  | .keyword _ | .word _ _ | .name _ | .numeral _ => true
  | _ => false

/-- The lexemes of the parts with a comma between neighbours. -/
def separated : List (List PlainLexeme) → List PlainLexeme
  | [] => []
  | [part] => part
  | part :: next :: more => part ++ .comma :: separated (next :: more)

/-- The lexemes of a list of names in parentheses. -/
def nameList (ns : List QuotedName) : List PlainLexeme :=
  .openParen :: separated (ns.map fun n => [.name n]) ++ [.closeParen]

/-- The lexemes of the name of a constraint, if it has one. -/
def constraintClause : Option QuotedName → List PlainLexeme
  | none => []
  | some n => [.keyword .constraint, .name n]

/-- Between commas stand the lexemes of the parts. -/
theorem mem_separated {l : PlainLexeme} {parts : List (List PlainLexeme)}
    (h : l ∈ separated parts) : l = .comma ∨ ∃ part ∈ parts, l ∈ part := by
  induction parts with
  | nil => cases h
  | cons part parts ih =>
      cases parts with
      | nil => exact .inr ⟨part, by simp, h⟩
      | cons next more =>
          rw [separated, List.mem_append, List.mem_cons] at h
          rcases h with h | rfl | h
          · exact .inr ⟨part, by simp, h⟩
          · exact .inl rfl
          · exact (ih h).imp_right fun ⟨p, hp, hl⟩ => ⟨p, List.mem_cons_of_mem _ hp, hl⟩

/-- Commas are no keywords. -/
theorem ne_keyword_of_mem_separated {k : Keyword} {parts : List (List PlainLexeme)}
    (h : ∀ part ∈ parts, ∀ l ∈ part, l ≠ .keyword k) : ∀ l ∈ separated parts, l ≠ .keyword k := by
  intro l hl
  rcases mem_separated hl with rfl | ⟨part, hpart, hl⟩
  · simp
  · exact h part hpart l hl

/-- There is no keyword in a list of names. -/
theorem ne_keyword_of_mem_nameList {k : Keyword} {ns : List QuotedName} :
    ∀ l ∈ nameList ns, l ≠ .keyword k := by
  have hinner : ∀ l ∈ separated (ns.map fun n => [.name n]), l ≠ .keyword k :=
    ne_keyword_of_mem_separated (by simp)
  rw [nameList, List.forall_mem_append, List.forall_mem_cons]
  exact ⟨⟨by simp, hinner⟩, by simp⟩

/-- The name of a constraint starts with the only keyword in it. -/
theorem ne_keyword_of_mem_constraintClause {k : Keyword} (hk : k ≠ .constraint)
    {name : Option QuotedName} : ∀ l ∈ constraintClause name, l ≠ .keyword k := by
  cases name with
  | none => simp [constraintClause]
  | some n => simpa [constraintClause] using Ne.symm hk

end PlainLexeme

/-! ### Characters -/

/-- A character of a name is an ASCII character. -/
theorem isAscii_of_isNameChar {c : Char} (h : isNameChar c = true) : Text.isAscii c = true := by
  have hlt : c.toNat < 128 := by
    simp only [isNameChar, isAsciiLetter, isAsciiDigit, Bool.or_eq_true, Bool.and_eq_true,
      decide_eq_true_eq, beq_iff_eq] at h
    rcases h with (((⟨-, h⟩ | ⟨-, h⟩) | ⟨-, h⟩) | rfl) | rfl
    · exact Nat.lt_of_le_of_lt (Char.le_def.1 h) (by decide)
    · exact Nat.lt_of_le_of_lt (Char.le_def.1 h) (by decide)
    · exact Nat.lt_of_le_of_lt (Char.le_def.1 h) (by decide)
    · decide
    · decide
  simpa [Text.isAscii] using hlt

/-- A character of a name is no white space, no quotation mark and no symbol, opens no comment, and
is a character of a word or the dollar sign. -/
theorem isNameChar_facts {c : Char} (h : isNameChar c = true) :
    isSpace c = false ∧ Sql.isQuoteMark c = false ∧ c ∉ ['(', ')', ',', ';', '-', '/'] ∧
      (isWordChar c || c == '$') = true := by
  have key : isNameChar c = true → isSpace c = false ∧ Sql.isQuoteMark c = false ∧
      c ∉ ['(', ')', ',', ';', '-', '/'] ∧ (isWordChar c || c == '$') = true :=
    Text.forall_ascii (p := fun c => isNameChar c = true → isSpace c = false ∧
      Sql.isQuoteMark c = false ∧ c ∉ ['(', ')', ',', ';', '-', '/'] ∧
        (isWordChar c || c == '$') = true) (by decide) (isAscii_of_isNameChar h)
  exact key h

/-- It continues a word, and is not the dot. -/
theorem continuesWord_of_isNameChar {c : Char} (h : isNameChar c = true) :
    continuesWord c = true ∧ c ≠ '.' := by
  have key : isNameChar c = true → continuesWord c = true ∧ c ≠ '.' :=
    Text.forall_ascii (p := fun c => isNameChar c = true → continuesWord c = true ∧ c ≠ '.')
      (by decide) (isAscii_of_isNameChar h)
  exact key h

/-- A character that starts an ASCII word may stand in a name. -/
theorem isNameChar_of_startsAsciiWord {c : Char} (h : Token.startsAsciiWord c = true) :
    isNameChar c = true := by
  rcases Bool.or_eq_true_iff.1 h with h | h <;> simp [isNameChar, h]

/-- A plain character may stand in a name. -/
theorem isNameChar_of_isPlain {c : Char} (h : isPlain c = true) : isNameChar c = true := by
  have key : isPlain c = true → isNameChar c = true :=
    Text.forall_ascii (p := fun c => isPlain c = true → isNameChar c = true) (by decide)
      (Text.isAscii_of_isPlain h)
  exact key h

/-- A plain character is none of the symbols and marks. -/
theorem isPlain_notMem {c : Char} (h : isPlain c = true) :
    c ∉ ['(', ')', ',', ';', '-', '/', '`', '\'', '"'] := by
  intro hmem
  simp only [List.mem_cons, List.not_mem_nil, or_false] at hmem
  rcases hmem with rfl | rfl | rfl | rfl | rfl | rfl | rfl | rfl | rfl <;>
    exact absurd h (by decide)

/-- The characters of a name. -/
theorem QuotedName.isNameChar {n : QuotedName} : ∀ c ∈ n.text.toList, isNameChar c = true :=
  List.all_eq_true.1 n.isName

/-- A digit may stand in a plain word. -/
theorem Numeral.isPlain {n : Numeral} : ∀ c ∈ n.digits, isPlain c = true := fun c hc =>
  Sql.isPlain_of_isAsciiDigit (List.all_eq_true.1 n.isDigits c hc)

namespace PlainLexeme

/-- The characters of a word or number. -/
def run? : PlainLexeme → Option (List Char)
  | .keyword k => some k.word.toList
  | .word w _ => some w.text.toList
  | .numeral n => some n.digits
  | _ => none

/-- The run of a lexeme is all of it, and consists of plain characters of a word. -/
theorem run?_facts {l : PlainLexeme} {r : List Char} (h : l.run? = some r) :
    l.chars = r ∧ r ≠ [] ∧ ∀ c ∈ r, isPlain c = true ∧ isWordChar c = true := by
  have digit {c : Char} (hc : isAsciiDigit c = true) : isWordChar c = true := by
    have key : isAsciiDigit c = true → isWordChar c = true :=
      Text.forall_ascii (p := fun c => isAsciiDigit c = true → isWordChar c = true) (by decide)
        (Text.isAscii_of_isPlain (Sql.isPlain_of_isAsciiDigit hc))
    exact key hc
  -- Words and numbers are runs of their own; symbols and quoted names have none.
  cases l with
  | keyword k =>
      obtain rfl := Option.some.inj h
      have hplain : k.word.toList.all (fun c => isPlain c && isWordChar c) = true ∧
          k.word.toList ≠ [] := by cases k <;> decide
      refine ⟨rfl, hplain.2, fun c hc => ?_⟩
      simpa using List.all_eq_true.1 hplain.1 c hc
  | word w hw =>
      obtain rfl := Option.some.inj h
      refine ⟨rfl, ?_, fun c hc => ⟨Text.forall_isPlain w.isPlain c hc,
        List.all_eq_true.1 hw c hc⟩⟩
      intro hnil
      have := w.isPlain
      rw [hnil] at this
      cases this
  | numeral n =>
      obtain rfl := Option.some.inj h
      exact ⟨rfl, n.nonempty, fun c hc => ⟨n.isPlain c hc,
        digit (List.all_eq_true.1 n.isDigits c hc)⟩⟩
  | _ => cases h

/-- The characters of lexemes are no white space, and none of them opens a comment or a literal. -/
theorem chars_facts (l : PlainLexeme) :
    ∀ c ∈ l.chars, isSpace c = false ∧ c ∉ ['-', '/', '\'', '"'] := by
  have plain {c : Char} (h : isPlain c = true) :
      isSpace c = false ∧ c ∉ ['-', '/', '\'', '"'] := by
    have hnot := isPlain_notMem h
    simp only [List.mem_cons, List.not_mem_nil, or_false, not_or] at hnot ⊢
    exact ⟨(Text.isPlain_facts h).1, by tauto⟩
  intro c hc
  cases l with
  | keyword k => exact plain ((run?_facts (l := .keyword k) rfl).2.2 c hc).1
  | word w hw => exact plain ((run?_facts (l := .word w hw) rfl).2.2 c hc).1
  | numeral n => exact plain (n.isPlain c hc)
  | name n =>
      -- Between its marks, a quoted name has characters of names only.
      simp only [chars, List.mem_cons, List.mem_append, List.not_mem_nil, or_false] at hc
      rcases hc with rfl | hc | rfl
      · decide
      · obtain ⟨hspace, hmark, hnot, -⟩ := isNameChar_facts (n.isNameChar c hc)
        refine ⟨hspace, fun hmem => ?_⟩
        simp only [List.mem_cons, List.not_mem_nil, or_false, not_or] at hmem hnot
        rcases hmem with rfl | rfl | rfl | rfl
        · exact hnot.2.2.2.2.1 rfl
        · exact hnot.2.2.2.2.2 rfl
        · exact absurd hmark (by decide)
        · exact absurd hmark (by decide)
      · decide
  | _ =>
      obtain rfl := List.mem_singleton.1 hc
      decide

/-- A lexeme has characters. -/
theorem chars_ne_nil (l : PlainLexeme) : l.chars ≠ [] := by
  cases l with
  | keyword k => exact (run?_facts (l := .keyword k) rfl).2.1
  | word w hw => exact (run?_facts (l := .word w hw) rfl).2.1
  | numeral n => exact n.nonempty
  | _ => simp [chars]

/-- No lexeme starts with white space, whatever follows it. -/
theorem isSpace_head? (l : PlainLexeme) (s : List Char) :
    ∀ c ∈ (l.chars ++ s).head?, isSpace c = false := by
  intro c hc
  cases hchars : l.chars with
  | nil => exact absurd hchars l.chars_ne_nil
  | cons d rest =>
      rw [hchars] at hc
      obtain rfl := Option.some.inj hc
      exact (l.chars_facts d (by simp [hchars])).1

end PlainLexeme

/-! ### Spaced texts -/

/-- Whether the character is one of the symbols between words. -/
def isSymbol (c : Char) : Bool := c == '(' || c == ')' || c == ',' || c == ';'

/-- Whether a word may end before the text. -/
def Stops (s : List Char) : Prop := ∀ c ∈ s.head?, isSpace c = true ∨ isSymbol c = true

/-- What stops a word does not continue it, in any sense. -/
theorem Stops.facts {s : List Char} (h : Stops s) : ∀ c ∈ s.head?,
    isWordChar c = false ∧ continuesWord c = false ∧ isAsciiDigit c = false ∧
      c ∉ ['.', '`', '"', '[', ']', '$'] := by
  intro c hc
  rcases h c hc with hspace | hsymbol
  · obtain ⟨hdigit, hmark⟩ := Text.forall_isSpace
      (p := fun c => isAsciiDigit c = false ∧ c ∉ ['.', '`', '"', '[', ']', '$']) (by decide) hspace
    exact ⟨Text.isWordChar_of_isSpace hspace, Token.continuesWord_of_isSpace hspace, hdigit, hmark⟩
  · simp only [isSymbol, Bool.or_eq_true, beq_iff_eq] at hsymbol
    rcases hsymbol with ((rfl | rfl) | rfl) | rfl <;> decide

/-- What stops a word stops it if white space is trimmed behind it. -/
theorem Stops.trimEnd {s : List Char} (h : Stops s) : Stops (Text.trimEnd s) := by
  intro c hc
  obtain ⟨t, ht⟩ := Text.trimEnd_prefix s
  cases hs : Text.trimEnd s with
  | nil => rw [hs] at hc; cases hc
  | cons d rest =>
      rw [hs] at hc ht
      exact h c (by rw [← ht]; exact hc)

/-- White space, or nothing. -/
structure Gap where
  chars : List Char
  isSpace : ∀ c ∈ chars, isSpace c = true

/-- No white space at all. -/
def Gap.none : Gap := ⟨[], Text.forall_isSpace_nil⟩

/-- A text with white space in front starts with white space, or as it does without it. -/
theorem Gap.head?_append (g : Gap) {s : List Char} {q : Char → Prop}
    (hspace : ∀ c, Text.isSpace c = true → q c) (hs : ∀ c ∈ s.head?, q c) :
    ∀ c ∈ (g.chars ++ s).head?, q c := by
  intro c hc
  cases hchars : g.chars with
  | nil => exact hs c (by simpa [hchars] using hc)
  | cons d chars =>
      rw [hchars] at hc
      obtain rfl := Option.some.inj hc
      exact hspace d (g.isSpace d (by simp [hchars]))

/-- Behind white space a word is over where it is over without it. -/
theorem Gap.stops_append (g : Gap) {s : List Char} (hs : Stops s) : Stops (g.chars ++ s) :=
  g.head?_append (fun _ => .inl) hs

/-- The text consists of the lexemes, with any white space before, between and after them, where
two words do not touch. -/
inductive Spaced : List PlainLexeme → List Char → Prop where
  | nil : Spaced [] []
  | space {c : Char} {ls : List PlainLexeme} {s : List Char} (hc : isSpace c = true)
      (h : Spaced ls s) : Spaced ls (c :: s)
  | lexeme {l : PlainLexeme} {ls : List PlainLexeme} {s : List Char}
      (hp : l.isWord = true → Stops s) (h : Spaced ls s) : Spaced (l :: ls) (l.chars ++ s)

namespace Spaced

variable {l : PlainLexeme} {ls ls' : List PlainLexeme} {s : List Char}

/-- White space may stand in front. -/
theorem spaces_append {g : List Char} (hg : ∀ c ∈ g, isSpace c = true) (h : Spaced ls s) :
    Spaced ls (g ++ s) := by
  induction g with
  | nil => exact h
  | cons c g ih => exact .space (hg c (by simp)) (ih fun d hd => hg d (by simp [hd]))

/-- White space in front is all that comes before a text that starts with no white space. -/
theorem exists_front (h : Spaced ls s) : ∃ g t, s = g ++ t ∧ (∀ c ∈ g, isSpace c = true) ∧
    (∀ c ∈ t.head?, isSpace c = false) ∧ Spaced ls t := by
  induction h with
  | nil => exact ⟨[], [], rfl, by simp, by simp, .nil⟩
  | @space c ls s hc h ih =>
      obtain ⟨g, t, rfl, hg, ht, h'⟩ := ih
      exact ⟨c :: g, t, rfl, by simpa [hc] using hg, ht, h'⟩
  | @lexeme l ls s hp h ih => exact ⟨[], _, rfl, by simp, l.isSpace_head? s, .lexeme hp h⟩

/-- A text without lexemes is white space. -/
theorem isSpace_of_nil (h : Spaced [] s) : ∀ c ∈ s, isSpace c = true := by
  generalize hls : ([] : List PlainLexeme) = ls at h
  induction h with
  | nil => simp
  | space hc h ih => simpa [hc] using ih hls
  | lexeme hp h ih => cases hls

/-- The first lexeme of a text. -/
theorem exists_cons (h : Spaced (l :: ls) s) : ∃ g t, s = g ++ (l.chars ++ t) ∧
    (∀ c ∈ g, isSpace c = true) ∧ (l.isWord = true → Stops t) ∧ Spaced ls t := by
  generalize hls : l :: ls = ls' at h
  induction h with
  | nil => cases hls
  | @space c ls' s hc h ih =>
      obtain ⟨g, t, rfl, hg, ht, h'⟩ := ih hls
      exact ⟨c :: g, t, rfl, by simpa [hc] using hg, ht, h'⟩
  | @lexeme q ls' s hq h ih =>
      cases hls
      exact ⟨[], s, rfl, by simp, hq, h⟩

/-- A text of one lexeme is that lexeme with white space around it. -/
theorem padded (h : Spaced [l] s) : Text.Padded l.chars s := by
  obtain ⟨g, t, rfl, hg, -, h'⟩ := h.exists_cons
  exact ⟨g, t, rfl, hg, h'.isSpace_of_nil⟩

/-- The first lexeme of a text that starts with no white space. -/
theorem exists_cons_of_head (h : Spaced (l :: ls) s) (hs : ∀ c ∈ s.head?, isSpace c = false) :
    ∃ t, s = l.chars ++ t ∧ (l.isWord = true → Stops t) ∧ Spaced ls t := by
  obtain ⟨g, t, rfl, hg, ht, h'⟩ := h.exists_cons
  cases g with
  | nil => exact ⟨t, rfl, ht, h'⟩
  | cons c g =>
      have hc := hs c rfl
      rw [hg c (by simp)] at hc
      cases hc

/-- Between two words, there is white space. -/
theorem exists_cons_of_stops (h : Spaced (l :: ls) s) (hp : l.isWord = true) (hs : Stops s) :
    ∃ g t, s = g ++ (l.chars ++ t) ∧ g ≠ [] ∧ (∀ c ∈ g, isSpace c = true) ∧ Stops t ∧
      Spaced ls t := by
  obtain ⟨g, t, rfl, hg, ht, h'⟩ := h.exists_cons
  refine ⟨g, t, rfl, ?_, hg, ht hp, h'⟩
  rintro rfl
  -- A word starts with no symbol.
  have hword : ∀ c ∈ l.chars.head?, isSymbol c = false := by
    intro c hc
    have run {r : List Char} (hr : l.run? = some r) : isSymbol c = false := by
      obtain ⟨hchars, -, hplain⟩ := PlainLexeme.run?_facts hr
      rw [hchars] at hc
      have hnot := isPlain_notMem (hplain c (List.mem_of_mem_head? hc)).1
      simp only [List.mem_cons, not_or] at hnot
      simp [isSymbol, hnot]
    cases l with
    | name n =>
        obtain rfl := Option.some.inj hc
        decide
    | keyword k => exact run rfl
    | word w hw => exact run rfl
    | numeral n => exact run rfl
    | _ => cases hp
  cases hchars : l.chars with
  | nil => exact l.chars_ne_nil hchars
  | cons c rest =>
      rw [List.nil_append, hchars] at hs
      rcases hs c rfl with hspace | hsymbol
      · rw [(l.chars_facts c (by simp [hchars])).1] at hspace
        cases hspace
      · rw [hword c (by simp [hchars])] at hsymbol
        cases hsymbol

/-- A text of two lists of lexemes is cut before the second one. -/
theorem exists_append (h : Spaced (ls ++ ls') s) : ∃ t u, s = t ++ u ∧ Spaced ls t ∧
    Spaced ls' u ∧ ∀ c ∈ u.head?, isSpace c = false := by
  induction ls generalizing s with
  | nil =>
      obtain ⟨g, t, rfl, hg, ht, h'⟩ := h.exists_front
      refine ⟨g, t, rfl, ?_, h', ht⟩
      simpa using spaces_append hg .nil
  | cons l ls ih =>
      obtain ⟨g, t, rfl, hg, hp, h'⟩ := h.exists_cons
      obtain ⟨t, u, rfl, ht, hu, hhead⟩ := ih h'
      refine ⟨g ++ (l.chars ++ t), u, by simp, spaces_append hg (.lexeme (fun hword => ?_) ht), hu,
        hhead⟩
      cases t with
      | nil => simp [Stops]
      | cons c t => exact hp hword

/-- Parts with commas between them are joined by commas. -/
theorem exists_joinWith {parts : List (List PlainLexeme)} (hne : parts ≠ [])
    (h : Spaced (PlainLexeme.separated parts) s) :
    ∃ xs, s = Text.joinWith [','] xs ∧ List.Forall₂ Spaced parts xs := by
  induction parts generalizing s with
  | nil => exact absurd rfl hne
  | cons part parts ih =>
      cases parts with
      | nil => exact ⟨[s], by rw [Text.joinWith_singleton], .cons h .nil⟩
      | cons next more =>
          obtain ⟨t, u, rfl, ht, hu, hhead⟩ := exists_append h
          obtain ⟨v, rfl, -, hv⟩ := hu.exists_cons_of_head hhead
          obtain ⟨xs, rfl, hxs⟩ := ih (by simp) hv
          refine ⟨t :: xs, ?_, .cons ht hxs⟩
          cases hxs with
          | cons => rw [Text.joinWith_cons_cons]; rfl

/-- White space at the end can be trimmed. -/
theorem trimEnd (h : Spaced ls s) : Spaced ls (Text.trimEnd s) := by
  induction h with
  | nil => exact .nil
  | @space c ls s hc h ih =>
      rw [Text.trimEnd_cons]
      split
      · rename_i hempty
        rwa [hempty.2] at ih
      · exact .space hc ih
  | @lexeme l ls s hp h ih =>
      rw [Text.trimEnd_append fun c hc => (l.chars_facts c hc).1]
      exact .lexeme (fun hword => (hp hword).trimEnd) ih

/-- White space around a text can be trimmed; what is left starts with its first lexeme. -/
theorem trim (h : Spaced ls s) :
    Spaced ls (Text.trim s) ∧ ∀ c ∈ (Text.trim s).head?, isSpace c = false := by
  obtain ⟨g, t, rfl, hg, ht, h'⟩ := h.exists_front
  rw [Text.trim, Text.trimStart_append hg ht]
  refine ⟨h'.trimEnd, fun c hc => ?_⟩
  obtain ⟨u, hu⟩ := Text.trimEnd_prefix t
  cases hs : Text.trimEnd t with
  | nil => rw [hs] at hc; cases hc
  | cons d rest =>
      rw [hs] at hc hu
      exact ht c (by rw [← hu]; exact hc)

/-- The characters of a spaced text. -/
theorem forall_chars {q : Char → Prop} (h : Spaced ls s) (hspace : ∀ c, isSpace c = true → q c)
    (hls : ∀ l ∈ ls, ∀ c ∈ l.chars, q c) : ∀ c ∈ s, q c := by
  induction h with
  | nil => simp
  | @space c ls s hc h ih =>
      intro d hd
      rcases List.mem_cons.1 hd with rfl | hd
      · exact hspace d hc
      · exact ih hls d hd
  | @lexeme l ls s hp h ih =>
      intro d hd
      rcases List.mem_append.1 hd with hd | hd
      · exact hls l (by simp) d hd
      · exact ih (fun q hq => hls q (by simp [hq])) d hd

/-- Each lexeme takes a character. -/
theorem length_le (h : Spaced ls s) : ls.length ≤ s.length := by
  induction h with
  | nil => exact Nat.le_refl _
  | space hc h ih => exact Nat.le_succ_of_le ih
  | @lexeme l ls s hl h ih =>
      have hpos := List.length_pos_iff.2 l.chars_ne_nil
      rw [List.length_cons, List.length_append]
      omega

/-- A space after each lexeme is enough. -/
theorem of_flatMap (ls : List PlainLexeme) : Spaced ls (ls.flatMap fun l => l.chars ++ [' ']) := by
  induction ls with
  | nil => exact .nil
  | cons l ls ih =>
      rw [List.flatMap_cons, List.append_assoc]
      exact .lexeme (fun _ => by simp [Stops]; decide) (.space (by decide) ih)

end Spaced

/-! ### Tokens -/

/-- White space has no tokens. -/
theorem Gap.tokens_append (g : Gap) (s : List Char) : tokens (g.chars ++ s) = tokens s := by
  obtain ⟨chars, hspace⟩ := g
  induction chars with
  | nil => rfl
  | cons c chars ih =>
      have hread := Token.step_space (hspace c (by simp)) (chars ++ s)
      exact (Token.tokens_of_step hread).trans (ih fun d hd => hspace d (by simp [hd]))

/-- An unquoted word that stops is read as a keyword or a name. -/
theorem tokens_asciiWord {c : Char} (hc : Token.startsAsciiWord c = true) {w s : List Char}
    (hw : ∀ d ∈ w, isNameChar d = true) (hs : ∀ d ∈ s.head?, continuesWord d = false) :
    tokens (c :: (w ++ s)) = Token.ofWord (c :: w) :: tokens s :=
  Token.tokens_of_step
    (Token.step_asciiWord hc (fun d hd => (continuesWord_of_isNameChar (hw d hd)).1) hs)

/-- A lexeme that stops is read as its token. -/
theorem PlainLexeme.tokens_chars (l : PlainLexeme) {s : List Char}
    (hs : l.isWord = true → Stops s) : tokens (l.chars ++ s) = l.token :: tokens s := by
  cases l with
  | keyword k =>
      exact (Lexeme.keyword k).tokens_chars (s := s) fun d hd => ((hs rfl).facts d hd).2.1
  | word w _ =>
      exact (Lexeme.word w).tokens_chars (s := s) fun d hd => ((hs rfl).facts d hd).2.1
  | name n =>
      have hmark : '`' ∉ n.text.toList := by
        intro hmem
        exact absurd (isNameChar_facts (n.isNameChar _ hmem)).2.1 (by decide)
      have hdouble := Token.doubleQuotes_eq_self hmark
      -- A mark behind the closing one would double it.
      have hhead : s.head? ≠ some '`' := fun h => ((hs rfl).facts _ h).2.2.2 (by simp)
      have hread := Token.step_quotedName (.inl rfl) n.text.toList hhead
      rw [hdouble] at hread
      simpa [chars, token] using Token.tokens_of_step hread
  | numeral n =>
      cases hdigits : n.digits with
      | nil => exact absurd hdigits n.nonempty
      | cons c ds =>
          have hds : ∀ d ∈ c :: ds, isAsciiDigit d = true := by
            rw [← hdigits]
            exact List.all_eq_true.1 n.isDigits
          -- A digit or a dot behind the number would go on with it.
          have hend : ∀ d ∈ s.head?, isAsciiDigit d = false ∧ d ≠ '.' := fun d hd =>
            ⟨((hs rfl).facts d hd).2.2.1, fun hdot => ((hs rfl).facts d hd).2.2.2 (by simp [hdot])⟩
          have hread := Token.step_number hds hend
          simpa [chars, token, hdigits] using Token.tokens_of_step hread
  | openParen => exact Token.tokens_symbol (by decide) s
  | closeParen => exact Token.tokens_symbol (by decide) s
  | comma => exact Token.tokens_symbol (by decide) s
  | semicolon => exact Token.tokens_symbol (by decide) s

/-- The tokens of a spaced text are those of its lexemes. -/
theorem Spaced.tokens_eq {ls : List PlainLexeme} {s : List Char} (h : Spaced ls s) :
    tokens s = ls.map PlainLexeme.token ++ [.eof] := by
  induction h with
  | nil => exact Token.tokens_nil
  | space hc h ih => exact (Token.tokens_of_step (Token.step_space hc _)).trans ih
  | @lexeme l ls s hp h ih => rw [l.tokens_chars hp, ih]; rfl

end EntityDiagram.Ddl
