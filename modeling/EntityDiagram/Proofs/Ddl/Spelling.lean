import EntityDiagram.Proofs.Ddl.Token.Lexer
import EntityDiagram.Proofs.Sql.ColumnType

/-!
# `EntityDiagram.Proofs.Ddl.Spelling`: lexemes and the texts that spell them

A definition is written as a list of `Lexeme`s: keywords and words in upper case, names in
backticks, literals in single quotes, numbers and symbols. `Spelled rest ls s` says that the text
`s` spells the lexemes `ls`, with any white space before and between them, and goes on with `rest`.

* `Spelled.tokens_eq`: the lexer reads the tokens of the lexemes off such a text.
* `Spelled.spell_append`: with a space after every lexeme, each list of lexemes has a spelling.

Two lexemes must be told apart by what stands between them, if they could be read as one:
`Lexeme.StopsBefore` says what may follow a lexeme at once. So a spelling asks for white space
between two words, and nowhere that it is not needed. The induction in `Spelled.tokens_eq` is on the
derivation: the lexer reads the first lexeme in one round, because what follows it does not continue
it, and is then in front of a text that spells the others. White space is skipped round by round.

No comment stands between the lexemes of a spelling. Comments between the statements of a script are
other text, which has no tokens.
-/

set_option autoImplicit false

namespace EntityDiagram.Ddl

open Text (isSpace isAsciiDigit isPlainWord doubleQuotes)
open Token (tokens step continuesWord escaped)
open Sql (digits)

/-! ### Lexemes -/

/-- An upper-case ASCII word that is no keyword. -/
structure PlainName where
  text : String
  isPlain : isPlainWord text.toList = true
  notKeyword : Keyword.ofWord? text = none
deriving DecidableEq, Repr

/-- The name that a word makes. -/
def PlainName.ofWord (text : String)
    (h : isPlainWord text.toList = true ∧ Keyword.ofWord? text = none) : PlainName :=
  ⟨text, h.1, h.2⟩

/-- A token as it is written, or the sign `=`, which is no token. -/
inductive Lexeme where
  | keyword (k : Keyword)
  | word (w : PlainName)
  /-- A name in backticks. -/
  | quoted (name : String)
  /-- A literal in single quotes. -/
  | literal (text : String)
  | number (n : UInt32)
  | openParen
  | closeParen
  | comma
  | semicolon
  | equals
deriving DecidableEq, Repr

namespace Lexeme

/-- The characters of a lexeme. -/
def chars : Lexeme → List Char
  | .keyword k => k.word.toList
  | .word w => w.text.toList
  | .quoted name => '`' :: doubleQuotes '`' name.toList ++ ['`']
  | .literal text => '\'' :: escaped text.toList ++ ['\'']
  | .number n => digits n
  | .openParen => ['(']
  | .closeParen => [')']
  | .comma => [',']
  | .semicolon => [';']
  | .equals => ['=']

/-- The token of a lexeme, if it is one. -/
def token? : Lexeme → Option Token
  | .keyword k => some (.keyword k)
  | .word w => some (.name w.text)
  | .quoted name => some (.name name)
  | .literal text => some (.text text)
  | .number n => some (.number (String.ofList (digits n)))
  | .openParen => some .openParen
  | .closeParen => some .closeParen
  | .comma => some .comma
  | .semicolon => some .semicolon
  | .equals => none

/-- Whether the lexeme ends where the text `s` follows it. -/
def StopsBefore (s : List Char) : Lexeme → Prop
  | .keyword _ | .word _ => ∀ d ∈ s.head?, continuesWord d = false
  | .quoted _ => s.head? ≠ some '`'
  | .literal _ => s.head? ≠ some '\''
  | .number _ => ∀ d ∈ s.head?, isAsciiDigit d = false ∧ d ≠ '.'
  | _ => True

/-- Every lexeme ends where white space follows. -/
theorem stopsBefore_space (l : Lexeme) (s : List Char) : l.StopsBefore (' ' :: s) := by
  cases l <;> simp [StopsBefore]
  all_goals decide

/-- A word that stops is read in one round. -/
theorem tokens_word {w : String} (hw : isPlainWord w.toList = true) {s : List Char}
    (hs : ∀ d ∈ s.head?, continuesWord d = false) :
    tokens (w.toList ++ s) = Token.ofWord w.toList :: tokens s := by
  cases hchars : w.toList with
  | nil =>
      rw [hchars] at hw
      exact absurd hw (by decide)
  | cons c rest =>
      rw [hchars] at hw
      exact Token.tokens_of_step (Token.step_word hw hs)

/-- The lexer reads a lexeme that stops as its token. -/
theorem tokens_chars (l : Lexeme) {s : List Char} (hs : l.StopsBefore s) :
    tokens (l.chars ++ s) = l.token?.toList ++ tokens s := by
  cases l with
  | keyword k =>
      have hplain : isPlainWord k.word.toList = true := by cases k <;> decide
      have htoken : Token.ofWord k.word.toList = .keyword k := by cases k <;> decide
      simpa [chars, token?, htoken] using tokens_word hplain hs
  | word w =>
      have htoken : Token.ofWord w.text.toList = .name w.text := by
        rw [Token.ofWord, Text.upper_plain (Text.forall_isPlain w.isPlain), String.ofList_toList,
          w.notKeyword]
      simpa [chars, token?, htoken] using tokens_word w.isPlain hs
  | quoted name =>
      have hread := Token.step_quotedName (.inl rfl) name.toList hs
      simpa [chars, token?] using Token.tokens_of_step hread
  | literal text =>
      have hread := Token.step_literal text.toList hs
      simpa [chars, token?] using Token.tokens_of_step hread
  | number n =>
      cases hdigits : digits n with
      | nil => exact absurd hdigits (Sql.digits_ne_nil n)
      | cons c ds =>
          have hds : ∀ d ∈ c :: ds, isAsciiDigit d = true := by
            rw [← hdigits]
            exact fun d => Sql.isAsciiDigit_of_mem_digits
          have hread := Token.step_number hds hs
          simpa [chars, token?, hdigits] using Token.tokens_of_step hread
  | openParen => exact Token.tokens_symbol (by decide) s
  | closeParen => exact Token.tokens_symbol (by decide) s
  | comma => exact Token.tokens_symbol (by decide) s
  | semicolon => exact Token.tokens_symbol (by decide) s
  | equals =>
      -- The sign starts no token, so the lexer drops it.
      have hread : step '=' s = (none, s) := by
        have hsymbol : Token.symbol? '=' = none := by decide
        have hspace : isSpace '=' = false := by decide
        have hdigit : isAsciiDigit '=' = false := by decide
        have hstart : Token.startsWord '=' = false := by decide
        rw [step, hsymbol]
        simp [hspace, hdigit, hstart]
      exact Token.tokens_of_step hread

end Lexeme

/-- The tokens of a list of lexemes. -/
def tokensOf (ls : List Lexeme) : List Token := ls.filterMap Lexeme.token?

/-! ### Spellings -/

/-- The text spells the lexemes, with any white space before and between them, and goes on with
`rest`. -/
inductive Spelled (rest : List Char) : List Lexeme → List Char → Prop where
  | done : Spelled rest [] rest
  | space {c : Char} {ls : List Lexeme} {s : List Char} (hc : isSpace c = true)
      (h : Spelled rest ls s) : Spelled rest ls (c :: s)
  | lexeme {l : Lexeme} {ls : List Lexeme} {s : List Char} (hl : l.StopsBefore s)
      (h : Spelled rest ls s) : Spelled rest (l :: ls) (l.chars ++ s)

/-- The lexer reads the tokens of the lexemes off a text that spells them. -/
theorem Spelled.tokens_eq {rest s : List Char} {ls : List Lexeme} (h : Spelled rest ls s) :
    tokens s = tokensOf ls ++ tokens rest := by
  induction h with
  | done => rfl
  | space hc h ih => exact (Token.tokens_of_step (Token.step_space hc _)).trans ih
  | @lexeme l ls s hl h ih =>
      rw [l.tokens_chars hl, ih]
      cases htoken : l.token? <;> simp [tokensOf, htoken]

/-- The lexemes with a space after each of them. -/
def spell (ls : List Lexeme) : List Char := ls.flatMap fun l => l.chars ++ [' ']

/-- Lexemes with a space after each of them may precede any spelling. -/
theorem Spelled.spell_append {rest s : List Char} {ls' : List Lexeme} (h : Spelled rest ls' s)
    (ls : List Lexeme) : Spelled rest (ls ++ ls') (spell ls ++ s) := by
  induction ls with
  | nil => exact h
  | cons l ls ih =>
      have hcons : Spelled rest (l :: (ls ++ ls')) (l.chars ++ ' ' :: (spell ls ++ s)) :=
        .lexeme (l.stopsBefore_space _) (.space (by decide) ih)
      simpa [spell] using hcons

end EntityDiagram.Ddl
