import EntityDiagram.Proofs.Ddl.PlainLexeme
import EntityDiagram.Proofs.Text.WordSearch

/-!
# `EntityDiagram.Proofs.Parsing.HeadWord`: the words of a head

The patterns that look for a statement read its first words one by one, each in any letter case and
each with white space behind it. `HeadWord w` is the word `w` in such a place, whatever its letter
case and its white space are. Statements and client commands that start with several words are put
together from head words, and this module says what a pattern does with one of them.

* `HeadWord.first_bind`: a pattern for the word reads it, takes all of the white space behind it and
  goes on with what follows.
* `HeadWord.fails_word`: a pattern for another word does not match there. That the two words differ
  is decided on their letters (`clashes`), case aside.
* `HeadWord.searchFrom_append`: a search for other words steps over it, white space included.
-/

set_option autoImplicit false

namespace EntityDiagram.Parsing

open Text (isSpace isWordChar eqIgnoreCase Pattern Place)
open Text.Pattern
open Ddl (Gap isNameChar)
open Ddl.Token (startsAsciiWord)

/-! ### White space and words -/

/-- White space, at least one character. -/
structure Break extends Gap where
  nonempty : chars ≠ []

/-- A break starts with white space. -/
theorem Break.head?_append (b : Break) (s : List Char) :
    ∀ c ∈ (b.chars ++ s).head?, isSpace c = true := by
  intro c hc
  cases hchars : b.chars with
  | nil => exact absurd hchars b.nonempty
  | cons d rest =>
      rw [hchars] at hc
      obtain rfl := Option.some.inj hc
      exact b.isSpace d (by simp [hchars])

/-- The word `w` of upper-case letters, in any letter case, and white space behind it. That `w` is
such a word is part of the structure and settled by evaluation wherever one is written down. -/
structure HeadWord (w : String) where
  text : String
  spells : eqIgnoreCase text w = true
  behind : Break
  isUpper : w.toList.all Text.startsPlain = true := by decide
  nonempty : w.toList ≠ [] := by decide

namespace HeadWord

variable {w : String} (h : HeadWord w)

/-- The characters of a word with the white space behind it. -/
def chars : List Char := h.text.toList ++ h.behind.chars

include h

/-- The word is a plain one. -/
theorem isPlainWord : Text.isPlainWord w.toList = true := by
  have hupper := h.isUpper
  obtain ⟨c, rest, hchars⟩ := List.exists_cons_of_ne_nil h.nonempty
  rw [hchars, List.all_cons, Bool.and_eq_true] at hupper
  rw [hchars, Text.isPlainWord, hupper.1, Bool.true_and, List.all_eq_true]
  exact fun d hd => Text.isPlain_of_startsPlain (List.all_eq_true.1 hupper.2 d hd)

/-- Its characters are letters. -/
theorem startsAsciiWord : ∀ c ∈ h.text.toList, startsAsciiWord c = true :=
  Ddl.Token.startsAsciiWord_of_eqIgnoreCase h.isUpper h.spells

/-- There is one. -/
theorem exists_text_eq : ∃ c rest, h.text.toList = c :: rest := by
  refine List.exists_cons_of_ne_nil fun hnil => h.nonempty ?_
  have hforall := Text.eqIgnoreCase_iff_forall₂.1 h.spells
  rwa [hnil, List.forall₂_nil_left_iff] at hforall

/-- A word does not start with white space. -/
theorem head?_append (s : List Char) : ∀ c ∈ (h.chars ++ s).head?, isSpace c = false := by
  intro c hc
  obtain ⟨d, rest, htext⟩ := h.exists_text_eq
  rw [chars, htext] at hc
  obtain rfl := Option.some.inj hc
  exact (Ddl.isNameChar_facts (Ddl.isNameChar_of_startsAsciiWord
    (h.startsAsciiWord d (by simp [htext])))).1

/-- A word and the white space behind it. -/
theorem isNameChar_of_mem_chars : ∀ c ∈ h.chars, isSpace c = true ∨ isNameChar c = true := by
  intro c hc
  rcases List.mem_append.1 hc with hc | hc
  · exact .inr (Ddl.isNameChar_of_startsAsciiWord (h.startsAsciiWord c hc))
  · exact .inl (h.behind.isSpace c hc)

end HeadWord

/-! ### Reading them -/

namespace HeadWord

variable {w : String} {α : Type}

/-- A word is read with the white space behind it, if no more white space follows. -/
theorem first_spaces1 (h : HeadWord w) {s : List Char} (hs : ∀ c ∈ s.head?, isSpace c = false)
    (before : Option Char) :
    First (do word w; spaces1) ⟨before, h.chars ++ s⟩ () ⟨Pattern.after before h.chars, s⟩ := by
  rw [chars, List.append_assoc, after_append]
  exact (First.word_of_spells (spells_of_eqIgnoreCase h.isUpper h.spells) _ _).bind
    (First.spaces1 h.behind.nonempty h.behind.isSpace hs _)

/-- And then what follows is read. -/
theorem first_bind (h : HeadWord w) {s : List Char} (hs : ∀ c ∈ s.head?, isSpace c = false)
    {before : Option Char} {f : Unit → Pattern α} {a : α} {stop : Place}
    (hf : First (f ()) ⟨Pattern.after before h.chars, s⟩ a stop) :
    First (word w >>= fun _ => spaces1 >>= f) ⟨before, h.chars ++ s⟩ a stop := by
  rw [← bind_bind]
  exact (h.first_spaces1 hs before).bind hf

/-- Another word is not read there. -/
theorem fails_word (h : HeadWord w) {v : String} (hv : clashes v.toList w.toList = true)
    (before : Option Char) (s : List Char) : Fails (word v) ⟨before, h.chars ++ s⟩ := by
  rw [chars, List.append_assoc]
  exact Fails.word ((clashes_of_eqIgnoreCase h.isUpper h.spells v.toList).trans hv) before _

/-- A search for other words steps over it. -/
theorem searchFrom_append {ws : List String} {p : Pattern α} (hp : Keyed ws p) (h : HeadWord w)
    (hws : ∀ v ∈ ws, clashes v.toList w.toList = true) (before : Option Char) (s : List Char) :
    searchFrom p before (h.chars ++ s) = searchFrom p (Pattern.after before h.chars) s := by
  have hspells := spells_of_eqIgnoreCase h.isUpper h.spells
  rw [chars, List.append_assoc, hp.searchFrom_word (hspells.isWordChar h.isUpper)
    (fun c hc => Text.isWordChar_of_isSpace (h.behind.head?_append s c hc)) fun v hv =>
      not_spells_of_clashes
        ((clashes_of_eqIgnoreCase h.isUpper h.spells v.toList).trans (hws v hv)),
    hp.searchFrom_spaces h.behind.isSpace, after_append]

end HeadWord

end EntityDiagram.Parsing
