import EntityDiagram.Proofs.Ddl.PlainLexeme
import EntityDiagram.Proofs.Text.WordSearch

/-!
# `EntityDiagram.Proofs.Excerpt.LexemeSearch`: searching a text in plain notation

A keyed pattern can only match at its words, so in a text in plain notation a search for it goes
from lexeme to lexeme. It steps over each one that is not the word in question
(`exists_searchFrom_append`), and either ends at the first one that is (`exists_searchFrom_run`) or
finds nothing (`searchFrom_eq_none`). Names may spell anything, so they may only be searched for
patterns that need white space behind their word.

A search by itself goes from character to character. That it goes from lexeme to lexeme is by
`EntityDiagram.Proofs.Text.WordSearch`, where the search for a keyed pattern is cut at words; here
the words are those of a text in plain notation, and names in backticks are stepped over as a whole.
`Fresh` is the state of the search between two lexemes: no word reaches over the place where the
next one starts.
-/

set_option autoImplicit false

namespace EntityDiagram.Excerpt

open Text (isSpace isWordChar isPlain)
open Text.Pattern
open Ddl (Keyword PlainLexeme Spaced Stops)

variable {α : Type}

/-- Whether a search for the pattern, which is keyed by the words `ws`, steps over the lexeme. -/
def StepsOver (ws : List String) (p : Text.Pattern α) (l : PlainLexeme) : Prop :=
  ((∃ n, l = .name n) → NeedsSpace p) ∧ ∀ w ∈ ws, l.run? ≠ some w.toList

/-- Only the keyword itself is spelled like it. -/
theorem eq_keyword_of_run? {l : PlainLexeme} {k : Keyword}
    (h : l.run? = some k.word.toList) : l = .keyword k := by
  cases l with
  | keyword k' =>
      have hword := String.toList_inj.1 (Option.some.inj h)
      have hinj : ∀ k k' : Keyword, k'.word = k.word → k' = k := by
        intro k k'
        cases k <;> cases k' <;> decide
      rw [hinj k k' hword]
  -- A word that is written like a keyword is no plain word.
  | word w hw =>
      have hword : w.text = k.word := String.toList_inj.1 (Option.some.inj h)
      have hnone := w.notKeyword
      have hsome : Keyword.ofWord? k.word = some k := by cases k <;> decide
      rw [hword, hsome] at hnone
      cases hnone
  | numeral n =>
      have hdigits : n.digits = k.word.toList := Option.some.inj h
      have hnot : k.word.toList.all Text.isAsciiDigit = false := by cases k <;> decide
      rw [← hdigits, n.isDigits] at hnot
      cases hnot
  | _ => cases h

/-- A search for a keyword steps over all other lexemes. -/
theorem StepsOver.of_ne_keyword {p : Text.Pattern α} {k : Keyword} {l : PlainLexeme}
    (hp : NeedsSpace p) (h : l ≠ .keyword k) : StepsOver [k.word] p l := by
  refine ⟨fun _ => hp, fun w hw hrun => h ?_⟩
  rw [List.mem_singleton.1 hw] at hrun
  exact eq_keyword_of_run? hrun

/-- Whether a word may start at the text: it does not continue a word before it. -/
def Fresh (before : Option Char) (s : List Char) : Prop :=
  (∃ c ∈ before, isWordChar c = true) → Stops s

/-- At the start of a text, a word may start. -/
theorem Fresh.start (s : List Char) : Fresh none s := by simp [Fresh]

/-- Where a word starts, no character of a word comes before it. -/
theorem Fresh.isWordChar_before {before : Option Char} {s : List Char} (h : Fresh before s)
    (hs : ∃ c ∈ s.head?, isWordChar c = true) : ∀ c ∈ before, isWordChar c = false := by
  obtain ⟨d, hd, hword⟩ := hs
  intro c hc
  rw [Bool.eq_false_iff]
  intro hc'
  rw [((h ⟨c, hc, hc'⟩).facts d hd).1] at hword
  cases hword

section Search

variable {ws : List String} {p : Text.Pattern α} (hp : Keyed ws p) {ls ls' : List PlainLexeme}
  {s : List Char}
include hp

/-- A search steps over white space in front. -/
theorem exists_searchFrom_front (h : Spaced ls s) {before : Option Char}
    (hbefore : Fresh before s) : ∃ before' t, searchFrom p before s = searchFrom p before' t ∧
      Fresh before' t ∧ (∀ c ∈ t.head?, isSpace c = false) ∧ Spaced ls t := by
  obtain ⟨g, t, rfl, hg, ht, h'⟩ := h.exists_front
  refine ⟨after before g, t, hp.searchFrom_spaces hg before t, ?_, ht, h'⟩
  rintro ⟨c, hc, hword⟩
  cases g with
  | nil => exact hbefore ⟨c, hc, hword⟩
  | cons d g =>
      -- The last character before the text is white space.
      have hlast : after before (d :: g) = some ((d :: g).getLast (by simp)) := by
        rw [after, List.getLast?_eq_some_getLast (by simp)]
        rfl
      rw [hlast] at hc
      obtain rfl := Option.some.inj hc
      rw [Text.isWordChar_of_isSpace (hg _ (List.getLast_mem _))] at hword
      cases hword

/-- A search steps over a lexeme. The white space in front of the lexeme is stepped over with it. -/
theorem exists_searchFrom_cons {l : PlainLexeme} (hl : StepsOver ws p l)
    (h : Spaced (l :: ls) s) (before : Option Char) :
    ∃ before' t, searchFrom p before s = searchFrom p before' t ∧ Fresh before' t ∧
      Spaced ls t := by
  obtain ⟨g, t, rfl, hg, ht, h'⟩ := h.exists_cons
  rw [hp.searchFrom_spaces hg]
  -- Words and numbers are stepped over as one run, and symbols as one character.
  have run {r : List Char} (hrun : l.run? = some r) (hword : l.isWord = true) :
      ∃ before' t', searchFrom p (after before g) (l.chars ++ t) = searchFrom p before' t' ∧
        Fresh before' t' ∧ Spaced ls t' := by
    obtain ⟨hchars, -, hplain⟩ := PlainLexeme.run?_facts hrun
    have hws : ∀ w ∈ ws, w.toList ≠ r := by
      rintro w hw rfl
      exact hl.2 w hw hrun
    rw [hchars, hp.searchFrom_run hplain (fun c hc => ((ht hword).facts c hc).1) hws]
    exact ⟨_, t, rfl, fun _ => ht hword, h'⟩
  have symbol {c : Char} (hchars : l.chars = [c]) (hc : isWordChar c = false) :
      ∃ before' t', searchFrom p (after before g) (l.chars ++ t) = searchFrom p before' t' ∧
        Fresh before' t' ∧ Spaced ls t' := by
    rw [hchars, List.singleton_append, hp.searchFrom_cons hc]
    refine ⟨some c, t, rfl, ?_, h'⟩
    rintro ⟨d, hd, hword⟩
    obtain rfl := Option.some.inj hd
    rw [hc] at hword
    cases hword
  cases l with
  | keyword k => exact run rfl rfl
  | word w hw => exact run rfl rfl
  | numeral n => exact run rfl rfl
  | name n =>
      have hspace : ∀ c ∈ '`' :: n.text.toList, isSpace c = false := by
        intro c hc
        exact ((PlainLexeme.name n).chars_facts c (by
          rw [PlainLexeme.chars, ← List.cons_append]
          exact List.mem_append_left _ hc)).1
      have hchars : (PlainLexeme.name n).chars ++ t = ('`' :: n.text.toList) ++ '`' :: t := by
        simp [PlainLexeme.chars]
      rw [hchars, (hl.1 ⟨n, rfl⟩).searchFrom_append hspace (by decide) (by decide)]
      exact ⟨some '`', t, rfl, fun _ => ht rfl, h'⟩
  | openParen => exact symbol rfl (by decide)
  | closeParen => exact symbol rfl (by decide)
  | comma => exact symbol rfl (by decide)
  | semicolon => exact symbol rfl (by decide)

/-- A search steps over the lexemes that are not searched for. The place it comes to is fresh again,
so that it can go on. -/
theorem exists_searchFrom_append (hls : ∀ l ∈ ls, StepsOver ws p l) (h : Spaced (ls ++ ls') s)
    {before : Option Char} (hbefore : Fresh before s) :
    ∃ before' t, searchFrom p before s = searchFrom p before' t ∧ Fresh before' t ∧
      Spaced ls' t := by
  induction ls generalizing before s with
  | nil => exact ⟨before, s, rfl, hbefore, h⟩
  | cons l ls ih =>
      obtain ⟨before', t, heq, hfresh, h'⟩ := exists_searchFrom_cons hp (hls l (by simp)) h before
      rw [heq]
      exact ih (fun l' hl' => hls l' (by simp [hl'])) h' hfresh

/-- A search finds nothing where nothing is searched for. -/
theorem searchFrom_eq_none (hls : ∀ l ∈ ls, StepsOver ws p l) (h : Spaced ls s)
    {before : Option Char} (hbefore : Fresh before s) : searchFrom p before s = none := by
  rw [← List.append_nil ls] at h
  obtain ⟨before', t, heq, -, h'⟩ := exists_searchFrom_append hp hls h hbefore
  rw [heq, ← List.append_nil t, hp.searchFrom_spaces h'.isSpace_of_nil, hp.searchFrom_nil]

/-- A search comes to the first word that may be searched for. Whether it matches there is left to
the pattern. -/
theorem exists_searchFrom_run (hls : ∀ l ∈ ls, StepsOver ws p l) {l : PlainLexeme}
    {r : List Char} (hl : l.run? = some r) (h : Spaced (ls ++ l :: ls') s)
    {before : Option Char} (hbefore : Fresh before s) :
    ∃ before' t, searchFrom p before s = searchFrom p before' (r ++ t) ∧
      (∀ c ∈ before', isWordChar c = false) ∧ Stops t ∧ Spaced ls' t := by
  obtain ⟨before', t, heq, hfresh, h'⟩ := exists_searchFrom_append hp hls h hbefore
  -- The space before the lexeme is stepped over as well, so that the search stands right at the
  -- word.
  obtain ⟨before', u, heq', hfresh', hhead, h'⟩ := exists_searchFrom_front hp h' hfresh
  obtain ⟨v, rfl, hstops, hv⟩ := h'.exists_cons_of_head hhead
  obtain ⟨hchars, hne, hplain⟩ := PlainLexeme.run?_facts hl
  have hword : l.isWord = true := by
    cases l <;> first | rfl | cases hl
  rw [hchars] at heq' hfresh'
  refine ⟨before', v, heq.trans heq', hfresh'.isWordChar_before ?_, hstops hword, hv⟩
  cases r with
  | nil => exact absurd rfl hne
  | cons c r => exact ⟨c, rfl, (hplain c (by simp)).2⟩

end Search

end EntityDiagram.Excerpt
