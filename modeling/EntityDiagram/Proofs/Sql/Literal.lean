import EntityDiagram.Proofs.Ddl.Token.Lexer

/-!
# `EntityDiagram.Proofs.Sql.Literal`: a literal and its two readers

A literal token is written between single quotes, with every quote inside doubled, and two readers
meet what was written.

* `unquoted_quoted`: `Sql.unquoted` undoes the doubling, so it gives back every text.
* `slashes_readQuoted`: the lexer also takes a backslash as the start of an escape, which the writer
  did not mean. Of the backslashes at the front of a text it leaves half.
* `tokens_source_text`: so the lexer gives a text back exactly if there is no backslash in it, and
  these are the texts on which the two readers agree.
-/

set_option autoImplicit false

namespace EntityDiagram

open Text (doubleQuotes undoubleQuotes)

/-! ### Doubled quotes -/

namespace Text

/-- Quotes that were written twice are read once. The quote may be any character, and the text may
hold it as often as it likes. -/
theorem undoubleQuotes_doubleQuotes (quote : Char) (s : List Char) :
    undoubleQuotes quote (doubleQuotes quote s) = s := by
  induction s with
  | nil => rfl
  | cons c s ih =>
      rw [Ddl.Token.doubleQuotes_cons]
      split
      · rename_i hc
        show undoubleQuotes quote (quote :: quote :: doubleQuotes quote s) = c :: s
        rw [undoubleQuotes, beq_self_eq_true, Bool.and_self, if_pos rfl, ih, hc]
      · rename_i hc
        show undoubleQuotes quote (c :: doubleQuotes quote s) = c :: s
        -- What follows is looked at to see whether it doubles the character, which it cannot, as
        -- the character is no quote.
        cases hs : doubleQuotes quote s with
        | nil => rw [← ih, hs]; rfl
        | cons d t => rw [undoubleQuotes, beq_eq_false_iff_ne.2 hc, Bool.false_and,
            if_neg Bool.false_ne_true, ← hs, ih]

end Text

/-- What is written as a literal is read as its text. This reader knows no backslashes, so that no
text has to be excluded. -/
theorem Sql.unquoted_quoted (s : List Char) : Sql.unquoted (Sql.quoted s) = s := by
  have hchars : Sql.quoted s = '\'' :: (doubleQuotes '\'' s ++ ['\'']) := by simp [Sql.quoted]
  have htrim : Text.trim (Sql.quoted s) = Sql.quoted s := by
    rw [hchars]
    exact Text.trim_of_ends (by decide) (by decide) _
  rw [Sql.unquoted, htrim, hchars]
  simp [Text.undoubleQuotes_doubleQuotes]

namespace Ddl.Token

/-! ### Backslashes -/

/-- How many backslashes stand at the front of a text. The lexer takes them in pairs, so their
number at the front is what changes when a text with backslashes is read. -/
def slashes (s : List Char) : Nat := (s.takeWhile (· == '\\')).length

/-- One more backslash. -/
theorem slashes_slash (s : List Char) : slashes ('\\' :: s) = slashes s + 1 := rfl

/-- None at the front of a text that starts otherwise. -/
theorem slashes_of_head {s : List Char} (hs : s.head? ≠ some '\\') : slashes s = 0 := by
  cases s with
  | nil => rfl
  | cons c s =>
      rw [slashes, List.takeWhile_cons_of_neg (by simpa using hs)]
      rfl

/-- Only a backslash escapes to one. The letters that stand for control characters are among the
others. -/
theorem unescape_ne_slash {c : Char} (hc : c ≠ '\\') : unescape c ≠ '\\' := by
  unfold unescape
  split
  · decide
  · decide
  · decide
  · exact hc

variable {s t : List Char}

/-- What starts with no backslash is read as such. A quote is doubled, and so read as a quote; a
character that is neither is read as it is; and at the end of the text the literal may be closed. -/
theorem head?_readQuoted (hs : s.head? ≠ some '\\') :
    (readQuoted '\'' true (doubleQuotes '\'' s ++ '\'' :: t)).1.head? ≠ some '\\' := by
  cases s with
  | nil =>
      show (readQuoted '\'' true ('\'' :: t)).1.head? ≠ _
      -- With an empty content the closing mark may be doubled by what follows, and then a mark is
      -- read first.
      by_cases ht : t.head? = some '\''
      · obtain ⟨t, rfl⟩ := List.head?_eq_some_iff.1 ht
        rw [readQuoted_mark_mark]
        exact fun h => absurd (Option.some.inj h) (by decide)
      · rw [readQuoted_close ht]
        simp
  | cons c s =>
      have hc : c ≠ '\\' := by simpa using hs
      rw [doubleQuotes_cons, List.append_assoc]
      split
      · rw [show ['\'', '\''] ++ (doubleQuotes '\'' s ++ '\'' :: t) =
          '\'' :: '\'' :: (doubleQuotes '\'' s ++ '\'' :: t) from rfl, readQuoted_mark_mark]
        exact fun h => absurd (Option.some.inj h) (by decide)
      · rename_i hquote
        rw [List.singleton_append, readQuoted_other hquote fun _ => hc]
        exact fun h => hc (Option.some.inj h)

/-- Behind a single backslash, another character is taken for what it is to escape, even the quote
that was to close the literal. In either case what is read first is no backslash. -/
theorem head?_readQuoted_slash (hs : s.head? ≠ some '\\') :
    (readQuoted '\'' true ('\\' :: (doubleQuotes '\'' s ++ '\'' :: t))).1.head? ≠ some '\\' := by
  obtain ⟨d, r, hr, hd⟩ : ∃ d r, doubleQuotes '\'' s ++ '\'' :: t = d :: r ∧ d ≠ '\\' := by
    cases s with
    | nil => exact ⟨'\'', t, rfl, by decide⟩
    | cons c s =>
        rw [doubleQuotes_cons]
        split
        · exact ⟨'\'', _, rfl, by decide⟩
        · exact ⟨c, _, rfl, by simpa using hs⟩
  rw [hr, readQuoted_escape (by decide)]
  exact fun h => unescape_ne_slash hd (Option.some.inj h)

/-- Of the backslashes at the front of a text, the lexer reads two as one, and a last one that has
none to go with is lost. So a text that starts with backslashes comes back with fewer of them, and
is not the text that was written. -/
theorem slashes_readQuoted (s t : List Char) :
    slashes (readQuoted '\'' true (doubleQuotes '\'' s ++ '\'' :: t)).1 = slashes s / 2 := by
  -- Two backslashes are taken at once, so the induction is on the length.
  induction hn : s.length using Nat.strongRecOn generalizing s with
  | _ n ih =>
      by_cases hs : s.head? = some '\\'
      · obtain ⟨s, rfl⟩ := List.head?_eq_some_iff.1 hs
        rw [List.length_cons] at hn
        rw [doubleQuotes_cons, if_neg (by decide), List.append_assoc, List.singleton_append,
          slashes_slash]
        by_cases hs : s.head? = some '\\'
        · obtain ⟨s, rfl⟩ := List.head?_eq_some_iff.1 hs
          rw [List.length_cons] at hn
          have hrest := ih s.length (by omega) s rfl
          rw [doubleQuotes_cons, if_neg (by decide), List.append_assoc, List.singleton_append,
            readQuoted_escape (by decide), show unescape '\\' = '\\' from rfl, consRead,
            slashes_slash, slashes_slash, hrest]
          omega
        · rw [slashes_of_head (head?_readQuoted_slash hs), slashes_of_head hs]
      · rw [slashes_of_head (head?_readQuoted hs), slashes_of_head hs]

/-- Up to the first backslash, a text is read as it is. A quote in it is doubled, and read as
one. -/
theorem readQuoted_append_of_notMem (hs : '\\' ∉ s) (t : List Char) :
    readQuoted '\'' true (doubleQuotes '\'' s ++ t) =
      (s ++ (readQuoted '\'' true t).1, (readQuoted '\'' true t).2) := by
  induction s with
  | nil => rfl
  | cons c s ih =>
      rw [List.mem_cons, not_or] at hs
      -- A mark was doubled and is read back as one. Any other character is itself, since it is no
      -- backslash.
      rw [doubleQuotes_cons, List.append_assoc]
      split
      · rename_i hquote
        rw [show ['\'', '\''] ++ (doubleQuotes '\'' s ++ t) =
          '\'' :: '\'' :: (doubleQuotes '\'' s ++ t) from rfl, readQuoted_mark_mark, ih hs.2,
          hquote]
        rfl
      · rename_i hquote
        rw [List.singleton_append, readQuoted_other hquote fun _ => Ne.symm hs.1, ih hs.2]
        rfl

/-! ### Literals as tokens -/

/-- A literal is one round, and its text is what stands up to the quote that closes it. What is left
behind that quote is read on its own, and is empty unless a backslash has hidden the quote. -/
theorem tokens_quoted (s : List Char) : tokens (Sql.quoted s) =
    .text (String.ofList (readQuoted '\'' true (doubleQuotes '\'' s ++ ['\''])).1) ::
      tokens (readQuoted '\'' true (doubleQuotes '\'' s ++ ['\''])).2 := by
  rw [show Sql.quoted s = '\'' :: (doubleQuotes '\'' s ++ ['\'']) by simp [Sql.quoted]]
  exact tokens_of_step rfl

/-- The text of a literal is read back exactly if there is no backslash in it. A text with a
backslash is compared from its first one on, where the number of backslashes differs. -/
theorem readQuoted_eq_iff (s : List Char) :
    (readQuoted '\'' true (doubleQuotes '\'' s ++ ['\''])).1 = s ↔ '\\' ∉ s := by
  constructor
  · intro h hmem
    obtain ⟨u, v, rfl, hu⟩ := List.eq_append_cons_of_mem hmem
    rw [show doubleQuotes '\'' (u ++ '\\' :: v) =
        doubleQuotes '\'' u ++ doubleQuotes '\'' ('\\' :: v) from List.flatMap_append,
      List.append_assoc, readQuoted_append_of_notMem hu] at h
    -- From the first backslash on, there are fewer of them than there should be.
    have hslashes := slashes_readQuoted ('\\' :: v) []
    rw [List.append_cancel_left h, slashes_slash] at hslashes
    omega
  · intro h
    rw [readQuoted_append_of_notMem h, readQuoted_close (by simp), List.append_nil]

/-- The lexer reads what it writes as a literal, and nothing else, exactly if there is no
backslash in it. The other reader of literals reads it always, so these are the texts on which the
two agree. -/
theorem tokens_source_text (s : String) :
    (tokens (Token.text s).source.toList = [.text s, .eof] ↔ '\\' ∉ s.toList) ∧
      Sql.unquoted (Token.text s).source.toList = s.toList ∧
      ((tokens (Token.text s).source.toList).head? =
          some (.text (String.ofList (Sql.unquoted (Token.text s).source.toList))) ↔
        '\\' ∉ s.toList) := by
  have hsource : (Token.text s).source.toList = Sql.quoted s.toList := String.toList_ofList
  have hread : String.ofList (readQuoted '\'' true (doubleQuotes '\'' s.toList ++ ['\''])).1 = s ↔
      '\\' ∉ s.toList := by
    rw [← String.toList_inj, String.toList_ofList]
    exact readQuoted_eq_iff s.toList
  rw [hsource, Sql.unquoted_quoted, String.ofList_toList, tokens_quoted]
  -- Tokens are equal if their texts are, so all three parts come down to `hread`.
  refine ⟨⟨fun h => hread.1 ?_, fun h => ?_⟩, rfl, ?_⟩
  · exact Token.text.inj (List.cons.inj h).1
  · rw [readQuoted_append_of_notMem h, readQuoted_close (by simp), List.append_nil,
      String.ofList_toList, tokens_nil]
  · rw [List.head?_cons, Option.some.injEq, Token.text.injEq]
    exact hread

end Ddl.Token

end EntityDiagram
