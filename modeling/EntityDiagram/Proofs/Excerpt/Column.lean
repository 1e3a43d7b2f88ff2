import EntityDiagram.Proofs.Excerpt.Clause

/-!
# `EntityDiagram.Proofs.Excerpt.Column`: columns in plain notation

A part of a table that declares a column starts with a quoted name, so none of the clauses matches
it. It is cut into the name and a definition, and the definition behind the type of the column.

* No option continues the type (`fails_typeContinuation`), so the type is what is declared
  (`cutType?_spaced`).
* In what is left, each option is searched for on its own, and found exactly if it is there
  (`occursIn_optionPattern`); nothing else is found there.
* So a definition is read as the column that is declared (`column?_spaced`).
-/

set_option autoImplicit false

namespace EntityDiagram.Excerpt

open Text (isSpace isWordChar Pattern Place Span)
open Text.Pattern
open Ddl (PlainLexeme PlainType PlainOption PlainColumn Numeral QuotedName Spaced Stops)

variable {α : Type}

/-! ### What a column is not -/

/-- A text that starts with a quoted name declares no key. -/
theorem primaryKey?_quote (s : List Char) : primaryKey? ('`' :: s) = none := by
  have hnone : primaryKeyClause.find? ('`' :: s) = none :=
    find?_constraintName_quote (Fails.bind_left (Fails.word (v := ['`']) (by decide) _ _))
  rw [primaryKey?, hnone]
  rfl

/-- A text that starts with a quoted name declares no foreign key. -/
theorem foreignKey?_quote (table : String) (s : List Char) :
    foreignKey? table ('`' :: s) = none := by
  have hnone : foreignKeyClause.find? ('`' :: s) = none :=
    find?_constraintName_quote (Fails.bind_left (Fails.word (v := ['`']) (by decide) _ _))
  rw [foreignKey?, hnone]
  rfl

/-- A text that starts with a quoted name declares no index. -/
theorem index?_quote (s : List Char) : index? ('`' :: s) = none := by
  have words (ws : List String) (hws : ∀ w ∈ ws, clashes w.toList ['`'] = true) :
      Fails (oneOf (ws.map word)) (.start ('`' :: s)) := Fails.oneOf_words hws none s
  have hindex : indexClause.find? ('`' :: s) = none := by
    refine find?_constraintName_quote (Fails.optional_bind (Fails.bind_assoc ?_) ?_)
    · exact Fails.bind_left (Fails.span (words ["UNIQUE", "FULLTEXT", "SPATIAL"] (by decide)))
    · exact Fails.bind_left (words ["KEY", "INDEX"] (by decide))
  have hunique : uniqueClause.find? ('`' :: s) = none :=
    find?_constraintName_quote (Fails.bind_left (Fails.word (v := ['`']) (by decide) _ _))
  rw [index?, hindex]
  dsimp only
  rw [hunique]
  rfl

/-- A text that starts with a quoted name is no constraint. -/
theorem constraintWord_quote (s : List Char) : constraintWord.occursIn ('`' :: s) = false := by
  have hfails : Fails constraintWord (.start ('`' :: s)) :=
    Fails.bind_right (rfl : textStart _ = [((), _)])
      (Fails.bind_left (Fails.oneOf_words (v := ['`']) (by decide) _ _))
  have hanchored : Anchored constraintWord := Anchored.textStart_bind _
  rw [occursIn, hanchored.search_eq_none hfails]
  rfl

/-! ### Names and definitions -/

/-- A column is cut into its name and its definition. The pattern ends with the text, so the
definition is all that stands behind the name. -/
theorem find?_columnClause {c : PlainColumn} {s : List Char} (h : Spaced c.lexemes s)
    (hs : ∀ c ∈ s.head?, isSpace c = false) : ∃ name rest,
      columnClause.find? s = some (name, rest) ∧ nameOf name = c.name.text ∧
        Spaced (c.type.lexemes ++ c.options.flatMap PlainOption.lexemes) rest.chars := by
  obtain ⟨s₁, rfl, hstops, h⟩ := h.exists_cons_of_head hs
  obtain ⟨g, t, rfl, hne, hg, ht, h⟩ := h.exists_cons_of_stops rfl (hstops rfl)
  obtain ⟨name, before, hname, hspan⟩ := first_plainName c.name
    (g ++ ((PlainLexeme.word c.type.word c.type.isTypeWord.isWord).chars ++ t)) none
  have hdefinition : Spaced (c.type.lexemes ++ c.options.flatMap PlainOption.lexemes)
      ((PlainLexeme.word c.type.word c.type.isTypeWord.isWord).chars ++ t) :=
    .lexeme (fun _ => ht) h
  have hhead := PlainLexeme.isSpace_head? (.word c.type.word c.type.isTypeWord.isWord) t
  have hrest : (PlainLexeme.word c.type.word c.type.isTypeWord.isWord).chars ++ t ≠ [] := by
    simp [PlainLexeme.chars_ne_nil]
  -- Behind the name and white space, the clause takes all that is left.
  generalize (PlainLexeme.word c.type.word c.type.isTypeWord.isWord).chars ++ t = definition at *
  have hall : First (some1 fun _ => true) ⟨after before g, definition ++ []⟩ ()
      ⟨after (after before g) definition, []⟩ := First.some1 hrest (by simp) (by simp) _
  rw [List.append_nil] at hall
  have hclause : First columnClause (.start ((PlainLexeme.name c.name).chars ++ (g ++ definition)))
      (name, ⟨⟨after before g, definition⟩, ⟨after (after before g) definition, []⟩⟩)
      ⟨after (after before g) definition, []⟩ := by
    refine (First.textStart _).bind (hname.bind ?_)
    refine (First.spaces1 hne hg hhead _).bind (hall.span.bind ?_)
    exact (First.textEnd _).bind (First.pure _ _)
  refine ⟨_, _, find?_of_first hclause, nameOf_eq hspan, ?_⟩
  simpa [Span.chars] using hdefinition

/-! ### Types -/

/-- Behind the type of a column, there is white space, and then one of three words or nothing. So
what can follow a type is known from its first letters. -/
theorem exists_options_front {os : List PlainOption} {s : List Char}
    (h : Spaced (os.flatMap PlainOption.lexemes) s) : ∃ g t, s = g ++ t ∧
      (∀ c ∈ g, isSpace c = true) ∧ (∀ c ∈ t.head?, isSpace c = false) ∧
        (t = [] ∨ ∃ v ∈ ["NOT", "AUTO_INCREMENT", "PRIMARY"], ∃ u, t = v.toList ++ u) := by
  cases os with
  | nil => exact ⟨s, [], by simp, h.isSpace_of_nil, by simp, .inl rfl⟩
  | cons o os =>
      -- Every option begins with a word of its own.
      obtain ⟨l, more, v, hlexemes, hchars, hv⟩ : ∃ l more v, o.lexemes = l :: more ∧
          l.chars = v.toList ∧ v ∈ ["NOT", "AUTO_INCREMENT", "PRIMARY"] := by
        cases o with
        | notNull => exact ⟨_, _, "NOT", rfl, rfl, by simp⟩
        | autoIncrement => exact ⟨_, _, "AUTO_INCREMENT", rfl, rfl, by simp⟩
        | primaryKey => exact ⟨_, _, "PRIMARY", rfl, rfl, by simp⟩
      rw [List.flatMap_cons, hlexemes] at h
      obtain ⟨g, t, rfl, hg, -⟩ := h.exists_cons
      exact ⟨g, _, rfl, hg, l.isSpace_head? t, .inr ⟨v, hv, t, by rw [hchars]⟩⟩

/-- What stands behind the type of a column opens no brackets. -/
theorem head?_options {g t : List Char} (hg : ∀ c ∈ g, isSpace c = true)
    (ht : t = [] ∨ ∃ v ∈ ["NOT", "AUTO_INCREMENT", "PRIMARY"], ∃ u, t = v.toList ++ u) :
    ∀ c ∈ (g ++ t).head?, c ∉ ['(', '['] := by
  intro c hc hmem
  -- The first character is one of the space before the options, or else the first letter of an
  -- option.
  cases g with
  | cons d g =>
      obtain rfl := Option.some.inj hc
      have hspace := hg d (by simp)
      simp only [List.mem_cons, List.not_mem_nil, or_false] at hmem
      rcases hmem with rfl | rfl <;> exact absurd hspace (by decide)
  | nil =>
      rcases ht with rfl | ⟨v, hv, u, rfl⟩
      · cases hc
      · simp only [List.mem_cons, List.not_mem_nil, or_false] at hv
        rcases hv with rfl | rfl | rfl
        all_goals
          obtain rfl := Option.some.inj hc
          exact absurd hmem (by decide)

/-- No option continues the type. -/
theorem fails_typeContinuation {os : List PlainOption} {s : List Char}
    (h : Spaced (os.flatMap PlainOption.lexemes) s) : Fails typeContinuation (.start s) := by
  obtain ⟨g, t, rfl, hg, hhead, ht⟩ := exists_options_front h
  refine Fails.bind_right (rfl : textStart _ = [((), _)]) ?_
  refine (Takes.some1 fun _ h => h).fails_bind hg hhead (fun _ _ c t hc => ?_) fun _ => ?_
  · exact Fails.bind_left (Fails.oneOf_words_of_head (by decide) (by simpa using hc) _)
  · rcases ht with rfl | ⟨v, hv, u, rfl⟩
    · exact Fails.bind_left (Fails.oneOf_words_of_head (by decide) (by simp) _)
    · simp only [List.mem_cons, List.not_mem_nil, or_false] at hv
      rcases hv with rfl | rfl | rfl <;>
        exact Fails.bind_left (Fails.oneOf_words (by decide) _ _)

/-- So the type ends there. -/
theorem afterType_options {os : List PlainOption} {s : List Char}
    (h : Spaced (os.flatMap PlainOption.lexemes) s) (fuel : Nat) : afterType fuel s = s := by
  cases fuel with
  | zero => rfl
  | succ fuel =>
      rw [afterType, matchAt?, show typeContinuation (.start s) = [] from fails_typeContinuation h]
      rfl

/-- No brackets follow a type. -/
theorem first_brackets {os : List PlainOption} {s : List Char}
    (h : Spaced (os.flatMap PlainOption.lexemes) s) (before : Option Char) :
    First (repeated (exactly ['[', ']'])) ⟨before, s⟩ () ⟨before, s⟩ := by
  obtain ⟨g, t, rfl, hg, -, ht⟩ := exists_options_front h
  refine First.repeated_none (Fails.bind_left (Fails.char fun c hc => ?_))
  have hnot := head?_options hg ht c hc
  simp only [List.mem_cons, not_or] at hnot
  simpa using hnot.2.1

/-- Without arguments, a type ends with its word. -/
theorem first_typeArguments_none {os : List PlainOption} {s : List Char}
    (h : Spaced (os.flatMap PlainOption.lexemes) s) (before : Option Char) :
    First typeArguments ⟨before, s⟩ () ⟨before, s⟩ := by
  have hbrackets := first_brackets h before
  obtain ⟨g, t, rfl, hg, hhead, ht⟩ := exists_options_front h
  -- A parenthesis could only stand behind the space, where an option begins instead.
  refine (First.optional_none ?_).bind hbrackets
  refine (Takes.many fun _ h => h).fails_bind hg hhead (fun _ _ c _ hc => ?_) fun _ => ?_
  · refine Fails.bind_left (Fails.char fun d hd => ?_)
    obtain rfl := Option.some.inj hd
    rw [beq_eq_false_iff_ne]
    rintro rfl
    exact absurd hc (by decide)
  · refine Fails.bind_left (Fails.char fun c hc => ?_)
    have hnot := head?_options (g := []) (by simp) ht c hc
    simp only [List.mem_cons, not_or] at hnot
    simpa using hnot.1

/-- The arguments of a type are read with their parentheses. There is no parenthesis within them, so
the first one that closes is theirs. -/
theorem first_typeArguments {g inner t : List Char} (hg : ∀ c ∈ g, isSpace c = true)
    (hinner : ')' ∉ inner) {os : List PlainOption} (h : Spaced (os.flatMap PlainOption.lexemes) t)
    (before : Option Char) : First typeArguments ⟨before, g ++ '(' :: (inner ++ ')' :: t)⟩ ()
      ⟨some ')', t⟩ := by
  have hclose : ∀ c ∈ inner, (c != ')') = true := by
    intro c hc
    rw [bne_iff_ne]
    rintro rfl
    exact hinner hc
  have hopen : ∀ c ∈ ('(' :: (inner ++ ')' :: t)).head?, isSpace c = false := by
    rintro c hc
    obtain rfl := Option.some.inj hc
    decide
  -- The arguments go up to the first closing parenthesis, which is the one written.
  refine (First.optional (a := ()) ?_).bind (first_brackets h (some ')'))
  refine (First.spaces hg hopen _).bind ?_
  refine (First.of_singleton (char_of (by decide) _ _)).bind ?_
  refine (First.many hclose (by simp) _).bind ?_
  exact First.of_singleton (char_of (by decide) _ _)

/-- A text is cut behind its type. It is the common part of types with arguments and without. -/
theorem cutType?_append {word u t : List Char} (hword : Text.isPlainWord word = true)
    (hchars : ∀ c ∈ word, isWordChar c = true) (hstops : Stops (u ++ t))
    (harguments : ∀ before, ∃ before', First typeArguments ⟨before, u ++ t⟩ () ⟨before', t⟩)
    {os : List PlainOption} (h : Spaced (os.flatMap PlainOption.lexemes) t) :
    cutType? (word ++ u ++ t) = some (word ++ u, t) := by
  have hhead : ∃ before, First typeHead (.start (word ++ u ++ t)) () ⟨before, t⟩ := by
    cases word with
    | nil => cases hword
    | cons c word =>
        rw [Text.isPlainWord, Bool.and_eq_true] at hword
        -- A plain word starts as the word of a type has to.
        have hletter : (Text.isAsciiLetter c || c == '_') = true := by
          have hstarts := hword.1
          simp only [Text.startsPlain, Bool.or_eq_true, Bool.and_eq_true] at hstarts
          simp only [Text.isAsciiLetter, Bool.or_eq_true, Bool.and_eq_true]
          tauto
        obtain ⟨before, hread⟩ := harguments (after (some c) word)
        rw [List.append_assoc]
        refine ⟨before, (First.textStart _).bind ?_⟩
        refine (First.of_singleton (char_of hletter _ _)).bind ?_
        exact (First.many (fun d hd => hchars d (by simp [hd]))
          (fun d hd => (hstops.facts d hd).1) _).bind hread
  obtain ⟨before, hhead⟩ := hhead
  rw [cutType?, matchAt?, show (typeHead _).head? = _ from hhead, Option.map_some]
  dsimp only
  rw [afterType_options h, List.length_append, Nat.add_sub_cancel, List.take_left]

/-- The declared type is cut off a definition and read. The text of the type is what the column
keeps, in its normal form. -/
theorem cutType?_spaced {type : PlainType} {os : List PlainOption} {s : List Char}
    (h : Spaced (type.lexemes ++ os.flatMap PlainOption.lexemes) s)
    (hs : ∀ c ∈ s.head?, isSpace c = false) : ∃ declared options,
      cutType? s = some (declared, options) ∧ Sql.ColumnType.ofText declared = type.columnType ∧
        Spaced (os.flatMap PlainOption.lexemes) options := by
  have hword := type.word.isPlain
  have hchars : ∀ c ∈ type.word.text.toList, isWordChar c = true :=
    List.all_eq_true.1 type.isTypeWord.isWord
  obtain ⟨t, rfl, hstops, h⟩ := h.exists_cons_of_head hs
  have hstops : Stops t := hstops rfl
  cases harguments : type.arguments with
  | nil =>
      rw [harguments] at h
      have hcut := cutType?_append (u := []) hword hchars hstops
        (fun before => ⟨before, first_typeArguments_none h before⟩) h
      rw [List.append_nil] at hcut
      refine ⟨_, t, hcut, ?_, h⟩
      rw [Sql.ColumnType.ofText_word hword type.signWords_word, PlainType.columnType, harguments]
      rfl
  | cons n ns =>
      rw [harguments] at h
      have hgroup : Spaced (.openParen :: (PlainLexeme.separated
          ((n :: ns).map fun n => [PlainLexeme.numeral n]) ++
            .closeParen :: os.flatMap PlainOption.lexemes)) t := by
        simpa [PlainType.argumentLexemes] using h
      obtain ⟨g, s₁, rfl, hg, -, hgroup⟩ := hgroup.exists_cons
      obtain ⟨inner, s₂, rfl, hinner, hgroup, hhead⟩ := hgroup.exists_append
      obtain ⟨options, rfl, -, hoptions⟩ := hgroup.exists_cons_of_head hhead
      -- The arguments are numerals between commas, with white space around them.
      obtain ⟨xs, rfl, hxs⟩ := hinner.exists_joinWith (by simp)
      have hpadded : List.Forall₂ Text.Padded (type.arguments.map Numeral.digits) xs := by
        rw [harguments, List.forall₂_map_left_iff]
        rw [List.forall₂_map_left_iff] at hxs
        exact hxs.imp fun n x hx => hx.padded
      have hread := first_typeArguments hg
        (Sql.ColumnType.closeParen_notMem_arguments type.digits_plain hpadded) hoptions
      have hcut := cutType?_append (u := g ++ '(' :: (Text.joinWith [','] xs ++ [')']))
        (t := options) hword hchars (by simpa [PlainLexeme.chars] using hstops)
        (fun before => ⟨_, by simpa using hread before⟩) hoptions
      have htype := Sql.ColumnType.ofText_arguments hword type.signWords_word hg
        (by simp [harguments]) type.digits_plain hpadded
      refine ⟨type.word.text.toList ++ (g ++ '(' :: (Text.joinWith [','] xs ++ [')'])), options,
        ?_, ?_, hoptions⟩
      · simpa [PlainLexeme.chars] using hcut
      · simpa [PlainType.columnType] using htype

/-! ### Options -/

/-- A word starts and ends with characters of a word. -/
theorem wordChar_ends {w : String} (hw : w.toList.all Text.startsPlain = true)
    (hne : w.toList ≠ []) : (∀ t, ∃ c ∈ (w.toList ++ t).head?, isWordChar c = true) ∧
      ∀ before, ∃ c ∈ after before w.toList, isWordChar c = true := by
  have hchars : ∀ c ∈ w.toList, isWordChar c = true :=
    fun c hc => (startsPlain_facts (List.all_eq_true.1 hw c hc)).1
  constructor
  · intro t
    refine ⟨w.toList.head hne, ?_, hchars _ (List.head_mem hne)⟩
    rw [List.head?_append_of_ne_nil _ hne, List.head?_eq_some_head hne]
    rfl
  · intro before
    refine ⟨w.toList.getLast hne, ?_, hchars _ (List.getLast_mem hne)⟩
    rw [after, List.getLast?_eq_some_getLast hne]
    rfl

/-- A phrase is keyed by its first word. -/
theorem keyed_phrase {first : String} (hfirst : first.toList.all Text.startsPlain = true)
    (hne : first.toList ≠ []) (more : List String) : Keyed [first] (phrase first more) := by
  refine Keyed.of_word hfirst hne ?_
  cases more with
  | nil => exact EndsWord.pure_bind EndsWord.boundary
  | cons w more =>
      exact (((StartsSpace.spaces1_bind _).endsWord.bind _).bind _)

/-- The pattern that looks for an option. -/
def optionPattern : PlainOption → Pattern Unit
  | .notNull => phrase "NOT" ["NULL"]
  | .autoIncrement => autoIncrementWord
  | .primaryKey => phrase "PRIMARY" ["KEY"]

/-- The words at which the pattern for an option may match. -/
def optionWords : PlainOption → List String
  | .notNull => ["NOT"]
  | .autoIncrement => ["AUTO_INCREMENT", "AUTOINCREMENT", "IDENTITY"]
  | .primaryKey => ["PRIMARY"]

/-- The pattern for an option is keyed. -/
theorem keyed_optionPattern (o : PlainOption) : Keyed (optionWords o) (optionPattern o) := by
  cases o with
  | notNull => exact keyed_phrase (by decide) (by decide) _
  | primaryKey => exact keyed_phrase (by decide) (by decide) _
  | autoIncrement =>
      refine Keyed.oneOf fun p hp => ?_
      simp only [List.mem_cons, List.not_mem_nil, or_false] at hp
      rcases hp with rfl | rfl | rfl
      · exact (keyed_phrase (by decide) (by decide) _).mono (by decide)
      · exact (keyed_phrase (by decide) (by decide) _).mono (by decide)
      · exact (keyed_phrase (by decide) (by decide) _).mono (by decide)

/-- The lexemes of an option are words. -/
theorem run?_option {o : PlainOption} : ∀ l ∈ o.lexemes, (∀ n, l ≠ .name n) ∧
    ∃ w ∈ ["NOT", "NULL", "AUTO_INCREMENT", "PRIMARY", "KEY"], l.run? = some w.toList := by
  intro l hl
  -- These are all the words that the options are written with.
  cases o with
  | autoIncrement =>
      obtain rfl := List.mem_singleton.1 hl
      exact ⟨by simp, "AUTO_INCREMENT", by simp, rfl⟩
  | notNull =>
      simp only [PlainOption.lexemes, List.mem_cons, List.not_mem_nil, or_false] at hl
      rcases hl with rfl | rfl
      · exact ⟨by simp, "NOT", by simp, rfl⟩
      · exact ⟨by simp, "NULL", by simp, rfl⟩
  | primaryKey =>
      simp only [PlainOption.lexemes, List.mem_cons, List.not_mem_nil, or_false] at hl
      rcases hl with rfl | rfl
      · exact ⟨by simp, "PRIMARY", by simp, rfl⟩
      · exact ⟨by simp, "KEY", by simp, rfl⟩

/-- A search for other words than those of the options steps over them. No word in a plain option
begins with another one. -/
theorem searchFrom_options_eq_none {p : Pattern α} {ws : List String} (hp : Keyed ws p)
    (hws : ∀ w ∈ ws, w ∉ ["NOT", "NULL", "AUTO_INCREMENT", "PRIMARY", "KEY"])
    {os : List PlainOption} {s : List Char} (h : Spaced (os.flatMap PlainOption.lexemes) s) :
    p.search (.start s) = none := by
  refine searchFrom_eq_none hp (fun l hl => ?_) h (.start s)
  obtain ⟨o, -, hl⟩ := List.mem_flatMap.1 hl
  obtain ⟨hname, w, hw, hrun⟩ := run?_option l hl
  refine ⟨fun ⟨n, hn⟩ => absurd hn (hname n), fun w' hw' hrun' => hws w' hw' ?_⟩
  rw [hrun] at hrun'
  rwa [← String.toList_inj.1 (Option.some.inj hrun')]

/-- Nor does it find anything to read. -/
theorem find?_options_eq_none {p : Pattern α} {ws : List String} (hp : Keyed ws p)
    (hws : ∀ w ∈ ws, w ∉ ["NOT", "NULL", "AUTO_INCREMENT", "PRIMARY", "KEY"])
    {os : List PlainOption} {s : List Char} (h : Spaced (os.flatMap PlainOption.lexemes) s) :
    p.find? s = none := by
  rw [find?, searchFrom_options_eq_none hp hws h]
  rfl

/-- A single word is a phrase. Neither side of it may touch a further character of a word. -/
theorem first_phrase {u : String} (hu : u.toList.all Text.startsPlain = true)
    (hne : u.toList ≠ []) {before : Option Char} (hbefore : ∀ c ∈ before, isWordChar c = false)
    {t : List Char} (ht : Stops t) :
    ∃ before', First (phrase u []) ⟨before, u.toList ++ t⟩ () ⟨before', t⟩ := by
  obtain ⟨hhead, hlast⟩ := wordChar_ends hu hne
  exact ⟨_, (First.boundary hbefore (hhead t)).bind ((First.word hu _ _).bind
    ((First.pure _ _).bind (First.boundary_end (hlast _) fun c hc => (ht.facts c hc).1)))⟩

/-- Two words are a phrase, whatever white space is between them. One blank is enough, and more do
not matter. -/
theorem first_phrase_pair {u v : String} (hu : u.toList.all Text.startsPlain = true)
    (hune : u.toList ≠ []) (hv : v.toList.all Text.startsPlain = true) (hvne : v.toList ≠ [])
    {before : Option Char} (hbefore : ∀ c ∈ before, isWordChar c = false) {g t : List Char}
    (hne : g ≠ []) (hg : ∀ c ∈ g, isSpace c = true)
    (hhead : ∀ c ∈ (v.toList ++ t).head?, isSpace c = false) (ht : Stops t) : ∃ before',
      First (phrase u [v]) ⟨before, u.toList ++ (g ++ (v.toList ++ t))⟩ () ⟨before', t⟩ := by
  have hstart := (wordChar_ends hu hune).1 (g ++ (v.toList ++ t))
  have hlast := (wordChar_ends hv hvne).2
  have hmore : First ([v].forM fun w => do spaces1; word w)
      ⟨after before u.toList, g ++ (v.toList ++ t)⟩ ()
      ⟨after (after (after before u.toList) g) v.toList, t⟩ :=
    ((First.spaces1 hne hg hhead _).bind (First.word hv _ _)).bind (First.pure _ _)
  exact ⟨_, (First.boundary hbefore hstart).bind ((First.word hu _ _).bind (hmore.bind
    (First.boundary_end (hlast _) fun c hc => (ht.facts c hc).1)))⟩

/-- The pattern for an option matches where the option stands. -/
theorem isSome_searchFrom_option (o : PlainOption) {ls : List PlainLexeme} {s : List Char}
    (h : Spaced (o.lexemes ++ ls) s) {before : Option Char} (hbefore : Fresh before s) :
    (searchFrom (optionPattern o) before s).isSome = true := by
  -- A keyword with another one behind it.
  have pair (k k' : Ddl.Keyword) (hk : k.word.toList.all Text.startsPlain = true)
      (hk' : k'.word.toList.all Text.startsPlain = true)
      (hkeyed : Keyed [k.word] (phrase k.word [k'.word]))
      (h : Spaced ([] ++ .keyword k :: .keyword k' :: ls) s) :
      (searchFrom (phrase k.word [k'.word]) before s).isSome = true := by
    obtain ⟨before', t, heq, hbefore', hstops, ht⟩ :=
      exists_searchFrom_run (r := k.word.toList) hkeyed (by simp) rfl h hbefore
    obtain ⟨g, u, rfl, hne, hg, hu, -⟩ := ht.exists_cons_of_stops rfl hstops
    obtain ⟨after, hread⟩ := first_phrase_pair hk (PlainLexeme.chars_ne_nil (.keyword k)) hk'
      (PlainLexeme.chars_ne_nil (.keyword k')) hbefore' hne hg
      (PlainLexeme.isSpace_head? (.keyword k') u) hu
    have hfound := heq.trans (searchFrom_of_first hread)
    rw [hfound]
    rfl
  cases o with
  | notNull => exact pair .not .null (by decide) (by decide) (keyed_optionPattern .notNull) h
  | primaryKey =>
      exact pair .primary .key (by decide) (by decide) (keyed_optionPattern .primaryKey) h
  | autoIncrement =>
      have hword : Spaced ([] ++ .word .autoIncrement (by decide) :: ls) s := h
      obtain ⟨before', t, heq, hbefore', hstops, -⟩ := exists_searchFrom_run
        (r := "AUTO_INCREMENT".toList) (keyed_optionPattern .autoIncrement) (by simp) rfl hword
        hbefore
      obtain ⟨after, hread⟩ := first_phrase (u := "AUTO_INCREMENT") (by decide) (by decide)
        hbefore' hstops
      have hfirst : First (optionPattern .autoIncrement)
        ⟨before', "AUTO_INCREMENT".toList ++ t⟩ () ⟨after, t⟩ := hread.oneOf_head _
      rw [heq, searchFrom_of_first hfirst]
      rfl

/-- A search for an option finds it exactly if it is there. -/
theorem occursIn_optionPattern (o : PlainOption) {os : List PlainOption} {s : List Char}
    (h : Spaced (os.flatMap PlainOption.lexemes) s) :
    (optionPattern o).occursIn s = os.contains o := by
  have hkeyed := keyed_optionPattern o
  have key {before : Option Char} (hbefore : Fresh before s) :
      (searchFrom (optionPattern o) before s).isSome = os.contains o := by
    induction os generalizing s before with
    | nil =>
        rw [searchFrom_eq_none hkeyed (by simp) h hbefore]
        rfl
    | cons o' os ih =>
        rw [List.flatMap_cons] at h
        rw [List.contains_cons]
        by_cases ho : o = o'
        · subst ho
          rw [isSome_searchFrom_option o h hbefore, beq_self_eq_true, Bool.true_or]
        · -- Two different options have no word in common, so the search steps over the other one.
          have hsteps : ∀ l ∈ o'.lexemes, StepsOver (optionWords o) (optionPattern o) l := by
            refine fun l hl => ⟨fun ⟨n, hn⟩ => absurd hn ((run?_option l hl).1 n), ?_⟩
            revert l
            cases o <;> cases o' <;> first | exact absurd rfl ho | decide
          obtain ⟨before', t, heq, hfresh, h⟩ := exists_searchFrom_append hkeyed hsteps h hbefore
          rw [heq, ih h hfresh, beq_eq_false_iff_ne.2 ho, Bool.false_or]
  exact key (.start s)

/-! ### Columns -/

/-- Where there is no quote, there is no literal. -/
theorem blankLiterals_eq_self {s : List Char} (h : '\'' ∉ s) : blankLiterals s = s := by
  have hnone : literal.search (.start s) = none := by
    refine Text.Pattern.searchFrom_eq_none (fun t ht before => ?_) none
    refine Fails.bind_left (Fails.char fun c hc => ?_)
    rw [beq_eq_false_iff_ne]
    rintro rfl
    exact h (ht.subset (List.mem_of_mem_head? hc))
  have hmatches : literal.allMatches s = [] := by
    rw [allMatches, matchesUpTo, hnone]
  rw [blankLiterals, replaceAll, hmatches]
  rfl

/-- There is no quote among the options of a column. -/
theorem quote_notMem_options {os : List PlainOption} {s : List Char}
    (h : Spaced (os.flatMap PlainOption.lexemes) s) : '\'' ∉ s := by
  have hchars := h.forall_chars (q := (· ≠ '\'')) (fun c hc => ?_) fun l _ c hc => ?_
  · exact fun hmem => hchars _ hmem rfl
  · rintro rfl
    exact absurd hc (by decide)
  · rintro rfl
    exact (l.chars_facts _ hc).2 (by simp)

/-- A type and options in plain notation are read as the column that they declare. The options are
looked for by their patterns, each on its own. -/
theorem column?_of_cutType? {definition declared options : List Char}
    (hcut : cutType? definition = some (declared, options)) {os : List PlainOption}
    (h : Spaced (os.flatMap PlainOption.lexemes) options) (table name : String) :
    column? table name definition = some { column :=
      { Ddl.columnOfType name (Sql.ColumnType.ofText declared) with
        nullable := !os.contains .notNull && !os.contains .primaryKey
        inPrimaryKey := os.contains .primaryKey
        autoIncrement :=
          (Sql.ColumnType.ofText declared).isSerial || os.contains .autoIncrement } } := by
  have hnull : (phrase "NOT" ["NULL"]).occursIn options = os.contains .notNull :=
    occursIn_optionPattern .notNull h
  have hkey : (phrase "PRIMARY" ["KEY"]).occursIn options = os.contains .primaryKey :=
    occursIn_optionPattern .primaryKey h
  have hauto : autoIncrementWord.occursIn options = os.contains .autoIncrement :=
    occursIn_optionPattern .autoIncrement h
  -- The other words that a column may carry do not occur.
  have hdefault : defaultClause.find? options = none :=
    find?_options_eq_none (Keyed.of_word (w := "DEFAULT") (by decide) (by decide)
      (StartsSpace.spaces1_bind _).endsWord) (by decide) h
  have hcomment : commentClause.find? options = none :=
    find?_options_eq_none (Keyed.of_word (w := "COMMENT") (by decide) (by decide)
      (StartsSpace.spaces1_bind _).endsWord) (by decide) h
  have hreference : referenceClause.find? options = none :=
    find?_options_eq_none (Keyed.of_word (w := "REFERENCES") (by decide) (by decide)
      (StartsSpace.spaces1_bind _).endsWord) (by decide) h
  have hunique : (phrase "UNIQUE" []).occursIn options = false := by
    have hkeyed : Keyed ["UNIQUE"] (phrase "UNIQUE" []) := keyed_phrase (by decide) (by decide) []
    rw [occursIn, searchFrom_options_eq_none hkeyed (by decide) h]
    rfl
  rw [column?, hcut, Option.map_some]
  simp [blankLiterals_eq_self (quote_notMem_options h), hnull, hkey, hauto, hdefault, hcomment,
    hunique, hreference, Ddl.columnOfType]

/-- A definition is read as the column that is declared. -/
theorem column?_spaced (table : String) {c : PlainColumn} {s : List Char}
    (h : Spaced (c.type.lexemes ++ c.options.flatMap PlainOption.lexemes) s)
    (hs : ∀ c ∈ s.head?, isSpace c = false) :
    column? table c.name.text s = some { column := c.column } := by
  obtain ⟨declared, options, hcut, htype, hoptions⟩ := cutType?_spaced h hs
  rw [column?_of_cutType? hcut hoptions, htype]
  rfl

end EntityDiagram.Excerpt
