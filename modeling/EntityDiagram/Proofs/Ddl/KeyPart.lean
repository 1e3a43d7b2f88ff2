import EntityDiagram.Ddl.Cursor
import EntityDiagram.Proofs.Ddl.PlainLexeme

/-!
# `EntityDiagram.Proofs.Ddl.KeyPart`: two readings of the column lists of keys

The columns of a key are written with prefix lengths and orderings. The reader of tokens takes the
first name behind each comma. The reader of plain text cuts at commas and takes of each piece what
stands in front of white space and parentheses.

* `listedNames_written`: the reader of tokens reads all names, whatever stands behind them.
* `listedName_of_endsAtName`, `isSpace_of_mem_listedName`, `mark_mem_listedName`: what the reader of
  text takes of one part.
* `columnNames_written_and_columnList_iff`: the main statement. The readers agree exactly if no name
  holds white space and no ordering touches the name in front of it.

A part of a key is a name, perhaps a length in parentheses, and perhaps the word of an ordering,
with any white space between. Quoted names may hold anything but their mark: the first reader has
tokens and so meets a name as one thing, while the second cuts the text at white space, also inside
the quotes. The condition that decides is `EndsAtName`, and it is exact in both directions.
-/

set_option autoImplicit false

namespace EntityDiagram.Ddl

open Text (isSpace isAsciiDigit)
open Token (tokens startsAsciiWord)

/-! ### Parts of a key -/

/-- A prefix length in parentheses, with any white space before and in them. -/
structure PrefixLength where
  before : Gap
  inside : Gap
  length : Numeral
  closing : Gap

/-- The characters of a prefix length. -/
def PrefixLength.chars (l : PrefixLength) : List Char :=
  l.before.chars ++ '(' :: (l.inside.chars ++ (l.length.digits ++ (l.closing.chars ++ [')'])))

/-- An ordering in any letter case, with any white space in front. -/
structure SortOrder where
  before : Gap
  word : String
  isOrder : Text.eqIgnoreCase word "ASC" = true ∨ Text.eqIgnoreCase word "DESC" = true

/-- The characters of an ordering. -/
def SortOrder.chars (o : SortOrder) : List Char := o.before.chars ++ o.word.toList

/-- A column in the list of a key. Its name stands in backticks and holds no quotation mark, comma
or parenthesis. -/
structure KeyPart where
  before : Gap
  name : String
  nonempty : name.toList ≠ []
  isBare : ∀ c ∈ name.toList, Sql.isQuoteMark c = false ∧ c ∉ [',', '(', ')']
  length : Option PrefixLength
  order : Option SortOrder
  after : Gap

namespace KeyPart

/-- What stands behind the name. -/
def behind (p : KeyPart) : List Char :=
  p.length.elim [] PrefixLength.chars ++ (p.order.elim [] SortOrder.chars ++ p.after.chars)

/-- The characters of a part. -/
def chars (p : KeyPart) : List Char :=
  p.before.chars ++ '`' :: (p.name.toList ++ '`' :: p.behind)

/-- No white space is in the name, and behind it there is white space, a parenthesis or nothing. -/
def EndsAtName (p : KeyPart) : Prop :=
  (∀ c ∈ p.name.toList, isSpace c = false) ∧ ∀ c ∈ p.behind.head?, isSpace c = true ∨ c = '('

end KeyPart

/-- The column list of a key, without its parentheses. -/
def written (parts : List KeyPart) : List Char :=
  Text.joinWith [','] (parts.map KeyPart.chars)

/-! ### The words of an ordering -/

/-- The word of an ordering is an ASCII word of letters. -/
theorem SortOrder.word_facts (o : SortOrder) : ∀ c ∈ o.word.toList, startsAsciiWord c = true := by
  rcases o.isOrder with h | h
  · exact Token.startsAsciiWord_of_eqIgnoreCase (by decide) h
  · exact Token.startsAsciiWord_of_eqIgnoreCase (by decide) h

/-- The word of an ordering has characters. -/
theorem SortOrder.word_ne_nil (o : SortOrder) : o.word.toList ≠ [] := by
  intro hnil
  have horder := o.isOrder
  rw [Text.eqIgnoreCase, Text.eqIgnoreCase, hnil] at horder
  exact absurd horder (by decide)

/-! ### The reader of tokens -/

/-- The tokens of a prefix length. -/
def PrefixLength.tokens (l : PrefixLength) : List Token :=
  [.openParen, .number (String.ofList l.length.digits), .closeParen]

/-- The tokens of what stands behind the name of a part. -/
def KeyPart.tokensBehind (p : KeyPart) : List Token :=
  p.length.elim [] PrefixLength.tokens ++ p.order.elim [] fun o => [Token.ofWord o.word.toList]

/-- A prefix length is read as its three tokens. -/
theorem PrefixLength.tokens_chars (l : PrefixLength) (s : List Char) :
    Token.tokens (l.chars ++ s) = l.tokens ++ Token.tokens s := by
  have hclosing : Stops (l.closing.chars ++ ')' :: s) :=
    l.closing.stops_append (by simp [Stops, isSymbol])
  have hnumeral := (PlainLexeme.numeral l.length).tokens_chars fun _ => hclosing
  rw [PlainLexeme.chars, PlainLexeme.token] at hnumeral
  rw [PrefixLength.chars, List.append_assoc, l.before.tokens_append]
  simp only [List.cons_append, List.append_assoc, List.nil_append]
  rw [Token.tokens_symbol (t := .openParen) (by decide), l.inside.tokens_append, hnumeral,
    l.closing.tokens_append, Token.tokens_symbol (t := .closeParen) (by decide)]
  rfl

/-- An ordering is read as a word. -/
theorem SortOrder.tokens_chars (o : SortOrder) {s : List Char} (hs : Stops s) :
    tokens (o.chars ++ s) = Token.ofWord o.word.toList :: tokens s := by
  rw [SortOrder.chars, List.append_assoc, o.before.tokens_append]
  have hword := o.word_facts
  obtain ⟨c, rest, hchars⟩ := List.exists_cons_of_ne_nil o.word_ne_nil
  rw [hchars] at hword ⊢
  exact tokens_asciiWord (hword c (by simp))
    (fun d hd => isNameChar_of_startsAsciiWord (hword d (by simp [hd])))
    fun d hd => (hs.facts d hd).2.1

namespace KeyPart

/-- Behind the name stands an ordering that touches it, or white space, a parenthesis or nothing. -/
theorem behind_cases (p : KeyPart) :
    (∀ c ∈ p.behind.head?, isSpace c = true ∨ c = '(') ∨
      ∃ w g, p.behind = w ++ g ∧ w ≠ [] ∧ (∀ c ∈ w, startsAsciiWord c = true) ∧
        ∀ c ∈ g, isSpace c = true := by
  rw [behind]
  -- What stands behind the closing quote is a length, a sort order or only space, looked at in this
  -- order.
  cases p.length with
  | some l =>
      refine .inl ?_
      rw [Option.elim, PrefixLength.chars, List.append_assoc]
      exact l.before.head?_append (fun _ => .inl) (by simp)
  | none =>
      cases p.order with
      | none =>
          refine .inl fun c hc => .inl (p.after.isSpace c (List.mem_of_mem_head? ?_))
          simpa using hc
      | some o =>
          rw [Option.elim, Option.elim, SortOrder.chars, List.nil_append]
          cases hbefore : o.before.chars with
          | nil => exact .inr ⟨o.word.toList, p.after.chars, rfl, o.word_ne_nil, o.word_facts,
              p.after.isSpace⟩
          | cons d before =>
              refine .inl fun c hc => .inl (o.before.isSpace c ?_)
              obtain rfl := Option.some.inj hc
              simp [hbefore]

/-- No mark follows the one that closes the name. -/
theorem head?_behind_ne (p : KeyPart) {s : List Char} (hs : Stops s) :
    (p.behind ++ s).head? ≠ some '`' := by
  intro hhead
  -- A second quote mark would make the closing one a doubled mark, which the name goes on after.
  rcases p.behind_cases with h | ⟨w, g, hbehind, hne, hw, -⟩
  · cases hbehind : p.behind with
    | nil =>
        rw [hbehind] at hhead
        exact absurd (hs.facts _ hhead).2.2.2 (by decide)
    | cons c rest =>
        rw [hbehind] at hhead h
        obtain rfl := Option.some.inj hhead
        exact absurd (h '`' rfl) (by decide)
  · obtain ⟨c, rest, rfl⟩ := List.exists_cons_of_ne_nil hne
    rw [hbehind] at hhead
    obtain rfl := Option.some.inj hhead
    exact absurd (hw '`' (by simp)) (by decide)

/-- What stands behind a name is read as its tokens. -/
theorem tokens_behind (p : KeyPart) {s : List Char} (hs : Stops s) :
    tokens (p.behind ++ s) = p.tokensBehind ++ tokens s := by
  have hafter := p.after.stops_append hs
  have horder : tokens (p.order.elim [] SortOrder.chars ++ (p.after.chars ++ s)) =
      (p.order.elim [] fun o => [Token.ofWord o.word.toList]) ++ tokens s := by
    cases p.order with
    | none => exact p.after.tokens_append s
    | some o => exact (o.tokens_chars hafter).trans (congrArg _ (p.after.tokens_append s))
  rw [behind, tokensBehind, List.append_assoc, List.append_assoc, List.append_assoc, ← horder]
  cases p.length with
  | none => rfl
  | some l => exact l.tokens_chars _

/-- A part is read as its name and what stands behind it. -/
theorem tokens_chars (p : KeyPart) {s : List Char} (hs : Stops s) :
    tokens (p.chars ++ s) = .name p.name :: (p.tokensBehind ++ tokens s) := by
  have hmark : '`' ∉ p.name.toList := fun hmem => absurd (p.isBare _ hmem).1 (by decide)
  have hread := Token.step_quotedName (.inl rfl) p.name.toList (p.head?_behind_ne hs)
  rw [Token.doubleQuotes_eq_self hmark, String.ofList_toList] at hread
  rw [← p.tokens_behind hs, chars, List.append_assoc, p.before.tokens_append]
  simpa using Token.tokens_of_step hread

/-- What stands behind a name adds no name. -/
theorem listedNames_behind (p : KeyPart) (ts : List Token) :
    listedNames false 0 (p.tokensBehind ++ ts) = listedNames false 0 ts := by
  have horder (o : Option SortOrder) :
      listedNames false 0 ((o.elim [] fun o => [Token.ofWord o.word.toList]) ++ ts) =
        listedNames false 0 ts := by
    cases o with
    | none => rfl
    | some o =>
        -- Whether the word is a keyword or not, it is stepped over.
        simp only [Option.elim, List.singleton_append, Token.ofWord]
        split <;> rfl
  rw [tokensBehind, List.append_assoc, ← horder p.order]
  cases p.length <;> rfl

end KeyPart

/-- The reader of tokens reads the names of all parts, and stops behind the list. -/
theorem listedNames_written (parts : List KeyPart) (rest : List Char) :
    listedNames true 0 (tokens (written parts ++ ')' :: rest)) =
      (parts.map KeyPart.name, tokens rest) := by
  have hclosing : Stops (')' :: rest) := by simp [Stops, isSymbol]
  induction parts with
  | nil =>
      exact congrArg _ (Token.tokens_symbol (t := .closeParen) (by decide) rest)
  | cons p parts ih =>
      cases parts with
      | nil =>
          rw [written, List.map_singleton, Text.joinWith_singleton, p.tokens_chars hclosing,
            Token.tokens_symbol (t := .closeParen) (by decide)]
          simp only [listedNames, if_true, p.listedNames_behind]
          rfl
      | cons next more =>
          have hcomma (s : List Char) : Stops (',' :: s) := by simp [Stops, isSymbol]
          -- Behind every part but the last stands a comma, which makes the reader expect a name
          -- again.
          have hwritten : written (p :: next :: more) =
              p.chars ++ ',' :: written (next :: more) := Text.joinWith_cons_cons _ _ _ _
          rw [hwritten, List.append_assoc, List.cons_append, p.tokens_chars (hcomma _),
            Token.tokens_symbol (t := .comma) (by decide)]
          simp only [listedNames, if_true, p.listedNames_behind]
          rw [ih]
          rfl

/-! ### The reader of text -/

namespace KeyPart

/-- What is left behind the name up to a parenthesis. -/
def cutBehind (p : KeyPart) : List Char := (Text.trimEnd p.behind).takeWhile (· != '(')

/-- Of a part the characters up to white space and the first parenthesis are taken. -/
theorem listedName_chars (p : KeyPart) : Sql.listedName p.chars =
    Sql.bareName ('`' :: (p.name.toList ++ '`' :: p.cutBehind).takeWhile fun c => !isSpace c) := by
  have htrim : Text.trim p.chars = ('`' :: (p.name.toList ++ ['`'])) ++ Text.trimEnd p.behind := by
    have hfront : chars p = p.before.chars ++ (('`' :: p.name.toList) ++ '`' :: p.behind) := rfl
    rw [hfront, Text.trim, Text.trimStart_append p.before.isSpace (by simp; decide),
      Text.trimEnd_append_cons (by decide)]
    simp
  -- No character of the name is an opening parenthesis, so the cut is made behind the closing
  -- quote.
  have hname : ∀ c ∈ '`' :: (p.name.toList ++ ['`']), (c != '(') = true := by
    intro c hc
    simp only [List.mem_cons, List.mem_append, List.not_mem_nil, or_false] at hc
    rw [bne_iff_ne]
    rintro rfl
    rcases hc with hc | hc | hc
    · exact absurd hc (by decide)
    · exact (p.isBare _ hc).2 (by simp)
    · exact absurd hc (by decide)
  have hhead : (Text.trim p.chars).takeWhile (· != '(') =
      '`' :: (p.name.toList ++ '`' :: p.cutBehind) := by
    rw [htrim, List.takeWhile_append_of_pos hname]
    simp [cutBehind]
  rw [Sql.listedName, hhead, Text.words_cons (by decide)]
  rfl

/-- What is taken of a part holds no white space. -/
theorem isSpace_of_mem_listedName (p : KeyPart) : ∀ c ∈ Sql.listedName p.chars,
    isSpace c = false := by
  intro c hc
  rw [listedName_chars] at hc
  rcases List.mem_cons.1 (Sql.mem_of_mem_bareName hc) with rfl | hc
  · decide
  · simpa using List.mem_takeWhile_imp hc

/-- The name is taken of a part that ends at it. -/
theorem listedName_of_endsAtName {p : KeyPart} (h : p.EndsAtName) :
    Sql.listedName p.chars = p.name.toList := by
  obtain ⟨hname, hbehind⟩ := h
  have hcut : p.cutBehind.takeWhile (fun c => !isSpace c) = [] := by
    cases hchars : p.cutBehind with
    | nil => rfl
    | cons c rest =>
        have hmem : c ∈ p.cutBehind := by simp [hchars]
        have hparen : c ≠ '(' := by simpa using List.mem_takeWhile_imp hmem
        have hhead : p.behind.head? = some c := by
          have hfront : p.cutBehind <+: p.behind :=
            (List.takeWhile_prefix _).trans (Text.trimEnd_prefix _)
          obtain ⟨t, ht⟩ := hfront
          rw [← ht, hchars]
          rfl
        have hspace := (hbehind c hhead).resolve_right hparen
        rw [List.takeWhile_cons_of_neg (by simp [hspace])]
  have htake : (p.name.toList ++ '`' :: p.cutBehind).takeWhile (fun c => !isSpace c) =
      p.name.toList ++ ['`'] := by
    rw [List.takeWhile_append_of_pos fun c hc => by simp [hname c hc],
      List.takeWhile_cons_of_pos (by decide), hcut]
  rw [listedName_chars, htake]
  exact Sql.bareName_quoted (by decide) fun c hc => (p.isBare c hc).1

/-- With an ordering that touches the name, the closing mark is taken too. -/
theorem mark_mem_listedName {p : KeyPart} (hname : ∀ c ∈ p.name.toList, isSpace c = false)
    (h : ¬p.EndsAtName) : '`' ∈ Sql.listedName p.chars := by
  obtain ⟨w, g, hbehind, hne, hw, hg⟩ := p.behind_cases.resolve_left fun hend => h ⟨hname, hend⟩
  have hletter : ∀ c ∈ w, isSpace c = false ∧ c ≠ '(' ∧ Sql.isQuoteMark c = false := by
    intro c hc
    obtain ⟨hspace, hmark, hsymbol, -⟩ := isNameChar_facts (isNameChar_of_startsAsciiWord (hw c hc))
    exact ⟨hspace, fun hparen => hsymbol (by simp [hparen]), hmark⟩
  have hcut : p.cutBehind = w := by
    rw [cutBehind, hbehind, Text.trimEnd_append fun c hc => (hletter c hc).1,
      Text.trimEnd_spaces hg, List.append_nil, List.takeWhile_eq_self_iff]
    simpa using fun c hc => (hletter c hc).2.1
  have htake : (p.name.toList ++ '`' :: p.cutBehind).takeWhile (fun c => !isSpace c) =
      p.name.toList ++ '`' :: w := by
    rw [hcut, List.takeWhile_eq_self_iff]
    intro c hc
    rcases List.mem_append.1 hc with hc | hc
    · simp [hname c hc]
    · rcases List.mem_cons.1 hc with rfl | hc
      · decide
      · simp [(hletter c hc).1]
  have htrim : Text.trim ('`' :: (p.name.toList ++ '`' :: w)) =
      '`' :: (p.name.toList ++ '`' :: w) := by
    refine Text.trim_eq_self fun c hc => ?_
    rcases List.mem_cons.1 hc with rfl | hc
    · decide
    · rw [← htake] at hc
      simpa using List.mem_takeWhile_imp hc
  -- The mark in front of the name goes, and the ordering keeps the one behind it.
  obtain ⟨c, name, hchars⟩ := List.exists_cons_of_ne_nil p.nonempty
  obtain ⟨word, d, rfl⟩ := (List.eq_nil_or_concat' w).resolve_left hne
  have hstrip : Sql.stripQuoteMarks (p.name.toList ++ '`' :: (word ++ [d])) =
      p.name.toList ++ '`' :: (word ++ [d]) := by
    have hc := (p.isBare c (by simp [hchars])).1
    have hd := (hletter d (by simp)).2.2
    simpa [hchars] using Sql.stripQuoteMarks_of_ends hc hd (name ++ '`' :: word)
  rw [listedName_chars, htake, Sql.bareName, htrim, Sql.stripQuoteMarks,
    List.dropWhile_cons_of_pos (by decide), ← Sql.stripQuoteMarks, hstrip]
  simp

/-- No comma is in a part. -/
theorem comma_notMem (p : KeyPart) : ',' ∉ p.chars := by
  have hgap (g : Gap) : ',' ∉ g.chars := fun hmem => absurd (g.isSpace _ hmem) (by decide)
  have hlength (l : PrefixLength) : ',' ∉ l.chars := by
    have hdigits : ',' ∉ l.length.digits := fun hmem =>
      isPlain_notMem (l.length.isPlain _ hmem) (by simp)
    simp [PrefixLength.chars, hgap, hdigits]
  have horder (o : SortOrder) : ',' ∉ o.chars := by
    have hword : ',' ∉ o.word.toList := fun hmem => absurd (o.word_facts _ hmem) (by decide)
    simp [SortOrder.chars, hgap, hword]
  have hname : ',' ∉ p.name.toList := fun hmem => (p.isBare _ hmem).2 (by simp)
  have hbehind : ',' ∉ p.behind := by
    rw [behind]
    cases p.length <;> cases p.order <;> simp [hgap, hlength, horder]
  simp [chars, hgap, hname, hbehind]

end KeyPart

/-- The reader of text takes one piece of each part. -/
theorem columnList_written (parts : List KeyPart) : Sql.columnList (written parts) =
    ((parts.map fun p => Sql.listedName p.chars).filter (!·.isEmpty)).map String.ofList := by
  cases parts with
  | nil => rfl
  | cons p parts =>
      have hcomma : ∀ x ∈ (p :: parts).map KeyPart.chars, ',' ∉ x := by
        intro x hx
        obtain ⟨q, -, rfl⟩ := List.mem_map.1 hx
        exact q.comma_notMem
      rw [Sql.columnList, written, Text.splitWhere_joinWith (by simp) hcomma, List.map_map]
      rfl

/-- If each part ends at its name, the reader of text takes the names. -/
theorem columnList_of_endsAtName {parts : List KeyPart} (h : ∀ p ∈ parts, p.EndsAtName) :
    Sql.columnList (written parts) = parts.map KeyPart.name := by
  rw [columnList_written]
  have hnames : (parts.map fun p => Sql.listedName p.chars) = parts.map fun p => p.name.toList :=
    List.map_congr_left fun p hp => KeyPart.listedName_of_endsAtName (h p hp)
  rw [hnames, List.filter_eq_self.2, List.map_map]
  · exact List.map_congr_left fun p _ => String.ofList_toList
  · intro x hx
    obtain ⟨p, -, rfl⟩ := List.mem_map.1 hx
    simpa using p.nonempty

/-- If the reader of text takes the names, each part ends at its name. -/
theorem endsAtName_of_columnList {parts : List KeyPart}
    (h : Sql.columnList (written parts) = parts.map KeyPart.name) : ∀ p ∈ parts, p.EndsAtName := by
  rw [columnList_written] at h
  have hname : ∀ p ∈ parts, ∀ c ∈ p.name.toList, isSpace c = false := by
    intro p hp c hc
    have hmem : p.name ∈ parts.map KeyPart.name := List.mem_map_of_mem hp
    rw [← h] at hmem
    obtain ⟨x, hx, hp⟩ := List.mem_map.1 hmem
    obtain ⟨q, -, rfl⟩ := List.mem_map.1 (List.mem_filter.1 hx).1
    rw [← hp, String.toList_ofList] at hc
    exact q.isSpace_of_mem_listedName c hc
  intro p hp
  by_contra hends
  -- What is taken of this part holds a mark, but no name does.
  have hmark := KeyPart.mark_mem_listedName (hname p hp) hends
  have hmem : String.ofList (Sql.listedName p.chars) ∈ parts.map KeyPart.name := by
    rw [← h]
    refine List.mem_map_of_mem (List.mem_filter.2 ⟨List.mem_map_of_mem hp, ?_⟩)
    simpa using List.ne_nil_of_mem hmark
  obtain ⟨q, -, hq⟩ := List.mem_map.1 hmem
  rw [← String.toList_ofList (l := Sql.listedName p.chars), ← hq] at hmark
  exact absurd (q.isBare _ hmark).1 (by decide)

/-- The reader of tokens reads all names off a column list in parentheses and stops behind it. The
reader of text reads the same off the list exactly if each part ends at its name: no name holds
white space, and no ordering touches one. -/
theorem columnNames_written_and_columnList_iff (parts : List KeyPart) (rest : List Char) :
    columnNames (tokens ('(' :: (written parts ++ ')' :: rest))) =
        (parts.map KeyPart.name, tokens rest) ∧
      (Sql.columnList (written parts) = parts.map KeyPart.name ↔ ∀ p ∈ parts, p.EndsAtName) := by
  constructor
  · rw [Token.tokens_symbol (t := .openParen) (by decide), columnNames]
    exact listedNames_written parts rest
  · exact ⟨endsAtName_of_columnList, columnList_of_endsAtName⟩

/-- A name with a space in it. -/
def exampleSpacedPart : KeyPart where
  before := .none
  name := "column name"
  nonempty := by decide
  isBare := Text.forall_mem_of_all (by decide)
  length := none
  order := none
  after := .none

/-- Of a name with a space the reader of text takes the first word. -/
theorem columnList_exampleSpacedPart :
    Sql.columnList (written [exampleSpacedPart]) = ["column"] ∧
      [exampleSpacedPart].map KeyPart.name = ["column name"] := by
  decide

end EntityDiagram.Ddl
