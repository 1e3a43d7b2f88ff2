import EntityDiagram.Excerpt.Definition
import EntityDiagram.Proofs.Excerpt.Scan

/-!
# `EntityDiagram.Proofs.Excerpt.Clause`: clauses in plain notation

A table that has been cut out of a text is split into its parts, and each part is tried against one
pattern after the other. Here the parts that declare keys are read: what is spelled as such a
clause is matched by its pattern, whatever white space stands between its lexemes, and the key is
the one that is declared.

* A name of a constraint is optional, and may itself be a word that clauses start with. The clause
  is matched with the name that stands there (`first_constraintName`), and no other way of reading
  that name lets another clause match (`fails_constraintName_bind`).
* An action is searched for in the whole clause, so the search has to step over all that comes
  before it (`declaredActions_spaced`).
* With these, the clauses of keys are read: `primaryKey?_spaced`, `foreignKey?_spaced`.
-/

set_option autoImplicit false

namespace EntityDiagram.Excerpt

open Text (isSpace isWordChar Pattern Place Span)
open Text.Pattern
open Ddl (Keyword KeyEvent ReferenceAction PlainLexeme PlainElement QuotedName NameList
  PlainReference Spaced Stops)

variable {α : Type}

/-! ### Names -/

/-- A name is not read where none of its characters stands. -/
theorem fails_plainName {c : Char} (hword : isWordChar c = false)
    (hmark : c ∉ ['`', '"', '[', '$']) (before : Option Char) (s : List Char) :
    Fails plainName ⟨before, c :: s⟩ := by
  simp only [List.mem_cons, List.not_mem_nil, or_false, not_or] at hmark
  obtain ⟨htick, hdouble, hopen, hdollar⟩ := hmark
  refine Fails.span (Fails.optional_bind (Fails.bind_left (Fails.char ?_))
    (Fails.bind_left (Fails.some1 ?_)))
  all_goals
    rintro d hd
    obtain rfl := Option.some.inj hd
  · simp [htick, hdouble, hopen]
  · simp [hword, hdollar]

/-- No name is read where white space stands. -/
theorem fails_plainName_of_isSpace {c : Char} (hc : isSpace c = true) (before : Option Char)
    (s : List Char) : Fails plainName ⟨before, c :: s⟩ := by
  refine fails_plainName (Text.isWordChar_of_isSpace hc) (fun hmem => ?_) before s
  simp only [List.mem_cons, List.not_mem_nil, or_false] at hmem
  rcases hmem with rfl | rfl | rfl | rfl <;> exact absurd hc (by decide)

/-- A name takes no white space. -/
theorem takes_plainName : Takes (fun c => !isSpace c) plainName := by
  have mark {c : Char} (marks : List Char) (hc : c ∈ marks)
      (hmarks : marks.all (fun m => !isSpace m) = true) : (!isSpace c) = true :=
    List.all_eq_true.1 hmarks c hc
  refine Takes.span (Takes.bind (Takes.optional (Takes.char fun c hc => ?_)) fun _ =>
    Takes.bind (Takes.some1 fun c hc => ?_) fun _ =>
      Takes.bind (Takes.optional (Takes.char fun c hc => ?_)) fun _ => Takes.pure _)
  · exact mark ['`', '"', '['] (by simpa [or_assoc] using hc) (by decide)
  · rcases Bool.or_eq_true_iff.1 hc with hword | hdollar
    · rw [Bool.not_eq_true', Bool.eq_false_iff]
      intro hspace
      rw [Text.isWordChar_of_isSpace hspace] at hword
      cases hword
    · exact mark ['$'] (by simpa using hdollar) (by decide)
  · exact mark ['`', '"', ']'] (by simpa [or_assoc] using hc) (by decide)

/-- A name in backticks is read with its marks. -/
theorem first_plainName (n : QuotedName) (t : List Char) (before : Option Char) :
    ∃ span before', First plainName ⟨before, (PlainLexeme.name n).chars ++ t⟩ span ⟨before', t⟩ ∧
      span.chars = (PlainLexeme.name n).chars := by
  have hchars : ∀ c ∈ n.text.toList, (isWordChar c || c == '$') = true :=
    fun c hc => (Ddl.isNameChar_facts (n.isNameChar c hc)).2.2.2
  -- The closing quote is no character of a name, so the name ends there.
  have hend : ∀ c ∈ ('`' :: t).head?, (isWordChar c || c == '$') = false := by
    rintro c hc
    obtain rfl := Option.some.inj hc
    decide
  have happend : (PlainLexeme.name n).chars ++ t = '`' :: (n.text.toList ++ '`' :: t) := by
    simp [PlainLexeme.chars]
  refine ⟨_, some '`', First.span (a := ()) ?_, chars_append _ _ _ _⟩
  rw [happend]
  refine (First.optional (First.of_singleton (char_of (by decide) _ _))).bind ?_
  refine (First.some1 n.nonempty hchars hend _).bind ?_
  exact (First.optional (First.of_singleton (char_of (by decide) _ _))).bind (First.pure _ _)

/-- A name in backticks names what stands between them. -/
theorem nameOf_eq {n : QuotedName} {span : Span}
    (h : span.chars = (PlainLexeme.name n).chars) : nameOf span = n.text := by
  have hmarks : ∀ c ∈ n.text.toList, Sql.isQuoteMark c = false :=
    fun c hc => (Ddl.isNameChar_facts (n.isNameChar c hc)).2.1
  have hname : Sql.objectName (String.ofList ('`' :: (n.text.toList ++ ['`']))) =
      String.ofList n.text.toList := Sql.objectName_quoted (by decide) hmarks
  rw [nameOf, Span.text, h, PlainLexeme.chars, hname, String.ofList_toList]

/-! ### Lists of names -/

/-- A name in backticks with white space around it holds no parenthesis and no comma. -/
theorem notMem_of_spaced_name {n : QuotedName} {x : List Char} (h : Spaced [.name n] x) :
    ∀ c ∈ x, c ∉ ['(', ')', ','] := by
  intro c hc hmem
  simp only [List.mem_cons, List.not_mem_nil, or_false] at hmem
  rcases h.padded.mem hc with hname | hspace
  · simp only [PlainLexeme.chars, List.mem_cons, List.mem_append, List.not_mem_nil,
      or_false] at hname
    rcases hname with rfl | hname | rfl
    · exact absurd hmem (by decide)
    · have hnot := (Ddl.isNameChar_facts (n.isNameChar c hname)).2.2.1
      simp only [List.mem_cons, not_or] at hnot
      tauto
    · exact absurd hmem (by decide)
  · rcases hmem with rfl | rfl | rfl <;> exact absurd hspace (by decide)

/-- A name in a list is read without the white space around it. -/
theorem listedName_spaced {n : QuotedName} {x : List Char} (h : Spaced [.name n] x) :
    Sql.listedName x = n.text.toList := by
  have hspace : ∀ c ∈ (PlainLexeme.name n).chars, isSpace c = false :=
    fun c hc => ((PlainLexeme.name n).chars_facts c hc).1
  -- The name by itself is a special case of a spaced list, which gives that it holds no
  -- parenthesis.
  have hname : Spaced [.name n] (PlainLexeme.name n).chars := by
    simpa using Spaced.lexeme (l := .name n) (s := []) (fun _ => by simp [Stops]) .nil
  have hopen : ∀ c ∈ (PlainLexeme.name n).chars, (c != '(') = true := by
    intro c hc
    rw [bne_iff_ne]
    rintro rfl
    exact notMem_of_spaced_name hname _ hc (by simp)
  have hmarks : ∀ c ∈ n.text.toList, Sql.isQuoteMark c = false :=
    fun c hc => (Ddl.isNameChar_facts (n.isNameChar c hc)).2.1
  rw [Sql.listedName, h.padded.trim_eq hspace, List.takeWhile_eq_self_iff.2 hopen,
    Text.words_eq_singleton (PlainLexeme.chars_ne_nil _) hspace]
  exact Sql.bareName_quoted (by decide) hmarks

/-- The names of a list, whatever white space is around them. A name has no comma in it, so the list
is cut between the names. -/
theorem columnsOf_joinWith {ns : NameList} {xs : List (List Char)} {span : Span}
    (h : span.chars = Text.joinWith [','] xs)
    (hxs : List.Forall₂ (fun n x => Spaced [.name n] x) ns.names xs) :
    columnsOf span = ns.texts := by
  have hne : xs ≠ [] := by
    rintro rfl
    exact ns.nonempty (List.forall₂_nil_right_iff.1 hxs)
  have hcomma : ∀ x ∈ xs, ',' ∉ x := by
    intro x hx hmem
    obtain ⟨n, -, hn⟩ := Text.exists_rel_of_mem hxs hx
    exact notMem_of_spaced_name hn _ hmem (by simp)
  rw [columnsOf, h, Sql.columnList, Text.splitWhere_joinWith hne hcomma, NameList.texts]
  -- The induction is on the names and their texts alone, so what was said about the whole list is
  -- dropped first.
  clear h hne hcomma
  generalize ns.names = names at hxs
  induction hxs with
  | nil => rfl
  | @cons n x names xs hx _ ih =>
      rw [List.map_cons, List.filter_cons_of_pos (by simpa [listedName_spaced hx] using n.nonempty),
        List.map_cons, ih, listedName_spaced hx, String.ofList_toList, List.map_cons]

/-- A list of names in parentheses is read, and its names are those that stand in it. The closing
parenthesis is taken with it. -/
theorem first_listInside {ns : NameList} {ls : List PlainLexeme} {s : List Char}
    (h : Spaced (PlainLexeme.nameList ns.names ++ ls) s) (hs : ∀ c ∈ s.head?, isSpace c = false)
    (before : Option Char) : ∃ span t, First listInside ⟨before, s⟩ span ⟨some ')', t⟩ ∧
      columnsOf span = ns.texts ∧ Spaced ls t := by
  have hlexemes : Spaced (.openParen :: (PlainLexeme.separated
      (ns.names.map fun n => [PlainLexeme.name n]) ++ .closeParen :: ls)) s := by
    simpa [PlainLexeme.nameList] using h
  obtain ⟨inside, rfl, -, h⟩ := hlexemes.exists_cons_of_head hs
  obtain ⟨inner, u, rfl, hinner, hu, hhead⟩ := h.exists_append
  obtain ⟨t, rfl, -, ht⟩ := hu.exists_cons_of_head hhead
  -- Each name takes characters, so there is something in the parentheses.
  have hne : inner ≠ [] := by
    rintro rfl
    have hlength := hinner.length_le
    cases hnames : ns.names with
    | nil => exact ns.nonempty hnames
    | cons n names =>
        rw [hnames] at hlength
        cases names <;> simp [PlainLexeme.separated] at hlength
  obtain ⟨xs, hinside, hxs⟩ := hinner.exists_joinWith (by simpa using ns.nonempty)
  rw [List.forall₂_map_left_iff] at hxs
  have hclose : ∀ c ∈ inner, (c != ')') = true := by
    intro c hc
    rw [bne_iff_ne]
    rintro rfl
    rw [hinside] at hc
    rcases Text.mem_joinWith hc with hc | ⟨x, hx, hc⟩
    · simp at hc
    · obtain ⟨n, -, hn⟩ := Text.exists_rel_of_mem hxs hx
      exact notMem_of_spaced_name hn _ hc (by simp)
  have hread : First listInside ⟨before, '(' :: (inner ++ ')' :: t)⟩
      ⟨⟨some '(', inner ++ ')' :: t⟩, ⟨after (some '(') inner, ')' :: t⟩⟩ ⟨some ')', t⟩ := by
    refine (First.of_singleton (char_of (by decide) _ _)).bind ?_
    refine (First.some1 hne hclose (by simp) _).span.bind ?_
    exact (First.of_singleton (char_of (by decide) _ _)).bind (First.pure _ _)
  exact ⟨_, t, hread, columnsOf_joinWith ((chars_append _ _ _ _).trans hinside) hxs, ht⟩

/-- No method stands in front of a list. -/
theorem first_usingMethod (before : Option Char) (s : List Char) :
    First usingMethod ⟨before, '(' :: s⟩ () ⟨before, '(' :: s⟩ := by
  have hfails : Fails (word "USING") ⟨before, '(' :: s⟩ := Fails.word (v := ['(']) (by decide) _ _
  exact (First.optional_none hfails.bind_left).bind (First.pure _ _)

/-! ### Names of constraints -/

/-- The name of a constraint is read up to the word behind it. Without a name nothing is taken, as
the next word is another one than `CONSTRAINT`. -/
theorem first_constraintName {c : Option QuotedName} {k : Keyword}
    (hk : clashes "CONSTRAINT".toList k.word.toList = true) {ls : List PlainLexeme} {s : List Char}
    (h : Spaced (PlainLexeme.constraintClause c ++ .keyword k :: ls) s)
    (hs : ∀ c ∈ s.head?, isSpace c = false) :
    ∃ name before t, First constraintName (.start s) name ⟨before, k.word.toList ++ t⟩ ∧
      name.map nameOf = c.map QuotedName.text ∧ Stops t ∧ Spaced ls t := by
  cases c with
  | none =>
      obtain ⟨t, rfl, hstops, ht⟩ := h.exists_cons_of_head hs
      -- Without the clause the pattern sees another keyword than `CONSTRAINT`, and its optional
      -- part is empty.
      have hnone : First constraintName (.start (k.word.toList ++ t)) none
          (.start (k.word.toList ++ t)) :=
        (First.textStart _).bind (First.optional_none (Fails.bind_left (Fails.word hk _ _)))
      exact ⟨none, none, t, hnone, rfl, hstops rfl, ht⟩
  | some n =>
      obtain ⟨s₁, rfl, hstops, h⟩ := h.exists_cons_of_head hs
      obtain ⟨g₁, s₂, rfl, hne₁, hg₁, hs₂, h⟩ := h.exists_cons_of_stops rfl (hstops rfl)
      obtain ⟨g₂, t, rfl, hne₂, hg₂, ht, h⟩ := h.exists_cons_of_stops rfl hs₂
      obtain ⟨span, before, hname, hspan⟩ := first_plainName n (g₂ ++ (k.word.toList ++ t))
        (after (after none "CONSTRAINT".toList) g₁)
      refine ⟨some span, after before g₂, t, ?_, congrArg some (nameOf_eq hspan), ht, h⟩
      refine (First.textStart _).bind (First.optional ?_)
      refine (First.word (w := "CONSTRAINT") (by decide) _ _).bind ?_
      refine (First.spaces1 hne₁ hg₁ (PlainLexeme.isSpace_head? (.name n) _) _).bind ?_
      refine hname.bind ?_
      refine (First.spaces1 hne₂ hg₂ (PlainLexeme.isSpace_head? (.keyword k) _) _).bind ?_
      exact First.pure _ _

/-- What may start with the name of a constraint is only found at the start of a text. -/
theorem anchored_constraintName_bind (f : Option Span → Pattern α) :
    Anchored (constraintName >>= f) := (Anchored.textStart_bind _).bind f

/-- In front of a quoted name, there is no name of a constraint. -/
theorem find?_constraintName_quote {f : Option Span → Pattern α} {s : List Char}
    (h : Fails (f none) (.start ('`' :: s))) : (constraintName >>= f).find? ('`' :: s) = none := by
  refine (anchored_constraintName_bind f).find?_eq_none ?_
  refine Fails.bind_assoc (Fails.bind_right (rfl : textStart _ = [((), _)]) ?_)
  refine Fails.optional_bind (Fails.bind_assoc (Fails.bind_left ?_)) h
  exact Fails.word (v := ['`']) (by decide) _ _

/-- What fails at the start of a clause, at white space and at the word behind the name of a
constraint fails behind that name: there is no other way to read it. -/
theorem fails_constraintName_bind {c : Option QuotedName} {k : Keyword}
    (hk : clashes "CONSTRAINT".toList k.word.toList = true) {ls : List PlainLexeme} {s : List Char}
    (h : Spaced (PlainLexeme.constraintClause c ++ .keyword k :: ls) s)
    (hs : ∀ c ∈ s.head?, isSpace c = false) {f : Option Span → Pattern α}
    (hstart : Fails (f none) (.start s))
    (hspace : ∀ a before c t, isSpace c = true → Fails (f a) ⟨before, c :: t⟩)
    (hword : ∀ a before t, Fails (f a) ⟨before, k.word.toList ++ t⟩) :
    Fails (constraintName >>= f) (.start s) := by
  refine Fails.bind_assoc (Fails.bind_right (rfl : textStart _ = [((), _)]) ?_)
  refine Fails.optional_bind (Fails.bind_assoc ?_) hstart
  cases c with
  | none =>
      obtain ⟨t, rfl, -, -⟩ := h.exists_cons_of_head hs
      exact Fails.bind_left (Fails.word hk _ _)
  | some n =>
      obtain ⟨s₁, rfl, hstops, h⟩ := h.exists_cons_of_head hs
      obtain ⟨g₁, s₂, rfl, -, hg₁, hs₂, h⟩ := h.exists_cons_of_stops rfl (hstops rfl)
      obtain ⟨g₂, t, rfl, hne₂, hg₂, -, -⟩ := h.exists_cons_of_stops rfl hs₂
      have hname : ∀ c ∈ (PlainLexeme.name n).chars, (!isSpace c) = true := by
        intro c hc
        rw [((PlainLexeme.name n).chars_facts c hc).1]
        rfl
      have hend : ∀ c ∈ (g₂ ++ (k.word.toList ++ t)).head?, (!isSpace c) = false := by
        intro c hc
        rw [List.head?_append_of_ne_nil _ hne₂] at hc
        rw [hg₂ c (List.mem_of_mem_head? hc)]
        rfl
      -- White space and the name may be taken in part only; then what follows fails at their rest.
      refine Fails.word_bind (Fails.bind_assoc ?_)
      refine (Takes.some1 fun _ h => h).fails_bind hg₁
        (PlainLexeme.isSpace_head? (.name n) _) (fun _ _ _ _ hc => ?_) fun _ => ?_
      · exact Fails.bind_assoc (Fails.bind_left (fails_plainName_of_isSpace hc _ _))
      refine Fails.bind_assoc (takes_plainName.fails_bind hname hend (fun _ _ c _ hc => ?_)
        fun span => Fails.bind_assoc ?_)
      · exact Fails.bind_assoc (Fails.bind_left (Fails.some1 (by simpa using hc)))
      refine (Takes.some1 fun _ h => h).fails_bind hg₂
        (PlainLexeme.isSpace_head? (.keyword k) _) (fun _ _ _ _ hc => ?_) fun _ => ?_
      · exact Fails.pure_bind (hspace _ _ _ _ hc)
      · exact Fails.pure_bind (hword _ _ _)

/-! ### Primary keys -/

/-- The clause of a primary key is read. -/
theorem primaryKey?_spaced {c : Option QuotedName} {ns : NameList} {s : List Char}
    (h : Spaced (PlainElement.primaryKey c ns).lexemes s) (hs : ∀ c ∈ s.head?, isSpace c = false) :
    primaryKey? s = some { name := c.map QuotedName.text, columns := ns.texts } := by
  obtain ⟨name, before, s₁, hconstraint, hname, hs₁, h⟩ :=
    first_constraintName (k := .primary) (by decide) h hs
  obtain ⟨g₂, s₂, rfl, hne₂, hg₂, -, h⟩ := h.exists_cons_of_stops (l := .keyword .key) rfl hs₁
  rw [← List.append_nil (PlainLexeme.nameList ns.names)] at h
  obtain ⟨g₃, s₃, rfl, hg₃, hs₃, h⟩ := h.exists_front
  obtain ⟨columns, t, hlist, hcolumns, -⟩ := first_listInside h hs₃
    (after (after (after (after before "PRIMARY".toList) g₂) "KEY".toList) g₃)
  obtain ⟨u, rfl, -, -⟩ := h.exists_cons_of_head hs₃
  -- The pattern is gone through part by part, each of which stops where the next lexeme begins.
  have hclause : First primaryKeyClause (.start s) (name, columns) ⟨some ')', t⟩ := by
    refine hconstraint.bind ?_
    refine (First.word (w := "PRIMARY") (by decide) _ _).bind ?_
    refine (First.spaces1 hne₂ hg₂ (PlainLexeme.isSpace_head? (.keyword .key) _) _).bind ?_
    refine (First.word (w := "KEY") (by decide) _ _).bind ?_
    refine (First.spaces hg₃ hs₃ _).bind ?_
    exact (first_usingMethod _ _).bind (hlist.bind (First.pure _ _))
  rw [primaryKey?, find?_of_first hclause]
  simp only [Option.map_some, hname, hcolumns]

/-! ### Referential actions -/

/-- A single word is kept as it is. -/
theorem normalAction_word {u : List Char} (hu : Text.isPlainWord u = true) :
    Sql.normalAction u = String.ofList u := by
  have hplain := Text.forall_isPlain hu
  have hspace : ∀ c ∈ u, isSpace c = false := fun c hc => (Text.isPlain_facts (hplain c hc)).1
  have hne : u ≠ [] := by
    rintro rfl
    cases hu
  rw [Sql.normalAction, Text.words_eq_singleton hne hspace, List.map_singleton,
    Text.upper_plain hplain, Text.joinWith_singleton]

/-- Two words are joined by an underscore, whatever white space is between them. -/
theorem normalAction_words {u g v : List Char} (hu : Text.isPlainWord u = true) (hne : g ≠ [])
    (hg : ∀ c ∈ g, isSpace c = true) (hv : Text.isPlainWord v = true) :
    Sql.normalAction (u ++ (g ++ v)) = String.ofList (u ++ ('_' :: v)) := by
  have facts {w : List Char} (hw : Text.isPlainWord w = true) :
      w ≠ [] ∧ ∀ c ∈ w, isSpace c = false := by
    refine ⟨?_, fun c hc => (Text.isPlain_facts (Text.forall_isPlain hw c hc)).1⟩
    rintro rfl
    cases hw
  -- The space between the two words is there, so the first word ends where it should.
  have hhead : ∀ c ∈ (g ++ v).head?, isSpace c = true := by
    intro c hc
    rw [List.head?_append_of_ne_nil _ hne] at hc
    exact hg c (List.mem_of_mem_head? hc)
  rw [Sql.normalAction, Text.words_append (facts hu).1 (facts hu).2 hhead,
    Text.words_spaces_append hg, Text.words_eq_singleton (facts hv).1 (facts hv).2, List.map_cons,
    List.map_singleton, Text.upper_plain (Text.forall_isPlain hu),
    Text.upper_plain (Text.forall_isPlain hv), Text.joinWith_cons_cons, Text.joinWith_singleton]
  rfl

/-- Two words are read where they are spelled, whatever white space is between them. The text is
given back cut into its parts, since the callers go on from different ones. -/
theorem exists_first_words {u v : String} (hu : u.toList.all Text.startsPlain = true)
    (hv : v.toList.all Text.startsPlain = true) {l r : PlainLexeme} (hl : l.chars = u.toList)
    (hr : r.chars = v.toList) (hlword : l.isWord = true) (hrword : r.isWord = true)
    {ls : List PlainLexeme} {s : List Char} (h : Spaced (l :: r :: ls) s)
    (hs : ∀ c ∈ s.head?, isSpace c = false) (before : Option Char) : ∃ g t before',
      s = u.toList ++ (g ++ (v.toList ++ t)) ∧ g ≠ [] ∧ (∀ c ∈ g, isSpace c = true) ∧
        (∀ c ∈ (v.toList ++ t).head?, isSpace c = false) ∧
          First (word u >>= fun _ => spaces1 >>= fun _ => word v) ⟨before, s⟩ ()
            ⟨before', t⟩ := by
  obtain ⟨s₁, rfl, hs₁, h⟩ := h.exists_cons_of_head hs
  obtain ⟨g, t, rfl, hne, hg, -, -⟩ := h.exists_cons_of_stops hrword (hs₁ hlword)
  have hhead := r.isSpace_head? t
  rw [hl, hr] at *
  exact ⟨g, t, _, rfl, hne, hg, hhead,
    (First.word hu _ _).bind ((First.spaces1 hne hg hhead _).bind (First.word hv _ _))⟩

/-- Behind a word, a sequence fails with what follows the white space. It has to fail in the middle
of the space as well, where a shorter match of the space would leave it. -/
theorem fails_word_spaces1 {u : String} {f : Unit → Pattern α} {g t : List Char}
    (hg : ∀ c ∈ g, isSpace c = true) (ht : ∀ c ∈ t.head?, isSpace c = false)
    (hspace : ∀ before c s, isSpace c = true → Fails (f ()) ⟨before, c :: s⟩)
    (hf : ∀ before, Fails (f ()) ⟨before, t⟩) (before : Option Char) :
    Fails (word u >>= fun _ => spaces1 >>= f) ⟨before, u.toList ++ (g ++ t)⟩ :=
  Fails.word_bind ((Takes.some1 fun _ h => h).fails_bind hg ht (fun _ => hspace) fun _ => hf _)

/-- The words of an action are read. They are read as one text, which is brought to one spelling
afterwards. -/
theorem first_actionWords (a : ReferenceAction) {ls : List PlainLexeme} {s : List Char}
    (h : Spaced (a.plainLexemes ++ ls) s) (hs : ∀ c ∈ s.head?, isSpace c = false)
    (before : Option Char) : ∃ words stop, First actionWords ⟨before, s⟩ words stop ∧
      Sql.normalAction words.chars = a.label := by
  -- An alternative of two words fails where its first word clashes.
  have clash {u v : String} {w t : List Char} (hw : clashes u.toList w = true) :
      Fails (word u >>= fun _ => spaces1 >>= fun _ => word v) ⟨before, w ++ t⟩ :=
    Fails.bind_left (Fails.word hw _ _)
  suffices hread : ∃ u t before', s = u ++ t ∧
      First actionWords ⟨before, u ++ t⟩ ⟨⟨before, u ++ t⟩, ⟨before', t⟩⟩ ⟨before', t⟩ ∧
        Sql.normalAction u = a.label by
    obtain ⟨u, t, before', rfl, hfirst, hlabel⟩ := hread
    exact ⟨_, _, hfirst, by rw [chars_append]; exact hlabel⟩
  cases a with
  | cascade =>
      obtain ⟨t, rfl, -, -⟩ := h.exists_cons_of_head hs
      exact ⟨"CASCADE".toList, t, _, rfl, ((First.word (by decide) _ _).oneOf_head _).span,
        normalAction_word (by decide)⟩
  | restrict =>
      obtain ⟨t, rfl, -, -⟩ := h.exists_cons_of_head hs
      refine ⟨"RESTRICT".toList, t, after before "RESTRICT".toList, rfl, First.span (a := ()) ?_,
        normalAction_word (by decide)⟩
      refine First.oneOf_tail (Fails.word (by decide) _ _) ?_
      refine First.oneOf_tail (clash (by decide)) ?_
      refine First.oneOf_tail (clash (by decide)) ?_
      exact (First.word (by decide) _ _).oneOf_head _
  | setNull =>
      obtain ⟨g, t, before', rfl, hne, hg, -, hread⟩ := exists_first_words (u := "SET")
        (v := "NULL") (by decide) (by decide) rfl rfl rfl rfl h hs before
      refine ⟨"SET".toList ++ (g ++ "NULL".toList), t, before', by simp, First.span (a := ()) ?_,
        normalAction_words (by decide) hne hg (by decide)⟩
      simp only [List.append_assoc]
      exact First.oneOf_tail (Fails.word (by decide) _ _) (hread.oneOf_head _)
  | setDefault =>
      obtain ⟨g, t, before', rfl, hne, hg, hhead, hread⟩ := exists_first_words (u := "SET")
        (v := "DEFAULT") (by decide) (by decide) rfl rfl rfl rfl h hs before
      refine ⟨"SET".toList ++ (g ++ "DEFAULT".toList), t, before', by simp,
        First.span (a := ()) ?_, normalAction_words (by decide) hne hg (by decide)⟩
      simp only [List.append_assoc]
      refine First.oneOf_tail (Fails.word (by decide) _ _) ?_
      refine First.oneOf_tail (fails_word_spaces1 (u := "SET") hg hhead
        (fun _ _ _ hc => Fails.word_space (by decide) (by decide) hc _ _)
        (fun _ => Fails.word (by decide) _ _) _) ?_
      exact hread.oneOf_head _
  | noAction =>
      obtain ⟨g, t, before', rfl, hne, hg, -, hread⟩ := exists_first_words (u := "NO")
        (v := "ACTION") (by decide) (by decide) rfl rfl rfl rfl h hs before
      refine ⟨"NO".toList ++ (g ++ "ACTION".toList), t, before', by simp, First.span (a := ()) ?_,
        normalAction_words (by decide) hne hg (by decide)⟩
      simp only [List.append_assoc]
      refine First.oneOf_tail (Fails.word (by decide) _ _) ?_
      refine First.oneOf_tail (clash (by decide)) ?_
      refine First.oneOf_tail (clash (by decide)) ?_
      refine First.oneOf_tail (Fails.word (by decide) _ _) ?_
      exact hread.oneOf_head _

/-- A pattern for actions starts with `ON`. -/
theorem keyed_actionOn (event : String) : Keyed [Keyword.on.word] (actionOn event) :=
  Keyed.of_word (w := "ON") (by decide) (by decide) (StartsSpace.spaces1_bind _).endsWord

/-- A search for an action steps over all words but `ON`. -/
theorem stepsOver_actionOn (event : String) {l : PlainLexeme} (h : l ≠ .keyword .on) :
    StepsOver [Keyword.on.word] (actionOn event) l :=
  .of_ne_keyword (NeedsSpace.of_word (w := "ON") (by decide) (by decide)
    (StartsSpace.spaces1_bind _)) h

/-- No action is read where another event stands. This is how an action is told from the action on
the other event. -/
theorem fails_actionOn {event other : KeyEvent} (hne : other ≠ event) {g t : List Char}
    (hg : ∀ c ∈ g, isSpace c = true) (before : Option Char) :
    Fails (actionOn (ReferenceAction.eventWord event).text)
      ⟨before, "ON".toList ++ (g ++ ((ReferenceAction.plainEvent other).chars ++ t))⟩ := by
  -- The two events are different words, neither of which begins with the other one.
  have hclash : clashes (ReferenceAction.eventWord event).text.toList
      (ReferenceAction.plainEvent other).chars = true := by
    cases event <;> cases other <;> first | exact absurd rfl hne | decide
  have hevent : (ReferenceAction.eventWord event).text.toList.all Text.startsPlain = true ∧
      (ReferenceAction.eventWord event).text.toList ≠ [] := by
    cases event <;> decide
  refine Fails.bind fun m hm => ?_
  obtain ⟨rfl, -⟩ := mem_boundary hm
  refine fails_word_spaces1 (u := "ON") hg (PlainLexeme.isSpace_head? _ _)
    (fun _ _ _ hc => ?_) (fun _ => ?_) _
  · exact Fails.bind_left (Fails.word_space hevent.1 hevent.2 hc _ _)
  · exact Fails.bind_left (Fails.word hclash _ _)

/-- The lexemes of an action do not start another one. -/
theorem ne_on_of_mem_plainLexemes {other : KeyEvent} {a : ReferenceAction} :
    ∀ l ∈ ReferenceAction.plainEvent other :: a.plainLexemes, l ≠ .keyword .on := by
  cases other <;> cases a <;> decide

/-- A search for the action on an event steps over the action on the other one. If there is none,
the search stays where it is. -/
theorem exists_searchFrom_otherClause {event other : KeyEvent} (hne : other ≠ event)
    (a : Option ReferenceAction) {ls : List PlainLexeme} {s : List Char}
    (h : Spaced (ReferenceAction.plainClause other a ++ ls) s) {before : Option Char}
    (hbefore : Fresh before s) : ∃ before' t,
      searchFrom (actionOn (ReferenceAction.eventWord event).text) before s =
        searchFrom (actionOn (ReferenceAction.eventWord event).text) before' t ∧
      Fresh before' t ∧ Spaced ls t := by
  have hkeyed := keyed_actionOn (ReferenceAction.eventWord event).text
  cases a with
  | none => exact ⟨before, s, rfl, hbefore, h⟩
  | some a =>
      have hclause : Spaced ([] ++ .keyword .on ::
          (ReferenceAction.plainEvent other :: a.plainLexemes ++ ls)) s := h
      obtain ⟨before', t, heq, -, hstops, ht⟩ :=
        exists_searchFrom_run (r := "ON".toList) hkeyed (by simp) rfl hclause hbefore
      have hword : (ReferenceAction.plainEvent other).isWord = true := by cases other <;> rfl
      obtain ⟨g, u, htext, -, hg, -, -⟩ := ht.exists_cons_of_stops hword hstops
      -- Neither at `ON` nor inside of it.
      have hon : searchFrom (actionOn (ReferenceAction.eventWord event).text) before'
          ("ON".toList ++ t) =
          searchFrom (actionOn (ReferenceAction.eventWord event).text) (some 'N') t := by
        have hfails := fails_actionOn (t := u) hne hg before'
        rw [← htext] at hfails
        exact (searchFrom_of_fails hfails).trans
          (searchFrom_of_fails (hkeyed.fails_of_before (by decide) _))
      rw [heq, hon]
      exact exists_searchFrom_append hkeyed
        (fun l hl => stepsOver_actionOn _ (ne_on_of_mem_plainLexemes l hl)) ht fun _ => hstops

/-- A search for the action on an event ends where it is declared. The words that it finds have the
label of the action. -/
theorem searchFrom_ownClause {event : KeyEvent} {a : ReferenceAction} {ls : List PlainLexeme}
    {s : List Char} (h : Spaced (ReferenceAction.plainClause event (some a) ++ ls) s)
    {before : Option Char} (hbefore : Fresh before s) : ∃ found,
      searchFrom (actionOn (ReferenceAction.eventWord event).text) before s = some found ∧
        Sql.normalAction found.value.chars = a.label := by
  have hclause : Spaced ([] ++ .keyword .on ::
      (ReferenceAction.plainEvent event :: (a.plainLexemes ++ ls))) s := h
  obtain ⟨before', t, heq, hbefore', hstops, ht⟩ := exists_searchFrom_run (r := "ON".toList)
    (keyed_actionOn (ReferenceAction.eventWord event).text) (by simp) rfl hclause hbefore
  have hword : (ReferenceAction.plainEvent event).isWord = true := by cases event <;> rfl
  obtain ⟨g₁, u, rfl, hne₁, hg₁, hu, ht⟩ := ht.exists_cons_of_stops hword hstops
  -- Behind the event, an action starts with a word.
  obtain ⟨l, more, hlexemes, hl⟩ : ∃ l more, a.plainLexemes = l :: more ∧ l.isWord = true := by
    cases a <;> exact ⟨_, _, rfl, rfl⟩
  rw [hlexemes] at ht
  obtain ⟨g₂, v, rfl, hne₂, hg₂, hv, ht⟩ := ht.exists_cons_of_stops hl hu
  have haction : Spaced (a.plainLexemes ++ ls) (l.chars ++ v) := by
    rw [hlexemes]
    exact .lexeme (fun _ => hv) ht
  have hevent : (ReferenceAction.plainEvent event).chars =
      (ReferenceAction.eventWord event).text.toList := by
    cases event <;> rfl
  have hplain : (ReferenceAction.eventWord event).text.toList.all Text.startsPlain = true := by
    cases event <;> decide
  obtain ⟨words, stop, hwords, hlabel⟩ := first_actionWords a haction (l.isSpace_head? v)
    (after (after (after (after before' "ON".toList) g₁)
      (ReferenceAction.eventWord event).text.toList) g₂)
  have hread : First (actionOn (ReferenceAction.eventWord event).text)
      ⟨before', "ON".toList ++ (g₁ ++ ((ReferenceAction.plainEvent event).chars ++
        (g₂ ++ (l.chars ++ v))))⟩ words stop := by
    have hhead := (ReferenceAction.plainEvent event).isSpace_head? (g₂ ++ (l.chars ++ v))
    rw [hevent] at hhead ⊢
    refine (First.boundary hbefore' ⟨'O', rfl, by decide⟩).bind ?_
    refine (First.word (w := "ON") (by decide) _ _).bind ?_
    refine (First.spaces1 hne₁ hg₁ hhead _).bind ?_
    refine (First.word hplain _ _).bind ?_
    exact (First.spaces1 hne₂ hg₂ (l.isSpace_head? v) _).bind hwords
  exact ⟨_, heq.trans (searchFrom_of_first hread), hlabel⟩

/-- The action on an event is found behind a clause and around the action on the other event. Either
side may lack its clause, which covers both orders at once. -/
theorem declaredAction_spaced {event other : KeyEvent} (hne : other ≠ event)
    {a b d : Option ReferenceAction} {ls : List PlainLexeme}
    (hls : ∀ l ∈ ls, l ≠ .keyword .on) {s : List Char}
    (h : Spaced (ls ++ (ReferenceAction.plainClause other b ++
      (ReferenceAction.plainClause event a ++ ReferenceAction.plainClause other d))) s) :
    declaredAction (ReferenceAction.eventWord event).text s = a.map ReferenceAction.label := by
  have hkeyed := keyed_actionOn (ReferenceAction.eventWord event).text
  obtain ⟨before₁, s₁, heq₁, hfresh₁, h⟩ := exists_searchFrom_append hkeyed
    (fun l hl => stepsOver_actionOn _ (hls l hl)) h (.start s)
  obtain ⟨before₂, s₂, heq₂, hfresh₂, h⟩ := exists_searchFrom_otherClause hne b h hfresh₁
  -- Up to here the search has gone over the other event's clause. What decides is whether the
  -- wanted clause stands there.
  cases a with
  | none =>
      rw [ReferenceAction.plainClause, List.nil_append,
        ← List.append_nil (ReferenceAction.plainClause other d)] at h
      obtain ⟨before₃, s₃, heq₃, hfresh₃, h⟩ := exists_searchFrom_otherClause hne d h hfresh₂
      have hnone := searchFrom_eq_none hkeyed (by simp) h hfresh₃
      rw [declaredAction, find?, search, Place.start, heq₁, heq₂, heq₃, hnone]
      rfl
  | some a =>
      obtain ⟨found, hfound, hlabel⟩ := searchFrom_ownClause h hfresh₂
      rw [declaredAction, find?, search, Place.start, heq₁, heq₂, hfound]
      exact congrArg some hlabel

/-- The actions behind a clause, in either order. Each event is looked for from the front, so their
order does not matter. -/
theorem declaredActions_spaced {updateFirst : Bool} {onDelete onUpdate : Option ReferenceAction}
    {ls : List PlainLexeme} (hls : ∀ l ∈ ls, l ≠ .keyword .on) {s : List Char}
    (h : Spaced (ls ++ ReferenceAction.plainClauses updateFirst onDelete onUpdate) s) :
    declaredAction "DELETE" s = onDelete.map ReferenceAction.label ∧
      declaredAction "UPDATE" s = onUpdate.map ReferenceAction.label := by
  have hnone (event : KeyEvent) : ReferenceAction.plainClause event none = [] := rfl
  have hdelete : KeyEvent.delete ≠ .update := by decide
  -- There is room for the other action in front of each action and behind it.
  cases updateFirst with
  | true =>
      rw [ReferenceAction.plainClauses, if_pos rfl] at h
      exact ⟨declaredAction_spaced hdelete.symm (b := onUpdate) (d := none) hls
          (by simpa [hnone] using h),
        declaredAction_spaced hdelete (b := none) (d := onDelete) hls (by simpa [hnone] using h)⟩
  | false =>
      rw [ReferenceAction.plainClauses, if_neg (by decide)] at h
      exact ⟨declaredAction_spaced hdelete.symm (b := none) (d := onUpdate) hls
          (by simpa [hnone] using h),
        declaredAction_spaced hdelete (b := onDelete) (d := none) hls (by simpa [hnone] using h)⟩

/-! ### Foreign keys -/

/-- The clause of a foreign key is none of a primary key. -/
theorem primaryKey?_eq_none {c : Option QuotedName} {ls : List PlainLexeme} {s : List Char}
    (h : Spaced (PlainLexeme.constraintClause c ++ .keyword .foreign :: ls) s)
    (hs : ∀ c ∈ s.head?, isSpace c = false) : primaryKey? s = none := by
  -- Whatever the definition begins with is not `PRIMARY`.
  have hstart (before : Option Char) : Fails (word "PRIMARY") ⟨before, s⟩ := by
    cases c with
    | none =>
        obtain ⟨t, rfl, -, -⟩ := h.exists_cons_of_head hs
        exact Fails.word (by decide) _ _
    | some n =>
        obtain ⟨t, rfl, -, -⟩ := h.exists_cons_of_head hs
        exact Fails.word (by decide) _ _
  have hnone : primaryKeyClause.find? s = none :=
    (anchored_constraintName_bind _).find?_eq_none (fails_constraintName_bind (by decide) h hs
      (hstart _).bind_left
      (fun _ _ _ _ hc => Fails.bind_left (Fails.word_space (by decide) (by decide) hc _ _))
      fun _ _ _ => Fails.bind_left (Fails.word (by decide) _ _))
  rw [primaryKey?, hnone]
  rfl

/-- The actions of a foreign key are found behind its columns. No word before the actions is `ON`,
so nothing else is taken for one. -/
theorem declaredActions_foreignKey {c : Option QuotedName} {ns : NameList} {r : PlainReference}
    {s : List Char} (h : Spaced (PlainElement.foreignKey c ns r).lexemes s) :
    declaredAction "DELETE" s = r.onDelete.map ReferenceAction.label ∧
      declaredAction "UPDATE" s = r.onUpdate.map ReferenceAction.label := by
  let front := PlainLexeme.constraintClause c ++ .keyword .foreign :: .keyword .key ::
    (PlainLexeme.nameList ns.names ++ .keyword .references :: .name r.toTable ::
      PlainLexeme.nameList r.toColumns.names)
  have hfront : ∀ l ∈ front, l ≠ .keyword .on := by
    simp only [front, List.forall_mem_append, List.forall_mem_cons]
    exact ⟨PlainLexeme.ne_keyword_of_mem_constraintClause (by decide), by decide, by decide,
      PlainLexeme.ne_keyword_of_mem_nameList, by decide, by simp,
      PlainLexeme.ne_keyword_of_mem_nameList⟩
  -- The definition is cut where the actions begin. Before that there is no `ON`.
  have hsplit : Spaced (front ++
      ReferenceAction.plainClauses r.updateFirst r.onDelete r.onUpdate) s := by
    simpa [front, PlainElement.lexemes, PlainReference.lexemes] using h
  exact declaredActions_spaced hfront hsplit

/-- The clause of a foreign key is read. Its actions are looked for in the whole clause, after the
rest of it has been matched. -/
theorem foreignKey?_spaced (table : String) {c : Option QuotedName} {ns : NameList}
    {r : PlainReference} {s : List Char} (h : Spaced (PlainElement.foreignKey c ns r).lexemes s)
    (hs : ∀ c ∈ s.head?, isSpace c = false) : foreignKey? table s =
      some ((r.reference.foreignKey (c.map QuotedName.text) ns.texts).foreignKey table) := by
  have hactions := declaredActions_foreignKey h
  -- The text is taken apart along its lexemes, and each part of the clause reads one of them.
  obtain ⟨name, before, s₁, hconstraint, hname, hs₁, h⟩ :=
    first_constraintName (k := .foreign) (by decide) h hs
  obtain ⟨g₂, s₂, rfl, hne₂, hg₂, -, h⟩ := h.exists_cons_of_stops (l := .keyword .key) rfl hs₁
  obtain ⟨g₃, s₃, rfl, hg₃, hs₃, h⟩ := h.exists_front
  obtain ⟨columns, t, hlist, hcolumns, ht⟩ := first_listInside h hs₃
    (after (after (after (after before "FOREIGN".toList) g₂) "KEY".toList) g₃)
  obtain ⟨u, rfl, -, -⟩ := h.exists_cons_of_head hs₃
  obtain ⟨g₄, t₁, rfl, hg₄, ht₁, ht⟩ := ht.exists_cons
  obtain ⟨g₅, t₂, rfl, hne₅, hg₅, ht₂, ht⟩ := ht.exists_cons_of_stops rfl (ht₁ rfl)
  obtain ⟨g₆, t₃, rfl, hg₆, ht₃, ht⟩ := ht.exists_front
  obtain ⟨target, before', htarget, hspan⟩ := first_qualifiedName r.toTable ht₂
    (after (after (after (some ')') g₄) "REFERENCES".toList) g₅)
  obtain ⟨toColumns, v, hlist', hcolumns', -⟩ := first_listInside ht ht₃ (after before' g₆)
  have hclause : First foreignKeyClause (.start s) (name, columns, target, toColumns)
      ⟨some ')', v⟩ := by
    refine hconstraint.bind ?_
    refine (First.word (w := "FOREIGN") (by decide) _ _).bind ?_
    refine (First.spaces1 hne₂ hg₂ (PlainLexeme.isSpace_head? (.keyword .key) _) _).bind ?_
    refine (First.word (w := "KEY") (by decide) _ _).bind ?_
    refine (First.spaces hg₃ hs₃ _).bind ?_
    refine (First.optional_none (fails_plainName (by decide) (by decide) _ _).bind_left).bind ?_
    refine hlist.bind ?_
    refine (First.spaces hg₄ (PlainLexeme.isSpace_head? (.keyword .references) _) _).bind ?_
    refine (First.word (w := "REFERENCES") (by decide) _ _).bind ?_
    refine (First.spaces1 hne₅ hg₅ (PlainLexeme.isSpace_head? (.name r.toTable) _) _).bind ?_
    refine htarget.bind ?_
    refine (First.spaces hg₆ ht₃ _).bind ?_
    exact hlist'.bind (First.pure _ _)
  rw [foreignKey?, find?_of_first hclause]
  simp only [Option.map_some, hname, hcolumns, hcolumns', nameOf_eq hspan, hactions]
  rfl

end EntityDiagram.Excerpt
