import EntityDiagram.Proofs.Excerpt.Progress
import EntityDiagram.Proofs.Excerpt.Scan
import Mathlib.Data.List.Infix

/-!
# `EntityDiagram.Proofs.Excerpt.Layout`: a scan cuts out the bodies as they are written

A script may be laid out as a list of `Stretch`es: tables, each with a body and options, and heads
of tables whose parenthesis is never closed. The body is any text that keeps its quotes and
parentheses to itself.

* `Stretch.staysOpen`: a stretch closes nothing that is open in front of it. So an open head stays
  open over everything that follows it.
* `first_tableHead_of`, `searchFrom_gap`: the search for a head steps over what stands between
  stretches and finds the head of the next one.
* `scan_stretches`: a scan finds the tables, with their names and bodies, and the names of the open
  heads, each in order.
* `scanTables_stretches`: the main statement. The open heads add no table and hide none.
-/

set_option autoImplicit false

namespace EntityDiagram.Excerpt

open Text (isSpace isWordChar Pattern Place Span)
open Text.Pattern
open Sql (Nesting isQuote quoteStep outside outside_of_plain outside_quoted mem_of_mem_outside)

/-! ### Stretches of a script -/

/-- A part of a qualified name, plain or in backticks. -/
structure NamePart where
  name : Ddl.QuotedName
  ticked : Bool

/-- A part of a name as it is written. -/
def NamePart.chars (p : NamePart) : List Char :=
  if p.ticked then '`' :: (p.name.text.toList ++ ['`']) else p.name.text.toList

/-- A word, or words with dots between them. -/
structure DottedName where
  first : NamePart
  more : List NamePart

/-- A name as it is written. -/
def DottedName.chars (q : DottedName) : List Char :=
  q.first.chars ++ q.more.flatMap fun p => '.' :: p.chars

/-- A single word without backticks. -/
def DottedName.ofWord (text : String)
    (h : text.toList ≠ [] ∧ text.toList.all Ddl.isNameChar = true) : DottedName :=
  ⟨⟨⟨text, h.1, h.2⟩, false⟩, []⟩

/-- The inside of a pair of parentheses: outside of its quotes, which it closes, its parentheses
are balanced and no comment opens. -/
structure Body where
  chars : List Char
  bare : Bare chars
  nested : ∀ p ∈ (outside none chars).inits, p.count ')' ≤ p.count '('
  balanced : (outside none chars).count '(' = (outside none chars).count ')'

/-- In quotes a body may hold anything, even what would end it or start a table elsewhere. -/
example : ∃ b : Body, b.chars = "a INT DEFAULT ');--', b SET('CREATE TABLE t (')".toList :=
  ⟨⟨_, ⟨by decide +kernel, by decide +kernel⟩, by decide +kernel, by decide +kernel⟩, rfl⟩

/-- The options of a table: no quotes, parentheses, semicolons or comments, and not the word
`CREATE`. -/
structure TableOptions where
  chars : List Char
  plain : ∀ c ∈ chars, c ∉ ['\'', '"', '`', '(', ')', ';']
  uncommented : chars.IsChain fun c d => opensComment c d = false
  lacksCreate : ¬HoldsWord "CREATE" chars

/-- A stretch of a script. -/
inductive Stretch where
  | table (name : DottedName) (body : Body) (options : TableOptions)
  /-- The head of a table whose parenthesis is never closed. -/
  | openHead (name : DottedName) (body : Body) (lacksCreate : ¬HoldsWord "CREATE" body.chars)

/-- The words in front of the name of a table. -/
def headWords : List Char := "CREATE".toList ++ ([' '] ++ ("TABLE".toList ++ [' ']))

/-- The head of a table of this name, up to its opening parenthesis. -/
def headText (name : DottedName) : List Char := headWords ++ (name.chars ++ [' ', '('])

namespace Stretch

/-- The text of a stretch. -/
def text : Stretch → List Char
  | .table name body options =>
    headText name ++ (body.chars ++ ([')', ' '] ++ (options.chars ++ [';', '\n'])))
  | .openHead name body _ => headText name ++ (body.chars ++ ['\n'])

/-- The table of a stretch, if it is one. -/
def table? : Stretch → Option RawTable
  | .table name body _ => some
      { qualifiedName := String.ofList name.chars
        body := String.ofList body.chars
        comment := none }
  | .openHead _ _ _ => none

/-- The table that a head is about which is never closed. Every other stretch is closed. -/
def openName? : Stretch → Option String
  | .table _ _ _ => none
  | .openHead name _ _ => some (Sql.objectName (String.ofList name.chars))

end Stretch

/-! ### Names and heads -/

/-- Whether the character may stand in a name as it is written. -/
def isQualifiedChar (c : Char) : Bool :=
  c == '`' || c == '"' || c == '[' || c == ']' || isWordChar c || c == '$' || c == '.'

/-- What a character of a written name is not. -/
theorem isQualifiedChar_facts {c : Char} (h : isQualifiedChar c = true) :
    isSpace c = false ∧ c ∉ ['-', '/', '(', ')'] := by
  constructor
  · rw [Bool.eq_false_iff]
    intro hspace
    have hnot := Text.forall_isSpace (p := fun c => c ∉ ['`', '"', '[', ']', '$', '.']) (by decide)
      hspace
    simp only [List.mem_cons, List.not_mem_nil, or_false, not_or] at hnot
    simp [isQualifiedChar, Text.isWordChar_of_isSpace hspace, hnot] at h
  · intro hmem
    simp only [List.mem_cons, List.not_mem_nil, or_false] at hmem
    rcases hmem with rfl | rfl | rfl | rfl <;> exact absurd h (by decide)

/-- A part of a name closes its quotes. -/
theorem NamePart.facts (p : NamePart) : p.chars ≠ [] ∧ p.chars.foldl quoteStep none = none ∧
    ∀ c ∈ p.chars, isQualifiedChar c = true := by
  -- A character of a name is no quote mark, and a pattern for names takes it.
  have hchar : ∀ c ∈ p.name.text.toList, isQuote c = false ∧ isQualifiedChar c = true := by
    intro c hc
    obtain ⟨-, hmark, -, hname⟩ := Ddl.isNameChar_facts (p.name.isNameChar c hc)
    constructor
    · rw [Bool.eq_false_iff]
      intro hquote
      simp only [isQuote, Bool.or_eq_true, beq_iff_eq] at hquote
      rcases hquote with (rfl | rfl) | rfl <;> exact absurd hmark (by decide)
    · rcases Bool.or_eq_true_iff.1 hname with hword | hdollar
      · simp [isQualifiedChar, hword]
      · simp [isQualifiedChar, hdollar]
  rw [NamePart.chars]
  split
  · have hmark : '`' ∉ p.name.text.toList := fun hmem => absurd (hchar _ hmem).1 (by decide)
    refine ⟨List.cons_ne_nil _ _, ?_, fun c hc => ?_⟩
    · rw [List.foldl_cons, List.foldl_append, show quoteStep none '`' = some '`' from rfl,
        (outside_quoted hmark).1]
      rfl
    · simp only [List.mem_cons, List.mem_append, List.not_mem_nil, or_false] at hc
      rcases hc with rfl | hc | rfl
      · decide
      · exact (hchar c hc).2
      · decide
  · exact ⟨p.name.nonempty, (outside_of_plain fun c hc => (hchar c hc).1).1,
      fun c hc => (hchar c hc).2⟩

namespace DottedName

variable (q : DottedName)

/-- There is a name. -/
theorem chars_ne_nil : q.chars ≠ [] := fun h => q.first.facts.1 (List.append_eq_nil_iff.1 h).1

/-- A name closes its quotes. -/
theorem closed : q.chars.foldl quoteStep none = none := by
  have hmore (ps : List NamePart) :
      (ps.flatMap fun p => '.' :: p.chars).foldl quoteStep none = none := by
    induction ps with
    | nil => rfl
    | cons p ps ih =>
        rw [List.flatMap_cons, List.cons_append, List.foldl_cons, List.foldl_append,
          show quoteStep none '.' = none from rfl, p.facts.2.1, ih]
  rw [chars, List.foldl_append, q.first.facts.2.1, hmore]

/-- A name consists of characters of names. -/
theorem isQualifiedChar : ∀ c ∈ q.chars, isQualifiedChar c = true := by
  intro c hc
  rw [chars, List.mem_append, List.mem_flatMap] at hc
  rcases hc with hc | ⟨p, -, hc⟩
  · exact q.first.facts.2.2 c hc
  · rcases List.mem_cons.1 hc with rfl | hc
    · decide
    · exact p.facts.2.2 c hc

end DottedName

/-- A written name is read as a whole. The pattern takes as much as it can, up to the first
character that belongs to no name. -/
theorem DottedName.first_qualifiedName (q : DottedName) {t : List Char}
    (ht : ∀ c ∈ t.head?, Excerpt.isQualifiedChar c = false) (before : Option Char) :
    ∃ span before', First qualifiedName ⟨before, q.chars ++ t⟩ span ⟨before', t⟩ ∧
      span.chars = q.chars :=
  ⟨_, _, (First.some1 q.chars_ne_nil q.isQualifiedChar ht before).span, chars_append _ _ _ _⟩

/-- A head with a text behind it. -/
theorem headText_append (q : DottedName) (t : List Char) :
    headText q ++ t = "CREATE".toList ++ ([' '] ++ ("TABLE".toList ++ ([' '] ++
      (q.chars ++ ([' '] ++ '(' :: t))))) := by
  -- For any words, since comparing two literals is slow.
  have key (create table : List Char) :
      (create ++ ([' '] ++ (table ++ [' '])) ++ (q.chars ++ [' ', '('])) ++ t =
        create ++ ([' '] ++ (table ++ ([' '] ++ (q.chars ++ ([' '] ++ '(' :: t))))) := by simp
  exact key _ _

/-- `IF NOT EXISTS` is not read where a name and a parenthesis stand, even if the name is `IF`.
After `IF` there is no second word, because the parenthesis comes next. -/
theorem fails_ifNotExists {r g : List Char} (hr : ∀ c ∈ r, isSpace c = false)
    (hg : ∀ c ∈ g, isSpace c = true) (before : Option Char) (t : List Char) :
    Fails (do word "IF"; spaces1; word "NOT"; spaces1; word "EXISTS"; spaces1)
      ⟨before, r ++ (g ++ '(' :: t)⟩ :=
  Fails.word_spaces1_word (by decide) (by decide) (by decide) _ hr hg
    (by rintro c ⟨⟩; decide) before

/-- A name does not start with white space. -/
theorem DottedName.head?_append (q : DottedName) (s : List Char) :
    ∀ c ∈ (q.chars ++ s).head?, isSpace c = false := by
  intro c hc
  cases hchars : q.chars with
  | nil => exact absurd hchars q.chars_ne_nil
  | cons d r =>
      rw [hchars] at hc
      obtain rfl := Option.some.inj hc
      exact (isQualifiedChar_facts (q.isQualifiedChar d (by simp [hchars]))).1

/-- A name is read with the parenthesis behind it. -/
theorem DottedName.exists_first_open (q : DottedName) {g : List Char}
    (hg : ∀ c ∈ g, isSpace c = true) (before : Option Char) (t : List Char) :
    ∃ span, First (do let name ← qualifiedName; spaces; char (· == '('); return name)
      ⟨before, q.chars ++ (g ++ '(' :: t)⟩ span ⟨some '(', t⟩ ∧ span.chars = q.chars := by
  have hparen : ∀ c ∈ ('(' :: t).head?, isSpace c = false := by
    rintro c ⟨⟩
    decide
  -- Space or a parenthesis follows the name, and neither belongs to one.
  have hend : ∀ c ∈ (g ++ '(' :: t).head?, Excerpt.isQualifiedChar c = false := by
    intro c hc
    cases g with
    | nil =>
        obtain rfl := Option.some.inj hc
        decide
    | cons d g =>
        obtain rfl := Option.some.inj hc
        rw [Bool.eq_false_iff]
        intro hqualified
        have hspace := hg d (by simp)
        rw [(isQualifiedChar_facts hqualified).1] at hspace
        cases hspace
  obtain ⟨span, before', hread, hspan⟩ := q.first_qualifiedName hend before
  refine ⟨span, hread.bind ((First.spaces hg hparen _).bind ?_), hspan⟩
  exact (First.of_singleton (char_of (by decide) _ _)).bind (First.pure _ _)

/-- The head of a table is read where it stands. Only a character of a word in front of it could
prevent this. -/
theorem first_tableHead_of (q : DottedName) {before : Option Char}
    (hbefore : ∀ c ∈ before, isWordChar c = false) (t : List Char) :
    ∃ span, First tableHead ⟨before, headText q ++ t⟩ span ⟨some '(', t⟩ ∧
      span.chars = q.chars := by
  have hspace : ∀ c ∈ [' '], isSpace c = true := Text.forall_mem_of_all (by decide)
  have hlead (s : List Char) : ∀ c ∈ ("TABLE".toList ++ s).head?, isSpace c = false := by
    rintro c ⟨⟩
    decide
  obtain ⟨span, hread, hspan⟩ := q.exists_first_open hspace
    (after (after (after (after before "CREATE".toList) [' ']) "TABLE".toList) [' ']) t
  refine ⟨span, ?_, hspan⟩
  -- The optional parts of the pattern are not written here, so they have to be shown to fail.
  rw [headText_append]
  refine (First.boundary hbefore ⟨'C', rfl, by decide⟩).bind ?_
  refine (First.word (w := "CREATE") (by decide) _ _).bind ?_
  refine (First.spaces1 (List.cons_ne_nil _ _) hspace (hlead _) _).bind ?_
  refine (First.optional_none (Fails.bind_left (Fails.word (v := "TABLE".toList)
    (by decide) _ _))).bind ?_
  refine (First.word (w := "TABLE") (by decide) _ _).bind ?_
  refine (First.spaces1 (List.cons_ne_nil _ _) hspace (q.head?_append _) _).bind ?_
  exact (First.optional_none (fails_ifNotExists (fun c hc =>
    (isQualifiedChar_facts (q.isQualifiedChar c hc)).1) hspace _ _)).bind hread

/-! ### Stretches and what is open around them -/

/-- The words of a head do nothing. -/
theorem inert_headWords : Inert headWords := .of_all (by decide)

/-- Nor does a name. -/
theorem DottedName.inert (q : DottedName) : Inert q.chars :=
  ⟨q.closed, fun c hc => (isQualifiedChar_facts (q.isQualifiedChar c (mem_of_mem_outside hc))).2⟩

/-- There is no comment in a head. -/
theorem Bare.headText_append {s : List Char} (hs : Bare s) (q : DottedName) :
    Bare (headText q ++ s) := by
  have hparen : Bare (' ' :: '(' :: s) := (hs.cons (by decide)).cons (by decide)
  rw [headText, List.append_assoc headWords, List.append_assoc q.chars]
  exact inert_headWords.bare_append (q.inert.bare_append hparen)

/-- A head opens one group. -/
theorem staysOpen_headText (q : DottedName) (d : Nat) :
    StaysOpen ⟨d, none⟩ (headText q) ⟨d + 1, none⟩ :=
  (inert_headWords.staysOpen d).append
    ((q.inert.staysOpen d).append (.cons rfl (.cons rfl .nil)))

/-- A body closes what it opens, and no more. -/
theorem Body.staysOpen (b : Body) (d : Nat) : StaysOpen ⟨d, none⟩ b.chars ⟨d, none⟩ := by
  obtain ⟨d', hstays, hcount⟩ := StaysOpen.of_count (d := d) (q := none) (s := b.chars)
    fun p hp => Nat.le_add_left_of_le (b.nested p ((List.mem_inits p _).2 hp))
  have hbalanced := b.balanced
  rwa [b.bare.closed, show d' = d by omega] at hstays

/-- Without a quotation mark in front of the first semicolon, a tail holds no comment. -/
theorem commentIn_of_notMem {tail : List Char} (h : '\'' ∉ tail.takeWhile (· != ';')) :
    commentIn tail = none := by
  have hquote : Meets '\'' commentOption :=
    .bind_right .boundary fun _ => .bind_right (.word _) fun _ => .bind_right .spaces fun _ =>
      .bind_right (.optional (.char _)) fun _ => .bind_right .spaces fun _ =>
        Meets.char.bind_left _
  rw [commentIn, hquote.find?_eq_none h]
  rfl

namespace TableOptions

variable (o : TableOptions)

/-- Everything among the options is outside of quotes. -/
theorem outside_eq : o.chars.foldl quoteStep none = none ∧ outside none o.chars = o.chars := by
  refine outside_of_plain fun c hc => ?_
  have hplain := o.plain c hc
  simp only [List.mem_cons, List.not_mem_nil, or_false, not_or] at hplain
  simp [isQuote, hplain]

/-- There are no comments among the options. -/
theorem bare : Bare o.chars := ⟨o.outside_eq.1, o.outside_eq.2.symm ▸ o.uncommented⟩

/-- There are no parentheses among the options. -/
theorem staysOpen (d : Nat) : StaysOpen ⟨d, none⟩ o.chars ⟨d, none⟩ := by
  have hstays := StaysOpen.of_notMem (d := d) (q := none) (s := o.chars) fun c hc => by
    have hplain := o.plain c (mem_of_mem_outside hc)
    simp only [List.mem_cons, List.not_mem_nil, or_false, not_or] at hplain
    exact ⟨hplain.2.2.2.1, hplain.2.2.2.2.1⟩
  rwa [o.outside_eq.1] at hstays

/-- There is no comment on the table among the options. -/
theorem commentIn_eq_none (t : List Char) : commentIn (' ' :: (o.chars ++ ';' :: t)) = none := by
  have htake : (' ' :: (o.chars ++ ';' :: t)).takeWhile (· != ';') = ' ' :: o.chars := by
    rw [← List.cons_append, List.takeWhile_append_of_pos fun c hc => ?_]
    · simp
    · rcases List.mem_cons.1 hc with rfl | hc
      · decide
      · have hplain := o.plain c hc
        simp only [List.mem_cons, List.not_mem_nil, or_false, not_or] at hplain
        simp [hplain]
  refine commentIn_of_notMem ?_
  rw [htake]
  intro hmem
  rcases List.mem_cons.1 hmem with h | h
  · exact absurd h (by decide)
  · exact o.plain _ h (by simp)

end TableOptions

namespace Stretch

/-- The text of a stretch has no comments. -/
theorem bare_text (x : Stretch) : Bare x.text := by
  have hend : Bare ['\n'] := (Inert.of_all (by decide)).bare
  cases x with
  | table q b o =>
      have hrest := o.bare.append_cons (by decide) (hend.cons (c := ';') (by decide))
      exact (b.bare.append_cons (by decide)
        ((hrest.cons (c := ' ') (by decide)).cons (c := ')') (by decide))).headText_append q
  | openHead q b _ => exact (b.bare.append_cons (by decide) hend).headText_append q

/-- A stretch closes nothing that is open in front of it. -/
theorem staysOpen (x : Stretch) (d : Nat) : ∃ d', StaysOpen ⟨d, none⟩ x.text ⟨d', none⟩ := by
  cases x with
  | table q b o =>
      have hclose : StaysOpen ⟨d + 1, none⟩ [')', ' '] ⟨d, none⟩ :=
        .cons (by simp [Nesting.isTop]) (.cons rfl .nil)
      exact ⟨d, (staysOpen_headText q d).append ((b.staysOpen _).append
        (hclose.append ((o.staysOpen d).append (.cons rfl (.cons rfl .nil)))))⟩
  | openHead q b _ =>
      exact ⟨d + 1, (staysOpen_headText q d).append ((b.staysOpen _).append (.cons rfl .nil))⟩

/-- Nor do several. -/
theorem staysOpen_flatMap (xs : List Stretch) (d : Nat) :
    ∃ d', StaysOpen ⟨d, none⟩ (xs.flatMap text) ⟨d', none⟩ := by
  induction xs generalizing d with
  | nil => exact ⟨d, .nil⟩
  | cons x xs ih =>
      obtain ⟨d₁, hx⟩ := x.staysOpen d
      obtain ⟨d₂, hxs⟩ := ih d₁
      exact ⟨d₂, hx.append hxs⟩

/-- A stretch starts with the first word of a head. -/
theorem exists_text_eq (x : Stretch) : ∃ s, x.text = 'C' :: s := by
  cases x with
  | table q b o => exact ⟨_, rfl⟩
  | openHead q b _ => exact ⟨_, rfl⟩

end Stretch

/-! ### Scans -/

/-- The search for a head steps over a text without the word that starts one. -/
theorem searchFrom_gap {g : List Char} (hg : ¬HoldsWord "CREATE" g) {c : Char}
    (hc : isWordChar c = false) (before : Option Char) (t : List Char) :
    searchFrom tableHead before (g ++ c :: t) = searchFrom tableHead (some c) t := by
  have hgap := keyed_tableHead.searchFrom_append (s := g) (t := c :: t) (by simpa using hg)
    (by simpa using hc) before
  rw [hgap, keyed_tableHead.searchFrom_cons hc]

/-- From a place in front of stretches on, a scan finds their tables and heads. It goes by induction
on the stretches. -/
theorem scanAt_stretches (xs : List Stretch) {before : Option Char}
    (hbefore : ∀ c ∈ before, isWordChar c = false) :
    scanAt ⟨before, xs.flatMap Stretch.text⟩ =
      { tables := xs.filterMap Stretch.table?
        unterminated := xs.filterMap Stretch.openName? } := by
  have hnewline : ∀ c ∈ some '\n', isWordChar c = false := by
    rintro c ⟨⟩
    decide
  induction xs generalizing before with
  | nil => exact scanAt_of_none (keyed_tableHead.searchFrom_nil before)
  | cons x xs ih =>
      have hrest := ih hnewline
      cases x with
      | table q b o =>
          have htext : (Stretch.table q b o :: xs).flatMap Stretch.text = headText q ++
              (b.chars ++ ')' :: ' ' :: (o.chars ++ ';' :: '\n' :: xs.flatMap Stretch.text)) := by
            simp [Stretch.text]
          obtain ⟨span, hfirst, hspan⟩ := first_tableHead_of q hbefore
            (b.chars ++ ')' :: ' ' :: (o.chars ++ ';' :: '\n' :: xs.flatMap Stretch.text))
          have hgap : scanAt ⟨some ')', ' ' :: (o.chars ++ ';' :: '\n' ::
              xs.flatMap Stretch.text)⟩ = scanAt ⟨some '\n', xs.flatMap Stretch.text⟩ := by
            refine scanAt_congr ?_
            show searchFrom tableHead _ _ = searchFrom tableHead _ _
            rw [keyed_tableHead.searchFrom_cons (by decide),
              searchFrom_gap o.lacksCreate (by decide), keyed_tableHead.searchFrom_cons (by decide)]
          rw [htext, scanAt_of_closed (search_of_first hfirst)
            ((b.staysOpen 0).closeGroup_close _), hgap, hrest, o.commentIn_eq_none, Span.text,
            hspan]
          rfl
      | openHead q b hb =>
          have htext : (Stretch.openHead q b hb :: xs).flatMap Stretch.text = headText q ++
              (b.chars ++ '\n' :: xs.flatMap Stretch.text) := by
            simp [Stretch.text]
          obtain ⟨span, hfirst, hspan⟩ := first_tableHead_of q hbefore
            (b.chars ++ '\n' :: xs.flatMap Stretch.text)
          -- Whatever follows, the group stays open to the end.
          obtain ⟨d, hopen⟩ := Stretch.staysOpen_flatMap xs 0
          have hnone : closeGroup {} (b.chars ++ '\n' :: xs.flatMap Stretch.text) = none :=
            ((b.staysOpen 0).append (.cons (c := '\n') rfl hopen)).closeGroup_eq
          have hgap : scanAt ⟨some '(', b.chars ++ '\n' :: xs.flatMap Stretch.text⟩ =
              scanAt ⟨some '\n', xs.flatMap Stretch.text⟩ :=
            scanAt_congr (show searchFrom tableHead _ _ = searchFrom tableHead _ _ from
              searchFrom_gap hb (by decide) _ _)
          rw [htext, scanAt_of_open (search_of_first hfirst) hnone, hgap, hrest, Span.text,
            hspan]
          rfl

/-- A scan of a script that is laid out as stretches finds the tables and the open heads. -/
theorem scan_stretches (xs : List Stretch) :
    scan (String.ofList (xs.flatMap Stretch.text)) =
      { tables := xs.filterMap Stretch.table?
        unterminated := xs.filterMap Stretch.openName? } := by
  have hbare := Bare.flatMap (by decide) Stretch.exists_text_eq Stretch.bare_text xs
  rw [scan_eq_scanAt, String.toList_ofList, hbare.stripComments_eq]
  exact scanAt_stretches xs (by simp)

/-- A scan cuts out exactly the tables, each with its body as it is written and in order. Heads
whose parenthesis is never closed, anywhere between them, change nothing about that. -/
theorem scanTables_stretches (xs : List Stretch) :
    scanTables (String.ofList (xs.flatMap Stretch.text)) = xs.filterMap Stretch.table? :=
  congrArg Scan.tables (scan_stretches xs)

end EntityDiagram.Excerpt
