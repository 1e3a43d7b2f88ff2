import EntityDiagram.Proofs.Parsing.HeadWord
import EntityDiagram.Proofs.Sql.ClientCommand

/-!
# `EntityDiagram.Proofs.Sql.ClientBlock`: complete client commands

Three commands are deleted from a script before it is read: statements that drop a trigger,
statements that create one, and lines that set the delimiter. The patterns for them go over raw text
and know neither quotes nor statements. This module writes down what a complete command of each kind
is, and shows that its pattern reads it to its end and no further.

* `DropTrigger`: the words in any letter case, `IF EXISTS` or not, a name, and all of the semicolons
  that follow it. `DropTrigger.first` is the match.
* `CreateTrigger`: the body is any text in which no `END` with a mark stands, since the pattern runs
  to the first one of these. The clause for the user may be there or not. `CreateTrigger.first` is
  the match, and `CreateTrigger.fails_ending_of_body` says why it is not a shorter one.
* `DelimiterLine`: the command, with a delimiter of signs. What is read of the white space around it
  depends on what stands there: from the start of a line on, and up to the end of one
  (`DelimiterLine.exists_first`). Hence the end of the match is not computed but described.

`Follows w v s` says where the patterns for triggers can start: the word `v` follows the word `w`
in `s`. It is a condition on the text alone, with no pattern in it, and `fails_of_not_follows` is
what it is for. A single word with white space behind it never meets it (`not_follows_headWord`), so
a delimiter line is taken for no trigger.
-/

set_option autoImplicit false

namespace EntityDiagram.Sql.ClientCommand

open Text (isSpace isWordChar eqIgnoreCase isWordChar_of_isSpace startsPlain Pattern Place)
open Text.Pattern
open Parsing (Break HeadWord)
open Ddl (Gap)

/-! ### Two words in a row -/

/-- Whether the word `v` follows the word `w` somewhere in the text, with white space between them.
Either may be part of a longer word. The patterns for triggers start with two such words, and they
ignore boundaries there. -/
def Follows (w v : String) (s : List Char) : Prop :=
  ∃ u a g b t, s = u ++ (a ++ (g ++ (b ++ t))) ∧ Spells w.toList a ∧ g ≠ [] ∧
    (∀ c ∈ g, isSpace c = true) ∧ Spells v.toList b

/-- What ends in front of a character that it cannot hold ends in front of what starts there. It
locates a match: what is read consists of characters of a kind, and the text ends in front of one
that is not. -/
theorem exists_of_append_eq {q : Char → Bool} {s tail x y : List Char} (h : s ++ tail = x ++ y)
    (hx : ∀ c ∈ x, q c = true) (htail : ∀ c ∈ tail.head?, q c = false) : ∃ t, s = x ++ t := by
  rcases List.append_eq_append_iff.1 h with ⟨w, rfl, htail'⟩ | ⟨w, rfl, -⟩
  · cases w with
    | nil => exact ⟨[], by simp⟩
    | cons c w =>
        have hc := hx c (by simp)
        rw [htail c (by rw [htail']; rfl)] at hc
        cases hc
  · exact ⟨w, rfl⟩

/-- Two words are not read in a text in which the one does not follow the other, if the text ends
where neither a word nor white space goes on. What comes behind the two words does not matter
then. -/
theorem fails_of_not_follows {α : Type} {w v : String} (hw : w.toList.all startsPlain = true)
    (hv : v.toList.all startsPlain = true) {s tail : List Char} (h : ¬Follows w v s)
    (htail : ∀ c ∈ tail.head?, isSpace c = false ∧ isWordChar c = false) (f : Unit → Pattern α)
    {u x : List Char} (hs : s = u ++ x) (before : Option Char) :
    Fails (word w >>= fun _ => spaces1 >>= fun _ => word v >>= f) ⟨before, x ++ tail⟩ := by
  refine Fails.bind fun m hm => Fails.bind fun n hn => Fails.bind fun k hk => ?_
  obtain ⟨a, y, hx, ha, rfl⟩ := mem_anyCase hm
  obtain ⟨g, z, rfl, hne, hg, rfl⟩ := mem_some1 hn
  obtain ⟨b, t, rfl, hb, -⟩ := mem_anyCase hk
  -- The two words and the white space between them end within the text.
  obtain ⟨t', ht'⟩ : ∃ t', x = (a ++ (g ++ b)) ++ t' := by
    refine exists_of_append_eq (q := fun c => isSpace c || isWordChar c) (y := t)
      (by simpa using hx) (fun c hc => ?_) fun c hc => by simp [htail c hc]
    rcases List.mem_append.1 hc with hc | hc
    · exact Bool.or_eq_true_iff.2 (.inr (ha.isWordChar hw c hc))
    · rcases List.mem_append.1 hc with hc | hc
      · exact Bool.or_eq_true_iff.2 (.inl (hg c hc))
      · exact Bool.or_eq_true_iff.2 (.inr (hb.isWordChar hv c hc))
  exact absurd ⟨u, a, g, b, t', by rw [hs, ht']; simp, ha, hne, hg, hb⟩ h

/-- No word follows another one in a single word with white space behind it. -/
theorem not_follows_headWord {k w v : String} (h : HeadWord k)
    (hv : v.toList.all startsPlain = true)
    (hne : v.toList ≠ []) : ¬Follows w v h.chars := by
  rintro ⟨u, a, g, b, t, hs, -, hg, hspace, hb⟩
  -- Behind white space there is nothing but white space, and so no second word.
  obtain ⟨d, g, rfl⟩ := List.exists_cons_of_ne_nil hg
  obtain ⟨e, b, rfl⟩ : ∃ e b', b = e :: b' := by
    refine List.exists_cons_of_ne_nil fun hnil => hne ?_
    subst hnil
    exact List.forall₂_nil_right_iff.1 hb
  have hword := hb.isWordChar hv e (by simp)
  have hletters : ∀ c ∈ h.text.toList, isWordChar c = true :=
    (spells_of_eqIgnoreCase h.isUpper h.spells).isWordChar h.isUpper
  -- The white space that is found does not stand in the word itself.
  have hbehind : ∃ z, h.behind.chars = z ++ d :: (g ++ (e :: b ++ t)) := by
    have hsplit : h.text.toList ++ h.behind.chars = (u ++ a) ++ d :: (g ++ (e :: b ++ t)) := by
      rw [← HeadWord.chars, hs]
      simp
    rcases List.append_eq_append_iff.1 hsplit with ⟨z, -, hz⟩ | ⟨z, htext, hz⟩
    · exact ⟨z, hz⟩
    · cases z with
      | nil => exact ⟨[], hz.symm⟩
      | cons c z =>
          obtain ⟨rfl, -⟩ := List.cons.inj hz
          have hnot := isWordChar_of_isSpace (hspace d (by simp))
          rw [hletters d (by simp [htext])] at hnot
          cases hnot
  obtain ⟨z, hz⟩ := hbehind
  have hnot := isWordChar_of_isSpace (h.behind.isSpace e (by simp [hz]))
  rw [hword] at hnot
  cases hnot

/-- A character of a word is no white space. -/
theorem not_isSpace_of_isWordChar {c : Char} (h : isWordChar c = true) : isSpace c = false := by
  rw [Bool.eq_false_iff]
  intro hspace
  rw [isWordChar_of_isSpace hspace] at h
  cases h

/-- A spelled word starts and ends with a character of a word. These are what a boundary at either
end looks at. -/
theorem exists_of_spells {w : String} {u : List Char} (h : Spells w.toList u)
    (hw : w.toList.all startsPlain = true) (hne : w.toList ≠ []) :
    (∃ c rest, u = c :: rest ∧ isWordChar c = true) ∧ ∃ c ∈ u.getLast?, isWordChar c = true := by
  have hword := h.isWordChar hw
  have hune : u ≠ [] := by
    rintro rfl
    exact hne (List.forall₂_nil_right_iff.1 h)
  obtain ⟨c, rest, rfl⟩ := List.exists_cons_of_ne_nil hune
  exact ⟨⟨c, rest, rfl, hword c (by simp)⟩, _, List.getLast?_eq_some_getLast hune,
    hword _ (List.getLast_mem hune)⟩

/-! ### Triggers that are dropped -/

/-- Whether the character may stand in the name of a trigger that is dropped. A qualified name may
stand there, with or without marks. -/
def isTriggerNameChar (c : Char) : Bool := c == '`' || isWordChar c || c == '.'

/-- A complete `DROP TRIGGER` statement with its semicolons. What is optional in it, is optional in
the pattern too, and the gaps are any white space. -/
structure DropTrigger where
  drop : HeadWord "DROP"
  trigger : HeadWord "TRIGGER"
  ifExists : Option (HeadWord "IF" × HeadWord "EXISTS")
  name : List Char
  nonempty : name ≠ []
  isName : ∀ c ∈ name, isTriggerNameChar c = true
  afterName : Gap
  /-- How many semicolons stand behind the first one. -/
  more : Nat

namespace DropTrigger

variable (d : DropTrigger)

/-- The statement from the name on. What stands in front of it are words with white space behind
them. -/
def fromName : List Char :=
  d.name ++ (d.afterName.chars ++ List.replicate (d.more + 1) ';')

/-- The words in front of the name, if they are there. -/
def condition : List Char := d.ifExists.elim [] fun w => w.1.chars ++ w.2.chars

/-- The characters of the statement. -/
def chars : List Char := d.drop.chars ++ (d.trigger.chars ++ (d.condition ++ d.fromName))

/-- A name holds no white space, and no semicolon. So the name ends where either of them comes. -/
theorem isName_facts : ∀ c ∈ d.name, isSpace c = false ∧ (c == ';') = false := by
  intro c hc
  have hname := d.isName c hc
  constructor
  · rw [Bool.eq_false_iff]
    intro hspace
    have hdot : c ≠ '`' ∧ c ≠ '.' := by
      constructor <;>
        · rintro rfl
          exact absurd hspace (by decide)
    simp [isTriggerNameChar, hdot, isWordChar_of_isSpace hspace] at hname
  · rw [beq_eq_false_iff_ne]
    rintro rfl
    exact absurd hname (by decide)

/-- From its name on a statement does not start with white space. -/
theorem head?_fromName (t : List Char) : ∀ c ∈ (d.fromName ++ t).head?, isSpace c = false := by
  obtain ⟨e, rest, hname⟩ := List.exists_cons_of_ne_nil d.nonempty
  intro c hc
  rw [fromName, hname] at hc
  obtain rfl := Option.some.inj hc
  exact (d.isName_facts e (by simp [hname])).1

/-- The name and the semicolons are read. Each of the three parts stops in front of the next one, as
they have no characters in common. -/
theorem exists_first_fromName (before : Option Char) {rest : List Char}
    (hrest : ∀ c ∈ rest.head?, (c == ';') = false) :
    First (do
        some1 fun c => c == '`' || isWordChar c || c == '.'
        spaces
        some1 (· == ';'))
      ⟨before, d.fromName ++ rest⟩ () ⟨after before d.fromName, rest⟩ := by
  -- The name and the white space behind it end in front of a semicolon.
  have hend : ∀ c ∈ (List.replicate (d.more + 1) ';' ++ rest).head?,
      isSpace c = false ∧ isTriggerNameChar c = false := by
    intro c hc
    obtain rfl := Option.some.inj hc
    decide
  have hname : ∀ c ∈ (d.afterName.chars ++ (List.replicate (d.more + 1) ';' ++ rest)).head?,
      isTriggerNameChar c = false := by
    refine d.afterName.head?_append (fun c hc => ?_) fun c hc => (hend c hc).2
    rw [Bool.eq_false_iff]
    intro h
    have hdot : c ≠ '`' ∧ c ≠ '.' := by
      constructor <;>
        · rintro rfl
          exact absurd hc (by decide)
    simp [isTriggerNameChar, hdot, isWordChar_of_isSpace hc] at h
  rw [fromName, List.append_assoc, List.append_assoc, after_append, after_append]
  refine (First.some1 d.nonempty d.isName hname before).bind ?_
  refine (First.spaces d.afterName.isSpace (fun c hc => (hend c hc).1) _).bind ?_
  exact First.some1 (by simp) (fun c hc => by simp [List.eq_of_mem_replicate hc]) hrest _

/-- **A complete statement is read to its last semicolon**, if no other one follows. The pattern
takes as many semicolons as there are. -/
theorem first (before : Option Char) {rest : List Char}
    (hrest : ∀ c ∈ rest.head?, (c == ';') = false) :
    First dropTrigger ⟨before, d.chars ++ rest⟩ () ⟨after before d.chars, rest⟩ := by
  have hname := fun before => d.exists_first_fromName before hrest
  rw [chars, List.append_assoc, List.append_assoc, List.append_assoc, after_append, after_append,
    after_append]
  refine d.drop.first_bind (d.trigger.head?_append _) (d.trigger.first_bind ?_ ?_)
  · rw [condition]
    cases d.ifExists with
    | none => exact d.head?_fromName rest
    | some w =>
        rw [Option.elim, List.append_assoc]
        exact w.1.head?_append _
  · rw [condition]
    cases d.ifExists with
    | none =>
        -- A name can be read as `IF` itself, but then no `EXISTS` follows.
        have hfails (before : Option Char) : Fails (do word "IF"; spaces1; word "EXISTS"; spaces1)
            ⟨before, d.fromName ++ rest⟩ := by
          rw [fromName, List.append_assoc, List.append_assoc]
          refine Fails.word_spaces1_word (by decide) (by decide) (by decide) (fun _ => spaces1)
            (fun c hc => (d.isName_facts c hc).1) d.afterName.isSpace (fun c hc => ?_) before
          obtain rfl := Option.some.inj hc
          decide
        exact (First.optional_none (hfails _)).bind (hname _)
    | some w =>
        rw [Option.elim, List.append_assoc, after_append]
        refine (First.optional (w.1.first_bind (w.2.head?_append _)
          (w.2.first_spaces1 (d.head?_fromName rest) _))).bind (hname _)

end DropTrigger

/-! ### Triggers that are created -/

/-- What may stand behind the `END` of a trigger. One semicolon is enough, and two of them are taken
at once. -/
inductive TriggerMark where
  | semicolon
  | semicolons
  | dollars

/-- The characters of the mark. -/
def TriggerMark.chars : TriggerMark → List Char
  | .semicolon => [';']
  | .semicolons => [';', ';']
  | .dollars => ['$', '$']

/-- The clause that names the user who owns a trigger. The sign may have white space around it, and
the name of the user is one word. -/
structure Definer where
  word : String
  spells : eqIgnoreCase word "DEFINER" = true
  beforeSign : Gap
  afterSign : Gap
  user : List Char
  nonempty : user ≠ []
  noSpace : ∀ c ∈ user, isSpace c = false
  behind : Break

/-- The characters of the clause. -/
def Definer.chars (d : Definer) : List Char :=
  d.word.toList ++ (d.beforeSign.chars ++ '=' :: (d.afterSign.chars ++ (d.user ++ d.behind.chars)))

/-- A complete `CREATE TRIGGER` statement: its body runs to the first `END` with a mark behind it.
Nothing else is said about the body, which may hold semicolons and statements of its own. -/
structure CreateTrigger where
  create : HeadWord "CREATE"
  definer : Option Definer
  trigger : String
  spellsTrigger : eqIgnoreCase trigger "TRIGGER" = true
  body : List Char
  startsApart : ∃ c ∈ body.head?, isWordChar c = false
  endsApart : ∃ c ∈ body.getLast?, isWordChar c = false
  endWord : String
  spellsEnd : eqIgnoreCase endWord "END" = true
  afterEnd : Gap
  mark : TriggerMark
  /-- No other `END` with a mark stands in the body. -/
  noEnd : ∀ u e g v, body = u ++ (e ++ (g ++ v)) → (∀ c ∈ u.getLast?, isWordChar c = false) →
    Spells "END".toList e → (∀ c ∈ g, isSpace c = true) →
      v.head? ≠ some ';' ∧ ¬['$', '$'] <+: v

namespace CreateTrigger

variable (t : CreateTrigger)

/-- The end of the statement, from its `END` on. It is what the pattern looks for while it goes
through the body. -/
def ending : List Char := t.endWord.toList ++ (t.afterEnd.chars ++ t.mark.chars)

/-- The clause for the user, if it is there. -/
def clause : List Char := t.definer.elim [] Definer.chars

/-- The statement up to its mark. -/
def front : List Char :=
  t.create.chars ++ (t.clause ++ (t.trigger.toList ++ (t.body ++
    (t.endWord.toList ++ t.afterEnd.chars))))

/-- The characters of the statement. -/
def chars : List Char := t.front ++ t.mark.chars

/-- The words of the statement spell what they are read as. They may be written in any letter
case. -/
theorem spells : Spells "TRIGGER".toList t.trigger.toList ∧ Spells "END".toList t.endWord.toList :=
  ⟨spells_of_eqIgnoreCase (by decide) t.spellsTrigger,
    spells_of_eqIgnoreCase (by decide) t.spellsEnd⟩

/-- A mark starts with a sign. -/
theorem head?_mark (s : List Char) :
    ∀ c ∈ (t.mark.chars ++ s).head?, isSpace c = false ∧ isWordChar c = false := by
  intro c hc
  cases hmark : t.mark <;> rw [hmark] at hc <;> obtain rfl := Option.some.inj hc <;> decide

/-- So does a mark at the end of a line. -/
theorem head?_mark_append (rest : List Char) :
    ∀ c ∈ ((t.mark.chars ++ ['\n']) ++ rest).head?, isSpace c = false ∧ isWordChar c = false := by
  rw [List.append_assoc]
  exact t.head?_mark _

/-- No letter stands in a mark at the end of a line. -/
theorem isMark : ∀ c ∈ t.mark.chars ++ ['\n'], isWordChar c = false := by
  cases t.mark <;> exact Text.forall_mem_of_all (by decide)

/-- The end of the statement starts with a letter. So neither a mark nor white space in front of it
can go on there. -/
theorem exists_ending_eq : ∃ d rest, t.ending = d :: rest ∧ isWordChar d = true := by
  obtain ⟨⟨d, rest, hend, hletter⟩, -⟩ := exists_of_spells t.spells.2 (by decide) (by decide)
  exact ⟨d, rest ++ (t.afterEnd.chars ++ t.mark.chars), by rw [ending, hend]; rfl, hletter⟩

/-- A mark is read, if it is not followed by a semicolon. Two semicolons are tried before a single
one, and so a single one must not have another one behind it. -/
theorem first_triggerMark (before : Option Char) {rest : List Char}
    (hrest : ∀ c ∈ rest.head?, (c == ';') = false) :
    First triggerMark ⟨before, t.mark.chars ++ rest⟩ () ⟨after before t.mark.chars, rest⟩ := by
  have hread {c : Char} (before : Option Char) (s : List Char) :
      Pattern.char (· == c) ⟨before, c :: s⟩ = [((), ⟨some c, s⟩)] := char_of (by simp) before s
  cases t.mark with
  | semicolon =>
      -- Two semicolons are looked for first, and there is no second one.
      have hfails : Fails (exactly [';', ';']) ⟨before, ';' :: rest⟩ :=
        Fails.bind_right (hread before rest) (Fails.char hrest).bind_left
      refine First.oneOf_tail hfails (First.oneOf_head ?_ _)
      exact (First.of_singleton (hread before rest)).bind (First.pure () _)
  | semicolons =>
      refine First.oneOf_head ?_ _
      exact (First.of_singleton (hread before _)).bind
        ((First.of_singleton (hread _ rest)).bind (First.pure () _))
  | dollars =>
      have hfails {s : List Char} : Fails (exactly (';' :: s)) ⟨before, '$' :: '$' :: rest⟩ :=
        (Fails.char (by simp)).bind_left
      refine First.oneOf_tail hfails (First.oneOf_tail hfails (First.oneOf_head ?_ _))
      exact (First.of_singleton (hread before _)).bind
        ((First.of_singleton (hread _ rest)).bind (First.pure () _))

/-- A mark is read only where one stands. There may be more behind it. -/
theorem mark_of_mem {before : Option Char} {s : List Char} {m : Unit × Place}
    (h : m ∈ triggerMark ⟨before, s⟩) : s.head? = some ';' ∨ ['$', '$'] <+: s := by
  -- A pattern that begins with a character only matches where the character is.
  have hchar {c : Char} {f : Unit → Pattern Unit} {before : Option Char} {s : List Char}
      (h : m ∈ (Pattern.char (· == c) >>= f) ⟨before, s⟩) :
      ∃ r, s = c :: r ∧ m ∈ f () ⟨some c, r⟩ := by
    obtain ⟨n, hn, hm⟩ := List.mem_flatMap.1 h
    obtain ⟨d, r, rfl, hd, rfl⟩ := mem_char hn
    obtain rfl := beq_iff_eq.1 hd
    exact ⟨r, rfl, hm⟩
  obtain ⟨p, hp, hm⟩ := List.mem_flatMap.1 h
  simp only [List.mem_cons, List.not_mem_nil, or_false] at hp
  rcases hp with rfl | rfl | rfl
  · obtain ⟨r, rfl, -⟩ := hchar hm
    exact .inl rfl
  · obtain ⟨r, rfl, -⟩ := hchar hm
    exact .inl rfl
  · obtain ⟨r, rfl, hsecond⟩ := hchar hm
    obtain ⟨r, rfl, -⟩ := hchar hsecond
    exact .inr ⟨r, rfl⟩

/-- The body is not left before its end. An `END` that is found there, with a mark behind it, would
have to lie in the body, and that is excluded. -/
theorem fails_ending_of_body {x y : List Char} (hbody : t.body = x ++ y) (hy : y ≠ [])
    (before : Option Char) (rest : List Char) :
    Fails (do boundary; word "END"; spaces; triggerMark)
      ⟨after before x, y ++ (t.ending ++ rest)⟩ := by
  refine List.eq_nil_iff_forall_not_mem.2 fun m hm => ?_
  obtain ⟨e, v, hv, he, hbefore, -, hm⟩ := mem_boundary_word (by decide) (by decide) hm
  obtain ⟨n, hn, hm⟩ := List.mem_flatMap.1 hm
  obtain ⟨g, z, rfl, hg, rfl⟩ := mem_many hn
  -- The word ends in the body, whose last character is none of a word.
  obtain ⟨y, rfl⟩ : ∃ y', y = e ++ y' := by
    rcases List.append_eq_append_iff.1 hv with ⟨k, rfl, -⟩ | ⟨k, hk, -⟩
    · obtain ⟨c, hc, hword⟩ := t.endsApart
      rw [hbody, List.getLast?_append_of_ne_nil _ hy] at hc
      have hmem : c ∈ y ++ k := List.mem_append_left _ (List.mem_of_mem_getLast? hc)
      rw [he.isWordChar (by decide) c hmem] at hword
      cases hword
    · exact ⟨k, hk⟩
  -- So does the white space behind it, since a letter follows the body.
  obtain ⟨d, ending, hending, hletter⟩ := t.exists_ending_eq
  rw [List.append_assoc] at hv
  have hv' := List.append_cancel_left hv
  obtain ⟨v, rfl⟩ : ∃ v, y = g ++ v := by
    refine exists_of_append_eq hv' hg fun c hc => ?_
    rw [hending] at hc
    obtain rfl := Option.some.inj hc
    exact not_isSpace_of_isWordChar hletter
  rw [List.append_assoc] at hv'
  obtain rfl := List.append_cancel_left hv'
  obtain ⟨hsemicolon, hdollars⟩ := t.noEnd x e g v hbody
    (fun c hc => hbefore c (by rw [after, Option.mem_def.1 hc]; rfl)) he hg
  have hsign : d ≠ ';' ∧ d ≠ '$' := by
    constructor <;>
      · rintro rfl
        exact absurd hletter (by decide)
  -- What is read as the mark stands in the body as well.
  rcases mark_of_mem hm with hmark | ⟨r, hmark⟩
  · cases v with
    | nil => simp [hending, hsign.1] at hmark
    | cons c v => exact hsemicolon hmark
  · rcases v with _ | ⟨c, _ | ⟨c', v⟩⟩
    · simp [hending, Ne.symm hsign.2] at hmark
    · simp [hending, Ne.symm hsign.2] at hmark
    · simp only [List.cons_append, List.nil_append, List.cons.injEq] at hmark
      exact hdollars ⟨v, by rw [← hmark.1, ← hmark.2.1]; rfl⟩

/-- The body is left at its end, and the statement is read to its mark. A letter in front of it
would make it a part of a longer word. -/
theorem first_ending (before : Option Char) {rest : List Char}
    (hbefore : ∀ c ∈ before, isWordChar c = false)
    (hrest : ∀ c ∈ rest.head?, (c == ';') = false) :
    First (do boundary; word "END"; spaces; triggerMark) ⟨before, t.ending ++ rest⟩ ()
      ⟨after before t.ending, rest⟩ := by
  obtain ⟨d, tail, hending, hletter⟩ := t.exists_ending_eq
  have hstart : ∃ c ∈ (t.ending ++ rest).head?, isWordChar c = true :=
    ⟨d, by rw [hending]; rfl, hletter⟩
  refine (First.boundary hbefore hstart).bind ?_
  rw [ending, List.append_assoc, List.append_assoc, after_append, after_append]
  refine (First.word_of_spells t.spells.2 _ _).bind ?_
  refine (First.spaces t.afterEnd.isSpace (fun c hc => (t.head?_mark rest c hc).1) _).bind ?_
  exact t.first_triggerMark _ hrest

/-- The word `TRIGGER` is no white space. -/
theorem head?_trigger (s : List Char) :
    ∀ c ∈ (t.trigger.toList ++ s).head?, isSpace c = false := by
  obtain ⟨⟨d, tail, htrigger, hletter⟩, -⟩ := exists_of_spells t.spells.1 (by decide) (by decide)
  intro c hc
  rw [htrigger] at hc
  obtain rfl := Option.some.inj hc
  exact not_isSpace_of_isWordChar hletter

/-- Nor does the clause for the user start with white space. -/
theorem head?_clause (s : List Char) :
    ∀ c ∈ (t.clause ++ (t.trigger.toList ++ s)).head?, isSpace c = false := by
  rw [clause]
  cases t.definer with
  | none => exact t.head?_trigger s
  | some d =>
      obtain ⟨⟨e, tail, hword, hletter⟩, -⟩ :=
        exists_of_spells (spells_of_eqIgnoreCase (by decide) d.spells) (by decide) (by decide)
      intro c hc
      rw [Option.elim, Definer.chars, hword] at hc
      obtain rfl := Option.some.inj hc
      exact not_isSpace_of_isWordChar hletter

/-- The clause for the user is read where it stands, and missing where it does not. What is found
says only whether it was there, and nothing that follows depends on that. -/
theorem first_clause (before : Option Char) (rest : List Char) : ∃ found, First (optional (do
        word "DEFINER"; spaces; Pattern.char (· == '='); spaces; some1 fun c => !isSpace c
        spaces1))
      ⟨before, t.clause ++ (t.trigger.toList ++ rest)⟩ found
      ⟨after before t.clause, t.trigger.toList ++ rest⟩ := by
  have htrigger := t.head?_trigger rest
  rw [clause]
  cases t.definer with
  -- Without the clause the word `TRIGGER` comes, which is not the word that opens the clause.
  | none =>
      have hclash : clashes "DEFINER".toList t.trigger.toList = true :=
        (clashes_of_eqIgnoreCase (by decide) t.spellsTrigger _).trans (by decide)
      exact ⟨none, First.optional_none (Fails.bind_left (Fails.word hclash before rest))⟩
  | some d =>
      have huser := d.noSpace
      obtain ⟨e, user, heq⟩ := List.exists_cons_of_ne_nil d.nonempty
      have hsign (s : List Char) : ∀ c ∈ ('=' :: s).head?, isSpace c = false := by
        rintro c ⟨⟩
        decide
      have hstart (s : List Char) : ∀ c ∈ (d.user ++ s).head?, isSpace c = false := by
        intro c hc
        rw [heq] at hc
        obtain rfl := Option.some.inj hc
        exact huser e (by simp [heq])
      have hend (s : List Char) : ∀ c ∈ (d.behind.chars ++ s).head?, (!isSpace c) = false := by
        intro c hc
        rw [d.behind.head?_append s c hc]
        rfl
      refine ⟨some (), First.optional ?_⟩
      simp only [Option.elim, Definer.chars, List.append_assoc, List.cons_append, after_append,
        after_cons]
      refine (First.word_of_spells (spells_of_eqIgnoreCase (by decide) d.spells) _ _).bind ?_
      refine (First.spaces d.beforeSign.isSpace (hsign _) _).bind ?_
      refine (First.of_singleton (char_of (by simp) _ _)).bind ?_
      refine (First.spaces d.afterSign.isSpace (hstart _) _).bind ?_
      refine (First.some1 d.nonempty (fun c hc => by simp [huser c hc]) (hend _) _).bind ?_
      exact First.spaces1 d.behind.nonempty d.behind.isSpace htrigger _

/-- **A complete statement is read to its mark**, if no semicolon follows. The body is taken as
short as possible, so that the first `END` with a mark behind it counts. -/
theorem first (before : Option Char) {rest : List Char}
    (hrest : ∀ c ∈ rest.head?, (c == ';') = false) :
    First createTrigger ⟨before, t.chars ++ rest⟩ () ⟨after before t.chars, rest⟩ := by
  have hchars : t.chars ++ rest = t.create.chars ++ (t.clause ++ (t.trigger.toList ++
      (t.body ++ (t.ending ++ rest)))) := by
    simp [chars, front, ending]
  have hstop : after before t.chars = after (after (after (after (after before t.create.chars)
      t.clause) t.trigger.toList) t.body) t.ending := by
    simp [chars, front, ending]
  obtain ⟨found, hclause⟩ :=
    t.first_clause (after before t.create.chars) (t.body ++ (t.ending ++ rest))
  obtain ⟨-, c, hc, hletter⟩ := exists_of_spells t.spells.1 (by decide) (by decide)
  obtain ⟨d, hd, hapart⟩ := t.endsApart
  rw [hchars, hstop]
  refine t.create.first_bind (t.head?_clause _) (hclause.bind ?_)
  refine (First.word_of_spells t.spells.1 _ _).bind ?_
  -- The word ends before the body, and the body ends before the word `END`.
  refine (First.boundary_end ⟨c, ?_, hletter⟩ ?_).bind ?_
  · rw [after, Option.mem_def.1 hc]
    rfl
  · obtain ⟨e, he, hapart⟩ := t.startsApart
    intro e' he'
    rw [List.head?_append, Option.mem_def.1 he] at he'
    obtain rfl := Option.some.inj he'
    exact hapart
  · refine First.fewest_bind _ (fun x y hbody hy => t.fails_ending_of_body hbody hy _ rest) ?_
    refine t.first_ending _ (fun e he => ?_) hrest
    rw [after, Option.mem_def.1 hd] at he
    obtain rfl := Option.some.inj he
    exact hapart

end CreateTrigger

/-! ### Delimiters -/

/-- A `DELIMITER` command, up to the end of its line. The delimiter consists of signs. Letters are
excluded since the word `DELIMITER` could be part of a longer one with them. -/
structure DelimiterLine where
  word : HeadWord "DELIMITER"
  mark : List Char
  nonempty : mark ≠ []
  isMark : ∀ c ∈ mark, isSpace c = false ∧ isWordChar c = false

namespace DelimiterLine

variable (l : DelimiterLine)

/-- The characters of the command. -/
def chars : List Char := l.word.chars ++ l.mark

/-- The mark starts with a sign. -/
theorem head?_mark (s : List Char) :
    ∀ c ∈ (l.mark ++ s).head?, isSpace c = false ∧ isWordChar c = false := by
  obtain ⟨d, rest, hmark⟩ := List.exists_cons_of_ne_nil l.nonempty
  intro c hc
  rw [hmark] at hc
  obtain rfl := Option.some.inj hc
  exact l.isMark d (by simp [hmark])

/-- So does the mark at the end of the line. -/
theorem head?_mark_append (rest : List Char) :
    ∀ c ∈ ((l.mark ++ ['\n']) ++ rest).head?, isSpace c = false ∧ isWordChar c = false := by
  rw [List.append_assoc]
  exact l.head?_mark _

/-- No letter stands in the mark at the end of the line. -/
theorem isMark_append : ∀ c ∈ l.mark ++ ['\n'], isWordChar c = false :=
  List.forall_mem_append.2 ⟨fun c hc => (l.isMark c hc).2, List.forall_mem_singleton.2 (by decide)⟩

end DelimiterLine

/-- What a match of a delimiter line needs: the start of a line, and the word with white space
behind it. The conditions are on the text, so that the command can be ruled out in a text without a
look at the pattern. -/
theorem of_mem_delimiterLine {before : Option Char} {s : List Char} {m : Unit × Place}
    (h : m ∈ delimiterLine ⟨before, s⟩) : (∀ c ∈ before, c = '\n') ∧
      ∃ g w t, s = g ++ (w ++ t) ∧ (∀ c ∈ g, isSpace c = true) ∧ Spells "DELIMITER".toList w ∧
        ∃ c ∈ t.head?, isSpace c = true := by
  obtain ⟨n, hn, hm⟩ := List.mem_flatMap.1 h
  -- The line begins with the text or behind a line break.
  have hstart : (∀ c ∈ before, c = '\n') ∧ n = ((), ⟨before, s⟩) := by
    rw [lineStart] at hn
    split at hn
    · rename_i hline
      refine ⟨fun c hc => ?_, List.mem_singleton.1 hn⟩
      rw [Option.mem_def.1 hc] at hline
      simpa using hline
    · cases hn
  obtain ⟨hline, rfl⟩ := hstart
  obtain ⟨n, hn, hm⟩ := List.mem_flatMap.1 hm
  obtain ⟨g, x, rfl, hg, rfl⟩ := mem_many hn
  obtain ⟨n, hn, hm⟩ := List.mem_flatMap.1 hm
  obtain ⟨w, t, rfl, hw, rfl⟩ := mem_anyCase hn
  obtain ⟨n, hn, hm⟩ := List.mem_flatMap.1 hm
  obtain ⟨r, z, rfl, hne, hr, rfl⟩ := mem_some1 hn
  refine ⟨hline, g, w, r ++ z, rfl, hg, hw, ?_⟩
  obtain ⟨c, r, rfl⟩ := List.exists_cons_of_ne_nil hne
  exact ⟨c, rfl, hr c (by simp)⟩

/-- White space up to the end of a line, or of the text, is read from the end of a line on. The
white space may go on behind the end of the line, over blank lines; how far it does is left open. -/
theorem exists_first_lineEnd (before : Option Char) (s : List Char) :
    ∃ g t, '\n' :: s = g ++ t ∧ (∀ c ∈ g, isSpace c = true) ∧ (t = [] ∨ t.head? = some '\n') ∧
      First (do spaces; lineEnd) ⟨before, '\n' :: s⟩ () ⟨after before g, t⟩ := by
  have hend {before : Option Char} {t : List Char} {m : Unit × Place}
      (h : m ∈ lineEnd ⟨before, t⟩) : m = ((), ⟨before, t⟩) ∧ (t = [] ∨ t.head? = some '\n') := by
    rw [lineEnd] at h
    split at h
    · rename_i hline
      exact ⟨List.mem_singleton.1 h, by simpa using hline⟩
    · cases h
  -- No white space at all is one way to read on, so there is a preferred way.
  have hne : (do spaces; lineEnd : Pattern Unit) ⟨before, '\n' :: s⟩ ≠ [] := by
    refine List.ne_nil_of_mem (a := ((), ⟨before, '\n' :: s⟩)) (List.mem_flatMap.2
      ⟨((), ⟨before, '\n' :: s⟩), ?_, by simp [lineEnd]⟩)
    exact List.mem_map.2 ⟨_, List.mem_reverse.2 (by simp [runEnds]), rfl⟩
  have hfirst := List.head?_eq_some_head hne
  obtain ⟨n, hn, hm⟩ := List.mem_flatMap.1 (List.head_mem hne)
  obtain ⟨g, t, hs, hg, rfl⟩ := mem_many hn
  obtain ⟨hm, ht⟩ := hend hm
  rw [hm] at hfirst
  exact ⟨g, t, hs, hg, ht, hfirst⟩

/-- **A line is read with the white space around it**, from the start of a line up to the end of
one. Blank lines in front belong to it as well, as the pattern reads any white space there. -/
theorem DelimiterLine.exists_first (l : DelimiterLine) {before : Option Char} {g : List Char}
    (hline : ∀ c ∈ before, c = '\n') (hg : ∀ c ∈ g, isSpace c = true) (s : List Char) :
    ∃ r t, '\n' :: s = r ++ t ∧ (∀ c ∈ r, isSpace c = true) ∧ (t = [] ∨ t.head? = some '\n') ∧
      First delimiterLine ⟨before, (g ++ (l.chars ++ r)) ++ t⟩ ()
        ⟨after before (g ++ (l.chars ++ r)), t⟩ := by
  obtain ⟨r, t, hs, hr, ht, hend⟩ :=
    exists_first_lineEnd (after (after (after before g) l.word.chars) l.mark) s
  refine ⟨r, t, hs, hr, ht, ?_⟩
  have htext : (g ++ (l.chars ++ r)) ++ t = g ++ (l.word.chars ++ (l.mark ++ '\n' :: s)) := by
    simp [chars, hs]
  have hstop : after before (g ++ (l.chars ++ r)) =
      after (after (after (after before g) l.word.chars) l.mark) r := by
    simp [chars]
  have hstart (x : List Char) : First lineStart ⟨before, x⟩ () ⟨before, x⟩ := by
    rw [First, lineStart, if_pos]
    · rfl
    · cases before with
      | none => rfl
      | some c => simp [hline c rfl]
  have hmark : ∀ c ∈ ('\n' :: s).head?, (!isSpace c) = false := by
    rintro c ⟨⟩
    decide
  rw [htext, hstop]
  -- The parts in order: the start of the line, the white space, the word, the mark and the end.
  refine (hstart _).bind ((First.spaces hg (l.word.head?_append _) before).bind ?_)
  refine l.word.first_bind (fun c hc => (l.head?_mark _ c hc).1) ?_
  exact (First.some1 l.nonempty (fun c hc => by simp [(l.isMark c hc).1]) hmark _).bind hend

end EntityDiagram.Sql.ClientCommand
