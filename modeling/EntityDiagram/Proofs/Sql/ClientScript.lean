import EntityDiagram.Proofs.Sql.ClientBlock
import EntityDiagram.Proofs.Text.Deletion

/-!
# `EntityDiagram.Proofs.Sql.ClientScript`: deleting complete commands from a script

A script is taken here as statements with fillers between them: white space, and complete commands
that each end their line (`Filler`). The deletions take the commands and leave the statements, with
white space between them: `exists_remaining_partsOf`.

The three passes differ in what they need. The passes over triggers treat each filler by itself,
since their matches are exactly the commands (`reduces_undropped`, `reduces_uncreated`). The line
breaks stay, so a command that is gone has become white space. The pass over delimiters also reads
white space around a command, up to the end of a line, and may so take several fillers at once. Its
induction therefore carries a text that is read up to some point within the white space
(`exists_reduces_delimiterLine`).

What remains to be said is that nothing is taken of a statement (`Unmistaken`). The conditions are
on the text of the statement: none of the heads of the trigger commands stands in it, and none of
its lines starts with the word `DELIMITER`. They cannot be dropped, since the passes know no
quotes and no statements, and a column that is called `delimiter` and stands on a line of its own
is deleted. A statement that mentions none of three words meets them all
(`Unmistaken.of_occursIn`).
-/

set_option autoImplicit false

namespace EntityDiagram.Sql.ClientCommand

open Text (isSpace isWordChar isWordChar_of_isSpace startsPlain Pattern)
open Text.Pattern
open Ddl (Gap)

/-! ### Between statements -/

/-- What may stand between two statements: white space, and complete commands, each at the end of
its line. A command ends its line, so that what follows starts a new one. -/
inductive Filler where
  | space (c : Char) (h : isSpace c = true)
  | drop (d : DropTrigger)
  /-- No trigger is dropped in the body of the one that is created. -/
  | create (t : CreateTrigger) (h : ¬Follows "DROP" "TRIGGER" t.front)
  | delimiter (l : DelimiterLine)

namespace Filler

/-- A line break. -/
def lineBreak : Filler := .space '\n' (by decide)

/-- The characters of a filler. -/
def chars : Filler → List Char
  | .space c _ => [c]
  | .drop d => d.chars ++ ['\n']
  | .create t _ => t.chars ++ ['\n']
  | .delimiter l => l.chars ++ ['\n']

/-- What is left of the filler when no trigger is dropped any more. The line break behind the
command stays. -/
def undropped : Filler → Filler
  | .drop _ => lineBreak
  | i => i

/-- What is left of the filler when no trigger is created any more. The same is left of it. -/
def uncreated : Filler → Filler
  | .create _ _ => lineBreak
  | i => i

/-- No trigger is dropped any more. -/
theorem undropped_ne_drop (i : Filler) (d : DropTrigger) : i.undropped ≠ .drop d := by
  cases i <;> exact Filler.noConfusion

/-- The characters of fillers that follow each other. -/
def textOf (is : List Filler) : List Char := is.flatMap chars

end Filler

open Filler (lineBreak textOf)

/-- The text of a statement, up to its semicolon, in which nothing can be taken for a command. All
of the conditions are on its words and lines, and none is on the patterns. -/
structure Unmistaken (text : List Char) : Prop where
  /-- White space in front belongs to what stands between the statements. -/
  start : ∀ c ∈ text.head?, isSpace c = false
  noDrop : ¬Follows "DROP" "TRIGGER" text
  noCreate : ¬Follows "CREATE" "TRIGGER" text
  noDefiner : ¬Follows "CREATE" "DEFINER" text
  /-- No line of the statement starts with the word `DELIMITER`. -/
  noDelimiter : ∀ u g w t, text = u ++ (g ++ (w ++ t)) → (∀ c ∈ u.getLast?, c = '\n') →
    (∀ c ∈ g, isSpace c = true) → Spells "DELIMITER".toList w → ∀ c ∈ t.head?, isSpace c = false

/-- A statement that mentions neither triggers nor their owners nor delimiters is mistaken for no
command. The test runs, so that it can be decided for a given text. -/
theorem Unmistaken.of_occursIn {text : List Char} (hstart : ∀ c ∈ text.head?, isSpace c = false)
    (h : ∀ w ∈ ["TRIGGER", "DEFINER", "DELIMITER"], (word w).occursIn text = false) :
    Unmistaken text := by
  -- A search tries every place, and so also the one at which the word stands.
  have hnone {w : String} (hw : (word w).occursIn text = false) (u b t : List Char)
      (htext : text = u ++ (b ++ t)) (hb : Spells w.toList b) : False := by
    have hsearch : searchFrom (word w) none text = none :=
      Option.isNone_iff_eq_none.1 (Option.isSome_eq_false_iff.1 hw)
    obtain ⟨before, hnil⟩ := eq_nil_of_searchFrom hsearch ⟨u, htext.symm⟩
    have hfirst := First.word_of_spells hb before t
    rw [First, hnil] at hfirst
    cases hfirst
  have hfollows {w v : String} (hv : (word v).occursIn text = false) : ¬Follows w v text := by
    rintro ⟨u, a, g, b, t, htext, -, -, -, hb⟩
    exact hnone hv (u ++ (a ++ g)) b t (by rw [htext]; simp) hb
  exact
    { start := hstart
      noDrop := hfollows (h _ (by simp))
      noCreate := hfollows (h _ (by simp))
      noDefiner := hfollows (h _ (by simp))
      noDelimiter := fun u g w t htext _ _ hw =>
        (hnone (h _ (by simp)) (u ++ g) w t (by rw [htext]; simp) hw).elim }

example : Unmistaken "CREATE TABLE a (n INT);".toList :=
  .of_occursIn (by simp; decide) (by decide +kernel)

/-- The parts of a script: fillers, and then each statement with the fillers behind it, which start
with a line break. Fillers and statements take turns in it, and the semicolon is part of the
statement. -/
def partsOf : List Filler → List (List Char × List Filler) → List (List Char)
  | is, [] => [textOf is]
  | is, (text, next) :: more => textOf is :: (text ++ [';']) :: partsOf (lineBreak :: next) more

/-- The same statements with other fillers behind them. Passes change what stands between
statements, and this is how such a change is written. -/
def refill (f : Filler → Filler) (sections : List (List Char × List Filler)) :
    List (List Char × List Filler) := sections.map fun s => (s.1, s.2.map f)

/-! ### The passes over triggers -/

section Passes
variable {p : Pattern Unit}

/-- A pattern that starts with a word leaves signs and white space. There is no place in them where
it could match. -/
theorem reduces_signs (hp : ∀ before c s, isWordChar c = false → Fails p ⟨before, c :: s⟩)
    {s : List Char} (hs : ∀ c ∈ s, isWordChar c = false) (before : Option Char)
    (rest : List Char) : Reduces p before s rest s := by
  refine .of_fails fun u v hsplit hv => ?_
  obtain ⟨c, v, rfl⟩ := List.exists_cons_of_ne_nil hv
  exact hp _ c _ (hs c (by simp [hsplit]))

/-- A pass that treats each filler and leaves each statement treats the script. The two passes over
triggers are instances of it, with different conditions on the fillers that they meet. -/
theorem reducesAll_partsOf {f : Filler → Filler} {P : Filler → Prop}
    (hf : f lineBreak = lineBreak) (hbreak : P lineBreak)
    (hfiller : ∀ i, P i → ∀ before rest, Reduces p before i.chars rest (f i).chars)
    (htext : ∀ text, Unmistaken text → ∀ before rest,
      Reduces p before (text ++ [';']) rest (text ++ [';']))
    {is : List Filler} (sections : List (List Char × List Filler)) (his : ∀ i ∈ is, P i)
    (hsections : ∀ s ∈ sections, Unmistaken s.1 ∧ ∀ i ∈ s.2, P i) (before : Option Char) :
    ReducesAll p before (partsOf is sections)
      (partsOf (is.map f) (refill f sections)) := by
  have hfillers {is : List Filler} (his : ∀ i ∈ is, P i) (before : Option Char)
      (rest : List Char) : Reduces p before (textOf is) rest (textOf (is.map f)) := by
    induction is generalizing before with
    | nil => exact .nil
    | cons i is ih =>
        rw [List.forall_mem_cons] at his
        exact (hfiller i his.1 before _).append (ih his.2 _)
  induction sections generalizing is before with
  | nil => exact .cons (hfillers his _ _) .nil
  | cons s sections ih =>
      rw [List.forall_mem_cons] at hsections
      obtain ⟨⟨hmistaken, hnext⟩, hmore⟩ := hsections
      refine .cons (hfillers his _ _) (.cons (htext _ hmistaken _ _) ?_)
      -- The statement ends at its semicolon, so that the line break behind it is a filler again.
      have hnext : ∀ i ∈ lineBreak :: s.2, P i := List.forall_mem_cons.2 ⟨hbreak, hnext⟩
      have hrest := ih hnext hmore (after (after before (textOf is)) (s.1 ++ [';']))
      rwa [List.map_cons, hf] at hrest

end Passes

/-- Where no word starts, no trigger is dropped or created. White space, semicolons and line breaks
are such places. -/
theorem fails_trigger (before : Option Char) {c : Char} (s : List Char)
    (hc : isWordChar c = false) :
    Fails dropTrigger ⟨before, c :: s⟩ ∧ Fails createTrigger ⟨before, c :: s⟩ := by
  have hword {w : String} (hw : w.toList.all startsPlain = true) (hne : w.toList ≠ []) :
      Fails (word w) ⟨before, c :: s⟩ := by
    refine Fails.word_of_head hw hne (fun d hd => ?_) before
    obtain rfl := Option.some.inj hd
    exact hc
  exact ⟨(hword (by decide) (by decide)).bind_left, (hword (by decide) (by decide)).bind_left⟩

/-- The pass over dropped triggers leaves a text that drops none. -/
theorem reduces_dropTrigger {s rest : List Char} (h : ¬Follows "DROP" "TRIGGER" s)
    (hrest : ∀ c ∈ rest.head?, isSpace c = false ∧ isWordChar c = false) (before : Option Char) :
    Reduces dropTrigger before s rest s := .of_fails fun _ _ hs _ =>
  fails_of_not_follows (by decide) (by decide) h hrest _ hs _

/-- The pass over created triggers leaves a text that creates none. The second word may be that of
the clause for the user, and both are excluded. -/
theorem reduces_createTrigger {s rest : List Char} (h : ¬Follows "CREATE" "TRIGGER" s)
    (hdefiner : ¬Follows "CREATE" "DEFINER" s)
    (hrest : ∀ c ∈ rest.head?, isSpace c = false ∧ isWordChar c = false) (before : Option Char) :
    Reduces createTrigger before s rest s := by
  refine .of_fails fun u v hs _ => Fails.bind fun m hm => Fails.bind fun n hn => ?_
  have hfails {w : String} (hw : w.toList.all startsPlain = true) (h : ¬Follows "CREATE" w s)
      (f : Unit → Pattern Unit) : Fails (word w >>= f) n.2 := by
    have hall := fails_of_not_follows (by decide) hw h hrest f hs (after before u)
    exact List.flatMap_eq_nil_iff.1 (List.flatMap_eq_nil_iff.1 hall m hm) n hn
  -- Behind the word `CREATE` stands neither the clause for the user nor the word `TRIGGER`.
  refine Fails.optional_bind (Fails.bind_assoc ?_) (hfails (by decide) h _)
  exact hfails (by decide) hdefiner _

/-- The pass over dropped triggers takes the statements that drop one, and nothing else. A trigger
that is created is left, as its body drops none. -/
theorem reduces_undropped (i : Filler) (before : Option Char) (rest : List Char) :
    Reduces dropTrigger before i.chars rest i.undropped.chars := by
  have hsigns {s : List Char} (hs : ∀ c ∈ s, isWordChar c = false) (before : Option Char) :
      Reduces dropTrigger before s rest s :=
    reduces_signs (fun before c s hc => (fails_trigger before s hc).1) hs before rest
  have hbreak : ∀ c ∈ ['\n'], isWordChar c = false :=
    List.forall_mem_singleton.2 (by decide)
  -- Each kind of filler ends with signs or white space, where nothing matches.
  cases i with
  | space c h => exact hsigns (List.forall_mem_singleton.2 (isWordChar_of_isSpace h)) before
  | drop d =>
      have hgone : Reduces dropTrigger before d.chars (['\n'] ++ rest) [] :=
        .of_first (d.first before (by simp))
      exact hgone.append (hsigns hbreak _)
  | create t h =>
      show Reduces dropTrigger before (t.chars ++ ['\n']) rest (t.chars ++ ['\n'])
      rw [CreateTrigger.chars, List.append_assoc]
      exact (reduces_dropTrigger h (t.head?_mark_append rest) before).append (hsigns t.isMark _)
  | delimiter l =>
      show Reduces dropTrigger before (l.chars ++ ['\n']) rest (l.chars ++ ['\n'])
      rw [DelimiterLine.chars, List.append_assoc]
      exact (reduces_dropTrigger (not_follows_headWord l.word (by decide) (by decide))
        (l.head?_mark_append rest) before).append (hsigns l.isMark_append _)

/-- The pass over created triggers takes the statements that create one, and nothing else. Dropped
triggers are gone by then. -/
theorem reduces_uncreated (i : Filler) (hi : ∀ d, i ≠ .drop d) (before : Option Char)
    (rest : List Char) : Reduces createTrigger before i.chars rest i.uncreated.chars := by
  have hsigns {s : List Char} (hs : ∀ c ∈ s, isWordChar c = false) (before : Option Char) :
      Reduces createTrigger before s rest s :=
    reduces_signs (fun before c s hc => (fails_trigger before s hc).2) hs before rest
  have hbreak : ∀ c ∈ ['\n'], isWordChar c = false :=
    List.forall_mem_singleton.2 (by decide)
  cases i with
  | space c h => exact hsigns (List.forall_mem_singleton.2 (isWordChar_of_isSpace h)) before
  | drop d => exact absurd rfl (hi d)
  | create t h =>
      have hgone : Reduces createTrigger before t.chars (['\n'] ++ rest) [] :=
        .of_first (t.first before (by simp))
      exact hgone.append (hsigns hbreak _)
  | delimiter l =>
      show Reduces createTrigger before (l.chars ++ ['\n']) rest (l.chars ++ ['\n'])
      rw [DelimiterLine.chars, List.append_assoc]
      -- The word of a `DELIMITER` line is not `CREATE`, so it opens no trigger.
      have hnot {w : String} (hw : w.toList.all startsPlain = true) (hne : w.toList ≠ []) :
          ¬Follows "CREATE" w l.word.chars := not_follows_headWord l.word hw hne
      exact (reduces_createTrigger (hnot (by decide) (by decide)) (hnot (by decide) (by decide))
        (l.head?_mark_append rest) before).append (hsigns l.isMark_append _)

/-- Neither pass over triggers takes anything of a statement. -/
theorem Unmistaken.reduces_trigger {text : List Char} (h : Unmistaken text) (before : Option Char)
    (rest : List Char) : Reduces dropTrigger before (text ++ [';']) rest (text ++ [';']) ∧
      Reduces createTrigger before (text ++ [';']) rest (text ++ [';']) := by
  have hend : ∀ c ∈ ([';'] ++ rest).head?, isSpace c = false ∧ isWordChar c = false := by
    rintro c ⟨⟩
    decide
  have hsign : ∀ c ∈ [';'], isWordChar c = false := List.forall_mem_singleton.2 (by decide)
  exact ⟨(reduces_dropTrigger h.noDrop hend before).append
      (reduces_signs (fun before c s hc => (fails_trigger before s hc).1) hsign _ rest),
    (reduces_createTrigger h.noCreate h.noDefiner hend before).append
      (reduces_signs (fun before c s hc => (fails_trigger before s hc).2) hsign _ rest)⟩

/-! ### The pass over delimiters -/

/-- What may follow white space without being taken for a delimiter line that starts there. It
neither starts with more white space nor with the word and white space behind it. -/
structure Bars (rest : List Char) : Prop where
  start : ∀ c ∈ rest.head?, isSpace c = false
  noDelimiter : ∀ w t, rest = w ++ t → Spells "DELIMITER".toList w →
    ∀ c ∈ t.head?, isSpace c = false

/-- The end of a script bars. -/
theorem Bars.nil : Bars [] where
  start := by simp
  noDelimiter w t h _ := by
    obtain ⟨rfl, rfl⟩ := List.append_eq_nil_iff.1 h.symm
    simp

/-- No delimiter line is read in a text of a statement. The word cannot go on behind the semicolon,
so it would have to stand in the text as a whole. -/
theorem Unmistaken.not_mem_delimiterLine {text : List Char} (h : Unmistaken text) {u v : List Char}
    (hs : text = u ++ v) (rest : List Char) {g w t : List Char} (hu : ∀ c ∈ u.getLast?, c = '\n')
    (htext : v ++ ';' :: rest = g ++ (w ++ t)) (hg : ∀ c ∈ g, isSpace c = true)
    (hw : Spells "DELIMITER".toList w) : ∀ c ∈ t.head?, isSpace c = false := by
  have hletters := hw.isWordChar (by decide)
  -- The white space and the word end in front of the semicolon.
  obtain ⟨x, rfl⟩ : ∃ x, v = g ++ x :=
    exists_of_append_eq htext hg (by simp [show isSpace ';' = false by decide])
  rw [List.append_assoc] at htext
  have hrest := List.append_cancel_left htext
  obtain ⟨y, rfl⟩ : ∃ y, x = w ++ y :=
    exists_of_append_eq hrest hletters (by simp [show isWordChar ';' = false by decide])
  rw [List.append_assoc] at hrest
  obtain rfl := List.append_cancel_left hrest
  intro c hc
  cases y with
  | nil =>
      obtain rfl := Option.some.inj hc
      decide
  | cons d y => exact h.noDelimiter u g w (d :: y) hs hu hg hw c hc

/-- A statement bars. -/
theorem Unmistaken.bars {text : List Char} (h : Unmistaken text) (rest : List Char) :
    Bars (text ++ ';' :: rest) where
  start := by
    intro c hc
    cases text with
    | nil =>
        obtain rfl := Option.some.inj hc
        decide
    | cons d text => exact h.start c hc
  noDelimiter w t htext hw := h.not_mem_delimiterLine (u := []) (g := []) rfl rest (by simp) htext
    (by simp) hw

/-- The pass over delimiters takes nothing of a statement. A line of it could only be taken from its
start. -/
theorem Unmistaken.reduces_delimiterLine {text : List Char} (h : Unmistaken text)
    (before : Option Char) (rest : List Char) :
    Reduces delimiterLine before (text ++ [';']) rest (text ++ [';']) := by
  refine .of_fails fun u v hs hv => List.eq_nil_iff_forall_not_mem.2 fun m hm => ?_
  obtain ⟨hline, g, w, t, htext, hg, hw, c, hc, hspace⟩ := of_mem_delimiterLine hm
  have hu : ∀ c ∈ u.getLast?, c = '\n' := fun c hc =>
    hline c (by rw [after, Option.mem_def.1 hc]; rfl)
  -- The last part is the semicolon alone, or a part of the text in front of it.
  obtain ⟨v, rfl⟩ : ∃ v', v = v' ++ [';'] := by
    obtain ⟨v', d, rfl⟩ := (List.eq_nil_or_concat' v).resolve_left hv
    rw [← List.append_assoc] at hs
    obtain ⟨-, hd⟩ := List.append_inj' hs rfl
    exact ⟨v', by rw [hd]⟩
  rw [← List.append_assoc] at hs
  obtain ⟨hs, -⟩ := List.append_inj' hs rfl
  rw [List.append_assoc] at htext
  rw [h.not_mem_delimiterLine hs rest hu htext hg hw c hc] at hspace
  cases hspace

/-- The pass over delimiters takes nothing of white space in front of what bars. Some of it might be
the front of a line, but no word follows. -/
theorem reduces_spaces {g rest : List Char} (hg : ∀ c ∈ g, isSpace c = true) (h : Bars rest)
    (before : Option Char) : Reduces delimiterLine before g rest g := by
  refine .of_fails fun u v hs hv => List.eq_nil_iff_forall_not_mem.2 fun m hm => ?_
  obtain ⟨-, g', w, t, htext, hg', hw, c, hc, hspace⟩ := of_mem_delimiterLine hm
  obtain ⟨⟨d, w', rfl, hletter⟩, -⟩ := exists_of_spells hw (by decide) (by decide)
  have hv' : ∀ c ∈ v, isSpace c = true := fun c hc => hg c (by simp [hs, hc])
  have hd := not_isSpace_of_isWordChar hletter
  -- All of the white space is read, so the word is the first of the rest.
  rcases eq_of_run_append htext hv' hg' h.start with ⟨rfl, hrest⟩ | ⟨e, v', he, hspace'⟩
  · rw [h.noDelimiter _ t hrest.symm hw c hc] at hspace
    cases hspace
  · obtain ⟨rfl, -⟩ := List.cons.inj he
    rw [hd] at hspace'
    cases hspace'

/-- From the start of a line on, a command is read with the white space around it, and with some of
what stands behind its line. If what is not read of that is reduced to white space, so is all of it.
That a match may swallow white space behind the line is the reason why the next filler may have lost
its front. -/
theorem DelimiterLine.exists_reduces (l : DelimiterLine) {rest : List Char} (hrest : Bars rest)
    {before : Option Char} (hstart : ∀ c ∈ before, c = '\n') {g : List Char}
    (hg : ∀ c ∈ g, isSpace c = true) {s : List Char}
    (hnext : ∀ r t before, '\n' :: s = r ++ t → (∀ c ∈ r, isSpace c = true) →
      (t = [] ∨ t.head? = some '\n') →
        ∃ left, (∀ c ∈ left, isSpace c = true) ∧ Reduces delimiterLine before t rest left) :
    ∃ left, (∀ c ∈ left, isSpace c = true) ∧
      Reduces delimiterLine before (g ++ (l.chars ++ '\n' :: s)) rest left := by
  obtain ⟨r, t', hs, hr, ht', hfirst⟩ := l.exists_first hstart hg (s ++ rest)
  -- The match ends in front of the rest, which does not start with white space.
  obtain ⟨t, ht⟩ : ∃ t, '\n' :: s = r ++ t :=
    exists_of_append_eq (y := t') (by rw [← hs]; rfl) hr hrest.start
  obtain rfl : t' = t ++ rest := by
    rw [← List.cons_append, ht, List.append_assoc] at hs
    exact (List.append_cancel_left hs).symm
  have hline : t = [] ∨ t.head? = some '\n' := by
    cases t with
    | nil => exact .inl rfl
    | cons c t => simpa using ht'
  obtain ⟨left, hleft, hreduces⟩ := hnext r t (after before (g ++ (l.chars ++ r))) ht hr hline
  refine ⟨left, hleft, ?_⟩
  rw [ht, ← List.append_assoc l.chars, ← List.append_assoc g]
  exact (Reduces.of_first hfirst).append hreduces

/-- Whether the filler is left when no trigger is dropped or created any more. It is white space or
a delimiter line then. -/
def Filler.Untriggered (i : Filler) : Prop := (∀ d, i ≠ .drop d) ∧ ∀ t h, i ≠ .create t h

/-- No trigger is dropped or created any more. -/
theorem Filler.untriggered_uncreated (i : Filler) : i.undropped.uncreated.Untriggered := by
  constructor <;>
    · intros
      cases i <;> exact Filler.noConfusion

/-- What stands between two statements is reduced to white space, if it starts at the start of a
line or with the end of one. Some of its white space may have been read before, as part of a line in
front. Here `w` is white space that has been passed, `u` is what was read of it and of the fillers,
and `t` is what is left to read. -/
theorem exists_reduces_delimiterLine {is : List Filler} (his : ∀ i ∈ is, i.Untriggered)
    {rest : List Char} (hrest : Bars rest) {w u t : List Char} (hw : ∀ c ∈ w, isSpace c = true)
    (hu : ∀ c ∈ u, isSpace c = true) (htext : u ++ t = w ++ textOf is) (before : Option Char)
    (hline : (∀ c ∈ before, c = '\n') ∨ t = [] ∨ t.head? = some '\n') :
    ∃ left, (∀ c ∈ left, isSpace c = true) ∧ Reduces delimiterLine before t rest left := by
  induction is generalizing w u t before with
  | nil =>
      refine ⟨t, fun c hc => hw c ?_, reduces_spaces (fun c hc => hw c ?_) hrest before⟩ <;>
        · rw [textOf, List.flatMap_nil, List.append_nil] at htext
          simp [← htext, hc]
  | cons i is ih =>
      rw [List.forall_mem_cons] at his
      rw [textOf, List.flatMap_cons] at htext
      cases i with
      | space c h =>
          refine ih his.2 (w := w ++ [c]) (fun d hd => ?_) hu
            (by rw [htext]; simp [textOf, Filler.chars]) before hline
          rcases List.mem_append.1 hd with hd | hd
          · exact hw d hd
          · rwa [List.mem_singleton.1 hd]
      | drop d => exact absurd rfl (his.1.1 d)
      | create t h => exact absurd rfl (his.1.2 t h)
      | delimiter l =>
          -- From the start of a line on, the command is taken, and the induction goes on behind it.
          have hread {before : Option Char} {g : List Char} (hstart : ∀ c ∈ before, c = '\n')
              (hg : ∀ c ∈ g, isSpace c = true) :=
            l.exists_reduces hrest hstart hg fun r t before ht hr hline =>
              ih his.2 (w := ['\n']) (List.forall_mem_singleton.2 (by decide)) hr ht.symm before
                (.inr hline)
          have hchars (x : List Char) : ∀ c ∈ (l.chars ++ x).head?, isSpace c = false := by
            rw [DelimiterLine.chars, List.append_assoc]
            exact l.word.head?_append _
          have htext' : w ++ (l.chars ++ '\n' :: textOf is) = u ++ t := by
            rw [htext]
            simp [Filler.chars, textOf]
          obtain ⟨g, rfl⟩ := exists_of_append_eq htext' hu (hchars _)
          rw [List.append_assoc] at htext'
          obtain rfl := List.append_cancel_left htext'
          have hg : ∀ c ∈ g, isSpace c = true := fun c hc => hw c (by simp [hc])
          by_cases hstart : ∀ c ∈ before, c = '\n'
          · exact hread hstart hg
          · -- A line ends here, and the next one starts behind the line break, which stays.
            have hbreak := (hline.resolve_left hstart).resolve_left (by simp)
            obtain ⟨g, rfl⟩ : ∃ g', g = '\n' :: g' := by
              cases g with
              | nil => exact absurd (hchars _ '\n' hbreak) (by decide)
              | cons c g =>
                  obtain rfl := Option.some.inj hbreak
                  exact ⟨g, rfl⟩
            have hstarts : ∀ c ∈ some '\n', c = '\n' := by simp
            obtain ⟨left, hleft, hreduces⟩ := hread hstarts
              (fun c hc => hg c (List.mem_cons_of_mem _ hc))
            refine ⟨'\n' :: left, List.forall_mem_cons.2 ⟨by decide, hleft⟩, .cons ?_ hreduces⟩
            refine List.eq_nil_iff_forall_not_mem.2 fun m hm => hstart ?_
            exact (of_mem_delimiterLine hm).1

/-! ### Scripts -/

/-- The parts of a script of statements with white space between them. It has the same shape as
`partsOf`, so that the two can be compared part by part. -/
def spacedParts : Gap → List (List Char × Gap) → List (List Char)
  | g, [] => [g.chars]
  | g, (text, next) :: more => g.chars :: (text ++ [';']) :: spacedParts next more

/-- The pass over delimiters leaves the statements and white space between them, where no trigger is
dropped or created any more. How much white space is left depends on where blank lines stand, and is
not said. -/
theorem exists_reducesAll_delimiterLine {is : List Filler}
    (sections : List (List Char × List Filler)) (his : ∀ i ∈ is, i.Untriggered)
    (hsections : ∀ s ∈ sections, Unmistaken s.1 ∧ ∀ i ∈ s.2, i.Untriggered)
    (before : Option Char)
    (hline : (∀ c ∈ before, c = '\n') ∨ (textOf is).head? = some '\n') :
    ∃ g left, left.map Prod.fst = sections.map Prod.fst ∧
      ReducesAll delimiterLine before (partsOf is sections) (spacedParts g left) := by
  induction sections generalizing is before with
  | nil =>
      obtain ⟨left, hleft, hreduces⟩ := exists_reduces_delimiterLine his .nil (w := []) (u := [])
        (by simp) (by simp) rfl before (hline.imp_right .inr)
      exact ⟨⟨left, hleft⟩, [], rfl, .cons hreduces .nil⟩
  | cons s sections ih =>
      rw [List.forall_mem_cons] at hsections
      obtain ⟨⟨hmistaken, hnext⟩, hmore⟩ := hsections
      -- Behind the fillers begins a statement, which is not mistaken for a `DELIMITER` line.
      have hbars : Bars (((s.1 ++ [';']) :: partsOf (lineBreak :: s.2) sections).flatten) := by
        rw [List.flatten_cons, List.append_assoc]
        exact hmistaken.bars _
      obtain ⟨gap, hgap, hreduces⟩ := exists_reduces_delimiterLine his hbars (w := []) (u := [])
        (by simp) (by simp) rfl before (hline.imp_right .inr)
      have hbreak : (lineBreak : Filler).Untriggered := by
        constructor <;>
          · intros
            exact Filler.noConfusion
      obtain ⟨g, left, hleft, hall⟩ := ih (List.forall_mem_cons.2 ⟨hbreak, hnext⟩) hmore
        (after (after before (textOf is)) (s.1 ++ [';'])) (.inr rfl)
      refine ⟨⟨gap, hgap⟩, (s.1, g) :: left, by rw [List.map_cons, hleft, List.map_cons], ?_⟩
      exact .cons hreduces (.cons (hmistaken.reduces_delimiterLine _ _) hall)

/-- **The deletions take the commands and leave the statements.** Of a script whose statements can
be taken for no command, and between whose statements there are complete commands and white space,
the statements are left as they are and white space between them. No condition is put on the order
of the commands, or on how many of them stand between two statements. -/
theorem exists_remaining_partsOf (front : List Filler) {sections : List (List Char × List Filler)}
    (h : ∀ s ∈ sections, Unmistaken s.1) :
    ∃ g left, left.map Prod.fst = sections.map Prod.fst ∧
      remaining (partsOf front sections) = spacedParts g left := by
  have hbreak (d : DropTrigger) : lineBreak ≠ .drop d := Filler.noConfusion
  have hmap {f : Filler → Filler} {P : Filler → Prop} (hf : ∀ i, P (f i)) (is : List Filler) :
      ∀ i ∈ is.map f, P i := List.forall_mem_map.2 fun i _ => hf i
  -- First the triggers that are dropped are taken, then those that are created.
  have hdrop : leave (dropTrigger.kept (partsOf front sections).flatten) (partsOf front sections) =
      partsOf (front.map Filler.undropped) (refill Filler.undropped sections) :=
    (reducesAll_partsOf (P := fun _ => True) rfl trivial
      (fun i _ before rest => reduces_undropped i before rest)
      (fun text h before rest => (h.reduces_trigger before rest).1) sections (fun i _ => trivial)
      (fun s hs => ⟨h s hs, fun i _ => trivial⟩) none).leave_eq advances_dropTrigger.2
  have hcreate := (reducesAll_partsOf (P := fun i => ∀ d, i ≠ .drop d) rfl hbreak
    reduces_uncreated (fun text h before rest => (h.reduces_trigger before rest).2)
    (refill Filler.undropped sections) (hmap Filler.undropped_ne_drop front)
    (List.forall_mem_map.2 fun s hs => ⟨h s hs, hmap Filler.undropped_ne_drop s.2⟩)
    none).leave_eq advances_createTrigger.2
  -- What is left between the statements then is white space and delimiter lines.
  have huntriggered (is : List Filler) :
      ∀ i ∈ (is.map Filler.undropped).map Filler.uncreated, i.Untriggered := by
    rw [List.map_map]
    exact hmap Filler.untriggered_uncreated is
  obtain ⟨g, left, hleft, hdelimiter⟩ := exists_reducesAll_delimiterLine
    (refill Filler.uncreated (refill Filler.undropped sections))
    (huntriggered front)
    (List.forall_mem_map.2 (List.forall_mem_map.2 fun s hs => ⟨h s hs, huntriggered s.2⟩))
    none (.inl (by simp))
  refine ⟨g, left, by rw [hleft]; simp [refill, Function.comp_def], ?_⟩
  rw [remaining, deletions, List.foldl_cons, hdrop, List.foldl_cons, hcreate, List.foldl_cons,
    hdelimiter.leave_eq advances_delimiterLine.2, List.foldl_nil]

end EntityDiagram.Sql.ClientCommand
