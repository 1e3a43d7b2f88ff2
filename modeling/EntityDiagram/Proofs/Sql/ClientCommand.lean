import EntityDiagram.Proofs.Text.Replacement
import EntityDiagram.Sql.ClientCommand
import Mathlib.Data.List.TakeWhile

/-!
# `EntityDiagram.Proofs.Sql.ClientCommand`: the passes that remove client commands

`remove` makes five passes over a script. The first three delete, `remaining` says what they leave
of each piece of a script, and the last two tidy up:

* `remove_flatten`: a script without client commands is what is left of its pieces, tidied.
* `thinned_tidy`: tidying goes through a text from the left, keeps the first character of a run of
  semicolons or of blank lines and drops the next ones. `Thinned` is that description.
-/

set_option autoImplicit false

namespace EntityDiagram.Sql.ClientCommand

open Text (Place Pattern isSpace)
open Text.Pattern

/-! ### Deletions -/

/-- A `DROP TRIGGER` statement starts with a word. Whatever follows it goes forward, so that the
word is enough to consume something. -/
theorem advances_dropTrigger : Forward dropTrigger ∧ Consuming dropTrigger :=
  forward_and_consuming (by decide) fun _ => .bind .spaces1 fun _ => .bind (.word _) fun _ =>
    .bind .spaces1 fun _ =>
      .bind (.optional ((Forward.word _).bind fun _ => .bind .spaces1 fun _ =>
        .bind (.word _) fun _ => .spaces1)) fun _ =>
      .bind (.some1 _) fun _ => .bind .spaces fun _ => .some1 _

/-- The clause for the user who owns a trigger, if it is there. -/
theorem forward_definer : Forward (optional (do
    word "DEFINER"; spaces; Pattern.char (· == '='); spaces; some1 fun c => !isSpace c
    spaces1)) :=
  .optional ((Forward.word _).bind fun _ => .bind .spaces fun _ => .bind (.char _) fun _ =>
    .bind .spaces fun _ => .bind (.some1 _) fun _ => .spaces1)

/-- The mark behind the `END` of a trigger is one of three texts. -/
theorem forward_triggerMark : Forward triggerMark := by
  refine .oneOf fun p hp => ?_
  simp only [List.mem_cons, List.not_mem_nil, or_false] at hp
  rcases hp with rfl | rfl | rfl <;> exact .exactly _

/-- A `CREATE TRIGGER` statement starts with a word. -/
theorem advances_createTrigger : Forward createTrigger ∧ Consuming createTrigger :=
  forward_and_consuming (by decide) fun _ => .bind .spaces1 fun _ => .bind forward_definer fun _ =>
    .bind (.word _) fun _ => .bind .boundary fun _ => .bind (.fewest _) fun _ =>
    .bind .boundary fun _ => .bind (.word _) fun _ => .bind .spaces fun _ => forward_triggerMark

/-- A delimiter line may start with white space, and then comes a word. The white space alone would
not consume anything. -/
theorem advances_delimiterLine : Forward delimiterLine ∧ Consuming delimiterLine := by
  have hword := forward_and_consuming (w := "DELIMITER") (by decide) fun _ =>
    Forward.spaces1.bind fun _ => .bind (.some1 fun c => !isSpace c) fun _ =>
      .bind .spaces fun _ => .lineEnd
  exact ⟨Forward.lineStart.bind fun _ => .bind .spaces fun _ => hword.1,
    .bind_right .lineStart fun _ => .bind_right .spaces fun _ => hword.2⟩

/-- The patterns of what is deleted, in the order of the passes. -/
def deletions : List (Pattern Unit) := [dropTrigger, createTrigger, delimiterLine]

/-- What the deletions leave of each of the pieces of a script. The pieces are any division of the
script, and stay in their order; a piece may lose all of its characters. -/
def remaining (pieces : List (List Char)) : List (List Char) :=
  deletions.foldl (fun pieces p => leave (p.kept pieces.flatten) pieces) pieces

/-- A `DROP TRIGGER` statement holds the word `TRIGGER`. -/
theorem needs_dropTrigger : Needs "TRIGGER" dropTrigger :=
  .bind_right (.word _) fun _ => .bind_right .spaces1 fun _ => (Needs.word _).bind_left _

/-- So does a `CREATE TRIGGER` statement, behind the clause for the user. The clause may be missing,
and what it holds is not looked at. -/
theorem needs_createTrigger : Needs "TRIGGER" createTrigger :=
  .bind_right (.word _) fun _ => .bind_right .spaces1 fun _ => .bind_right forward_definer fun _ =>
    (Needs.word _).bind_left _

/-- A delimiter line holds the word `DELIMITER`. -/
theorem needs_delimiterLine : Needs "DELIMITER" delimiterLine :=
  .bind_right .lineStart fun _ => .bind_right .spaces fun _ => (Needs.word _).bind_left _

/-- Nothing is deleted from a script that mentions neither triggers nor delimiters. The words may
not occur in any letter case, not even inside other words. -/
theorem remaining_eq_self {pieces : List (List Char)}
    (htrigger : (word "TRIGGER").occursIn pieces.flatten = false)
    (hdelimiter : (word "DELIMITER").occursIn pieces.flatten = false) :
    remaining pieces = pieces := by
  have hleave {w : String} {p : Pattern Unit} (hp : Needs w p)
      (hw : (word w).occursIn pieces.flatten = false) :
      leave (p.kept pieces.flatten) pieces = pieces := by
    rw [kept_of_needs hp hw, leave_map_true]
  rw [remaining, deletions, List.foldl_cons, hleave needs_dropTrigger htrigger, List.foldl_cons,
    hleave needs_createTrigger htrigger, List.foldl_cons, hleave needs_delimiterLine hdelimiter,
    List.foldl_nil]

/-- The script with runs of semicolons and of blank lines shortened. Only such runs are touched, and
never removed as a whole. -/
def tidy (sql : List Char) : List Char :=
  blankLines.replaceAll ['\n', '\n'] ((exactly [';', ';']).replaceAll [';'] sql)

/-- A script without client commands is what is left of its pieces, tidied. How the script is
divided makes no difference to that. -/
theorem remove_flatten (pieces : List (List Char)) :
    remove pieces.flatten = tidy (remaining pieces).flatten := by
  -- Each pass deletes from the pieces what it deletes from the whole.
  have hleave {p : Pattern Unit} (hp : Forward p) (pieces : List (List Char)) :
      (leave (p.kept pieces.flatten) pieces).flatten = p.replaceAll [] pieces.flatten := by
    rw [flatten_leave, select_kept hp]
  rw [remaining, deletions, List.foldl_cons, List.foldl_cons, List.foldl_cons, List.foldl_nil,
    hleave advances_delimiterLine.1, hleave advances_createTrigger.1, hleave advances_dropTrigger.1]
  rfl

/-! ### Runs -/

/-- What follows a blank line, if one comes first. A line is blank if there are only blanks in
it. -/
def afterBlankLine? (s : List Char) : Option (List Char) :=
  match s.dropWhile isBlankChar with
  | '\n' :: rest => some rest
  | _ => none

/-- Whether two semicolons come first. -/
def startsSemicolons (s : List Char) : Bool := [';', ';'].isPrefixOf s

/-- Whether a line break with two blank lines after it comes first. Two blank lines are what three
line breaks in a row make, with blanks between them. -/
def startsBlankLines : List Char → Bool
  | '\n' :: rest => ((afterBlankLine? rest).bind afterBlankLine?).isSome
  | _ => false

/-- What is shortened: where a run starts, and which characters are dropped from a run that starts
with a given one. Both kinds of runs are shortened by the same rule, so facts about them are proved
once. -/
structure Runs where
  starts : List Char → Bool
  drops : Char → Char → Bool

/-- Doubled semicolons. -/
def semicolonRuns : Runs := ⟨startsSemicolons, fun first c => first == ';' && c == ';'⟩

/-- Blank lines. -/
def blankRuns : Runs :=
  ⟨startsBlankLines, fun first c => first == '\n' && (isBlankChar c || c == '\n')⟩

/-- The runs that tidying shortens. -/
def runs : Runs where
  starts s := semicolonRuns.starts s || blankRuns.starts s
  drops first c := semicolonRuns.drops first c || blankRuns.drops first c

/-- The text `s'` is `s` with runs shortened: the character at which a run starts is kept, and some
characters after it are dropped. The first argument is what has to be dropped at the front. It says
what tidying may do, and no more: nothing is dropped but characters behind the start of a run. -/
inductive Thinned (k : Runs) : List Char → List Char → List Char → Prop where
  | done : Thinned k [] [] []
  | keep {c : Char} {x s s' : List Char} (h : k.starts (c :: s) = !x.isEmpty)
      (hx : ∀ d ∈ x, k.drops c d = true) (hs : Thinned k x s s') :
      Thinned k [] (c :: s) (c :: s')
  | drop {first c : Char} {x s s' : List Char} (h : ∀ d ∈ c :: x, k.drops first d = true)
      (hs : Thinned k x s s') : Thinned k (c :: x) (c :: s) s'

/-- Where no run starts, a character is kept and nothing is dropped after it. -/
theorem Thinned.keep_nil {k : Runs} {c : Char} {s s' : List Char} (h : k.starts (c :: s) = false)
    (hs : Thinned k [] s s') : Thinned k [] (c :: s) (c :: s') :=
  .keep (x := []) h (by simp) hs

/-- Several characters are dropped. They are the ones that had to be dropped. -/
theorem Thinned.drop_append {k : Runs} {first : Char} {x s s' : List Char}
    (hx : ∀ c ∈ x, k.drops first c = true) (hs : Thinned k [] s s') :
    Thinned k x (x ++ s) s' := by
  induction x with
  | nil => exact hs
  | cons c x ih => exact .drop hx (ih fun d hd => hx d (List.mem_cons_of_mem c hd))

/-! ### Doubled semicolons -/

/-- Two semicolons match where they come first. -/
theorem exactly_semicolons (before : Option Char) (s : List Char) :
    exactly [';', ';'] ⟨before, s⟩ =
      if startsSemicolons s then [((), ⟨some ';', s.tail.tail⟩)] else [] := by
  show (Pattern.char (· == ';') ⟨before, s⟩).flatMap (fun m =>
    (Pattern.char (· == ';') m.2).flatMap fun n => [((), n.2)]) = _
  match s with
  | [] => rfl
  | [c] => by_cases hc : c = ';' <;> simp [Pattern.char, startsSemicolons, hc]
  | c :: d :: rest =>
      by_cases hc : c = ';'
      · by_cases hd : d = ';'
        · simp [Pattern.char, startsSemicolons, hc, hd]
        · simp [Pattern.char, startsSemicolons, hc, hd, Ne.symm hd]
      · simp [Pattern.char, startsSemicolons, hc, Ne.symm hc]

/-- Two semicolons come first only in front of the rest. -/
theorem eq_of_startsSemicolons {s : List Char} (h : startsSemicolons s = true) :
    s = ';' :: ';' :: s.tail.tail := by
  obtain ⟨rest, rfl⟩ := List.isPrefixOf_iff_prefix.1 h
  rfl

/-- The pass over doubled semicolons shortens them. Of three semicolons two are taken at once and
the third one stays, so a run need not become a single one. -/
theorem thinned_semicolons (s : List Char) :
    Thinned semicolonRuns [] s ((exactly [';', ';']).replaceAll [';'] s) := by
  have hconsuming : Consuming (exactly [';', ';']) := .char_bind _ fun _ => .exactly _
  have key {here : Place} {s' : List Char} (h : Replaced (exactly [';', ';']) [';'] here s') :
      Thinned semicolonRuns [] here.rest s' := by
    induction h with
    | done => exact .done
    | @keep before c rest s h hrest ih =>
        have hstart : startsSemicolons (c :: rest) = false := Bool.eq_false_iff.2 fun hs => by
          rw [exactly_semicolons, if_pos hs] at h
          cases h
        exact .keep_nil hstart ih
    | @replace here m s h hrest ih =>
        obtain ⟨before, rest⟩ := here
        rw [exactly_semicolons] at h
        split at h
        · rename_i hs
          cases h
          -- Of two semicolons the first one stays.
          have hrest := eq_of_startsSemicolons hs
          show Thinned semicolonRuns [] rest (';' :: s)
          rw [hrest]
          have hdrop : ∀ d ∈ [';'], semicolonRuns.drops ';' d = true := by
            simp [semicolonRuns]
          exact .keep (hrest ▸ hs) hdrop (.drop hdrop ih)
        · cases h
  exact key (replaced_replaceAll hconsuming [';'] s)

/-! ### Blank lines -/

/-- A blank line consists of blanks and a line break. The line break is the first one in the
text. -/
theorem eq_of_afterBlankLine? {s rest : List Char} (h : afterBlankLine? s = some rest) :
    ∃ x, (∀ c ∈ x, isBlankChar c = true) ∧ s = x ++ '\n' :: rest := by
  refine ⟨s.takeWhile isBlankChar, fun c hc => List.mem_takeWhile_imp hc, ?_⟩
  unfold afterBlankLine? at h
  split at h
  · rename_i more hmore
    cases h
    rw [← hmore, List.takeWhile_append_dropWhile]
  · cases h

/-- A blank line matches where it comes first. The run of blanks has to be taken in full, as no line
break stands inside of it. -/
theorem blankLine_eq (before : Option Char) (s : List Char) :
    blankLine ⟨before, s⟩ =
      ((afterBlankLine? s).map fun rest => ((), (⟨some '\n', rest⟩ : Place))).toList := by
  show ((runEnds isBlankChar before s).reverse.map ((), ·)).flatMap
    (fun m => Pattern.char (· == '\n') m.2) = _
  induction s generalizing before with
  | nil => rfl
  | cons c s ih =>
      by_cases hc : isBlankChar c = true
      · -- A run may end before the blank, but no line break comes there.
        have hbreak : c ≠ '\n' := by
          rintro rfl
          exact absurd hc (by decide)
        have hafter : afterBlankLine? (c :: s) = afterBlankLine? s := by
          simp [afterBlankLine?, hc]
        rw [runEnds, if_pos hc, List.reverse_cons, List.map_append, List.flatMap_append, ih, hafter]
        simp [Pattern.char, hbreak]
      · rw [runEnds, if_neg hc]
        by_cases hbreak : c = '\n'
        · simp [Pattern.char, afterBlankLine?, hbreak, isBlankChar]
        · simp [Pattern.char, afterBlankLine?, hc, hbreak]

/-- Blank lines match where the first two of them come first. -/
theorem blankLines_eq (before : Option Char) (s : List Char) :
    blankLines ⟨before, '\n' :: s⟩ = ((afterBlankLine? s).bind afterBlankLine?).toList.flatMap
      fun rest => repeated blankLine ⟨some '\n', rest⟩ := by
  show [((), (⟨some '\n', s⟩ : Place))].flatMap (fun m => (blankLine m.2).flatMap fun m =>
    (blankLine m.2).flatMap fun m => repeated blankLine m.2) = _
  rw [List.flatMap_singleton, blankLine_eq]
  cases hfirst : afterBlankLine? s with
  | none => rfl
  | some rest =>
      show [((), (⟨some '\n', rest⟩ : Place))].flatMap (fun m => (blankLine m.2).flatMap fun m =>
        repeated blankLine m.2) = (afterBlankLine? rest).toList.flatMap _
      rw [List.flatMap_singleton, blankLine_eq]
      cases afterBlankLine? rest <;> rfl

/-- The preferred match of blank lines after a line break takes them all. The fuel is enough, since
each blank line has a character. -/
theorem head?_repeatUpTo {fuel : Nat} (here : Place) (hfuel : here.rest.length ≤ fuel) :
    ∃ x m, (repeatUpTo blankLine fuel here).head? = some m ∧
      (∀ c ∈ x, blankRuns.drops '\n' c = true) ∧ '\n' :: here.rest = x ++ '\n' :: m.2.rest ∧
      afterBlankLine? m.2.rest = none := by
  induction fuel generalizing here with
  | zero =>
      obtain ⟨before, s⟩ := here
      obtain rfl := List.length_eq_zero_iff.1 (Nat.le_zero.1 hfuel)
      exact ⟨[], _, rfl, by simp, rfl, rfl⟩
  | succ fuel ih =>
      obtain ⟨before, s⟩ := here
      have hmatches : repeatUpTo blankLine (fuel + 1) ⟨before, s⟩ =
          (blankLine ⟨before, s⟩).flatMap (fun m => repeatUpTo blankLine fuel m.2) ++
            [((), ⟨before, s⟩)] := rfl
      -- The first round is the next blank line, if there is one.
      rw [blankLine_eq] at hmatches
      cases hafter : afterBlankLine? s with
      | none =>
          rw [hafter] at hmatches
          exact ⟨[], _, congrArg List.head? hmatches, by simp, rfl, hafter⟩
      | some rest =>
          -- Going on is preferred to stopping, so the next blank line is taken as well.
          obtain ⟨x, hx, hs⟩ := eq_of_afterBlankLine? hafter
          have hlength : rest.length ≤ fuel := by
            have hlength := congrArg List.length hs
            simp only [List.length_append, List.length_cons] at hlength hfuel
            omega
          obtain ⟨y, m, hm, hy, hrest, hlast⟩ := ih ⟨some '\n', rest⟩ hlength
          rw [hafter] at hmatches
          refine ⟨'\n' :: (x ++ y), m, ?_, ?_, ?_, hlast⟩
          · rw [hmatches]
            simp [hm]
          · intro c hc
            rcases List.mem_cons.1 hc with rfl | hc
            · rfl
            · rcases List.mem_append.1 hc with hc | hc
              · exact by simp [blankRuns, hx c hc]
              · exact hy c hc
          · show '\n' :: s = _
            rw [hs, hrest]
            simp

/-- Only a line break starts blank lines. -/
theorem startsBlankLines_cons {c : Char} (h : c ≠ '\n') (s : List Char) :
    startsBlankLines (c :: s) = false := by
  unfold startsBlankLines
  split
  · rename_i heq
    exact absurd (List.cons.inj heq).1 h
  · rfl

/-- The preferred match of blank lines reaches from a line break to the last one of them, with at
least one character between. The line break at its end is the one that stays, while the pattern puts
in two. -/
theorem eq_of_mem_head?_blankLines {before : Option Char} {s : List Char} {m : Unit × Place}
    (h : (blankLines ⟨before, s⟩).head? = some m) :
    startsBlankLines s = true ∧ ∃ x, x ≠ [] ∧ (∀ c ∈ x, blankRuns.drops '\n' c = true) ∧
      s = '\n' :: (x ++ '\n' :: m.2.rest) ∧ afterBlankLine? m.2.rest = none := by
  cases s with
  | nil => cases h
  | cons c s =>
      by_cases hc : c = '\n'
      · subst hc
        rw [blankLines_eq] at h
        cases hfirst : afterBlankLine? s with
        | none =>
            rw [hfirst] at h
            cases h
        | some rest =>
            cases hsecond : afterBlankLine? rest with
            | none =>
                rw [hfirst, Option.bind_some, hsecond] at h
                cases h
            | some more =>
                rw [hfirst, Option.bind_some, hsecond, Option.toList_some,
                  List.flatMap_singleton] at h
                refine ⟨by simp [startsBlankLines, hfirst, hsecond], ?_⟩
                obtain ⟨x, hx, rfl⟩ := eq_of_afterBlankLine? hfirst
                obtain ⟨y, hy, rfl⟩ := eq_of_afterBlankLine? hsecond
                -- Behind two blank lines, the pattern prefers to take as many more as there are.
                obtain ⟨z, m', hm', hz, hmore, hlast⟩ :=
                  head?_repeatUpTo ⟨some '\n', more⟩ (Nat.le_refl _)
                obtain rfl : m' = m := Option.some.inj (hm'.symm.trans h)
                refine ⟨x ++ '\n' :: (y ++ z), by simp, ?_, ?_, hlast⟩
                · intro c hc
                  simp only [List.mem_append, List.mem_cons] at hc
                  rcases hc with hc | rfl | hc | hc
                  · exact by simp [blankRuns, hx c hc]
                  · rfl
                  · exact by simp [blankRuns, hy c hc]
                  · exact hz c hc
                · rw [hmore]
                  simp
      · have hnone : blankLines ⟨before, c :: s⟩ = [] := by
          show (Pattern.char (· == '\n') ⟨before, c :: s⟩).flatMap _ = []
          simp [Pattern.char, hc]
        rw [hnone] at h
        cases h

/-- The pass over blank lines shortens their runs. A match is a whole run, so that no other one
starts where it ends. -/
theorem thinned_blankLines (s : List Char) :
    Thinned blankRuns [] s (blankLines.replaceAll ['\n', '\n'] s) := by
  have hconsuming : Consuming blankLines := by
    refine .char_bind _ fun _ => ?_
    have hline : Forward blankLine := .bind (.many _) fun _ => .char _
    exact hline.bind fun _ => hline.bind fun _ => .repeated hline
  have key {here : Place} {s' : List Char} (h : Replaced blankLines ['\n', '\n'] here s') :
      Thinned blankRuns [] here.rest s' := by
    induction h with
    | done => exact .done
    | @keep before c rest s h hrest ih =>
        have hstart : startsBlankLines (c :: rest) = false := by
          by_cases hc : c = '\n'
          · subst hc
            rw [blankLines_eq] at h
            cases hlines : (afterBlankLine? rest).bind afterBlankLine? with
            | none => simp [startsBlankLines, hlines]
            | some more =>
                obtain ⟨x, m, hm, -⟩ :=
                  head?_repeatUpTo ⟨some '\n', more⟩ (Nat.le_refl _)
                -- A repetition always matches, at least without a blank line.
                have hnil : repeated blankLine ⟨some '\n', more⟩ = [] := by simpa [hlines] using h
                rw [← repeated, hnil] at hm
                cases hm
          · exact startsBlankLines_cons hc rest
        exact .keep_nil hstart ih
    | @replace here m s h hrest ih =>
        obtain ⟨before, rest⟩ := here
        obtain ⟨hstart, x, hne, hx, rfl, hlast⟩ := eq_of_mem_head?_blankLines h
        have hend : startsBlankLines ('\n' :: m.2.rest) = false := by
          simp [startsBlankLines, hlast]
        exact .keep (hstart.trans (by simp [hne])) hx (.drop_append hx (.keep_nil hend ih))
  exact key (replaced_replaceAll hconsuming ['\n', '\n'] s)

/-! ### Both passes -/

/-- Only a semicolon starts a run of semicolons. -/
theorem startsSemicolons_cons {c : Char} (h : c ≠ ';') (s : List Char) :
    startsSemicolons (c :: s) = false := by
  cases hs : startsSemicolons (c :: s) with
  | false => rfl
  | true => exact absurd (List.cons.inj (eq_of_startsSemicolons hs)).1 h

/-- Nothing is dropped after a character at which no run starts. What is dropped there tells whether
a run starts. -/
theorem eq_nil_of_starts {k : Runs} {s x : List Char} (h : k.starts s = !x.isEmpty)
    (hs : k.starts s = false) : x = [] := by
  rw [hs] at h
  simpa using h

/-- Shortening runs of semicolons leaves blank lines where they are. This is why the second pass
finds in the text of the first one what it would have found in the script. -/
theorem Thinned.afterBlankLine? {s s' : List Char} (h : Thinned semicolonRuns [] s s') :
    Option.Rel (Thinned semicolonRuns []) (afterBlankLine? s) (afterBlankLine? s') := by
  induction s generalizing s' with
  | nil =>
      cases h
      exact .none
  | cons c s ih =>
      cases h with
      | @keep _ x _ s' hstart hx hs =>
          -- A blank line holds no semicolon, so nothing is dropped before it ends.
          by_cases hc : isBlankChar c = true ∨ c = '\n'
          · have hne : c ≠ ';' := by
              rintro rfl
              exact absurd hc (by decide)
            obtain rfl := eq_nil_of_starts hstart (startsSemicolons_cons hne s)
            rcases hc with hc | rfl
            · have hcons (s : List Char) : ClientCommand.afterBlankLine? (c :: s) =
                  ClientCommand.afterBlankLine? s := by
                simp [ClientCommand.afterBlankLine?, hc]
              rw [hcons, hcons]
              exact ih hs
            · exact .some hs
          · have hcons (s : List Char) : ClientCommand.afterBlankLine? (c :: s) = none := by
              simp only [not_or, Bool.not_eq_true] at hc
              simp [ClientCommand.afterBlankLine?, hc]
            rw [hcons, hcons]
            exact .none

/-- Related options are both empty or both not. -/
theorem isSome_eq_of_rel {α β : Type} {r : α → β → Prop} {a : Option α} {b : Option β}
    (h : Option.Rel r a b) : a.isSome = b.isSome := by
  cases h <;> rfl

/-- Shortening runs of semicolons leaves runs of blank lines where they are. If semicolons are
dropped here, a semicolon comes first and no run of blank lines starts on either side. -/
theorem Thinned.startsBlankLines_eq {c : Char} {x s s' : List Char}
    (hstart : semicolonRuns.starts (c :: s) = !x.isEmpty) (h : Thinned semicolonRuns x s s') :
    startsBlankLines (c :: s) = startsBlankLines (c :: s') := by
  by_cases hc : c = '\n'
  · subst hc
    obtain rfl := eq_nil_of_starts hstart rfl
    have hsecond {a b : Option (List Char)} (hab : Option.Rel (Thinned semicolonRuns []) a b) :
        (a.bind ClientCommand.afterBlankLine?).isSome =
          (b.bind ClientCommand.afterBlankLine?).isSome := by
      cases hab with
      | none => rfl
      | some hs => exact isSome_eq_of_rel hs.afterBlankLine?
    exact hsecond h.afterBlankLine?
  · rw [startsBlankLines_cons hc, startsBlankLines_cons hc]

/-- Two passes, of which at most one has to drop characters, shorten both kinds of runs. The order
of the passes matters only in so far as the first one must not hide a run from the second. -/
theorem Thinned.trans {x y s s₁ s₂ : List Char} (h : Thinned semicolonRuns x s s₁)
    (h' : Thinned blankRuns y s₁ s₂) (hnil : x = [] ∨ y = []) :
    Thinned runs (x ++ y) s s₂ := by
  induction h generalizing y s₂ with
  | done =>
      cases h'
      exact .done
  | @keep c x s s₁ hstart hx hs ih =>
      -- The second pass finds a run where there was one before the first.
      have hblank := hs.startsBlankLines_eq hstart
      cases h' with
      | @keep _ y _ s₂ hstart' hy hs' =>
          -- A character starts a run of one kind at most.
          have hnil' : x = [] ∨ y = [] := by
            by_cases hc : c = ';'
            · subst hc
              exact .inr (eq_nil_of_starts hstart' rfl)
            · exact .inl (eq_nil_of_starts hstart (startsSemicolons_cons hc s))
          have hstart'' : startsBlankLines (c :: s₁) = !y.isEmpty := hstart'
          refine .keep ?_ ?_ (ih hs' hnil')
          · show (semicolonRuns.starts (c :: s) || startsBlankLines (c :: s)) = _
            rw [hstart, hblank, hstart'']
            rcases hnil' with rfl | rfl <;> simp
          · intro d hd
            rcases List.mem_append.1 hd with hd | hd
            · exact Bool.or_eq_true_iff.2 (.inl (hx d hd))
            · exact Bool.or_eq_true_iff.2 (.inr (hy d hd))
      | @drop first _ y _ _ hdrop hs' =>
          -- What the second pass drops here is a blank or a line break, and the first pass drops
          -- nothing after it.
          have hc : c ≠ ';' := by
            rintro rfl
            have hsemicolon := hdrop ';' List.mem_cons_self
            simp [blankRuns, isBlankChar] at hsemicolon
          obtain rfl := eq_nil_of_starts hstart (startsSemicolons_cons hc s)
          exact .drop (fun d hd => Bool.or_eq_true_iff.2 (.inr (hdrop d hd))) (ih hs' (.inl rfl))
  | @drop first c x s s₁ hdrop hs ih =>
      obtain rfl : y = [] := hnil.resolve_left (List.cons_ne_nil c x)
      have hdrop' : ∀ d ∈ c :: (x ++ []), runs.drops first d = true := by
        intro d hd
        rw [List.append_nil] at hd
        exact Bool.or_eq_true_iff.2 (.inl (hdrop d hd))
      exact .drop hdrop' (ih h' (.inr rfl))

/-- Tidying shortens the runs of semicolons and of blank lines. All that follows about tidying is
drawn from this. -/
theorem thinned_tidy (s : List Char) : Thinned runs [] s (tidy s) :=
  (thinned_semicolons s).trans (thinned_blankLines _) (.inl rfl)

/-! ### Characters outside runs -/

/-- Whether the character can stand in a run. Tidying may touch these characters and no others. -/
def isRunChar (c : Char) : Bool := c == ';' || isBlankChar c || c == '\n'

/-- Only characters of runs are dropped, and only after one of them. So a character of a word, of a
name or of a literal is lost only if it is one of these. -/
theorem isRunChar_of_drops {first c : Char} (h : runs.drops first c = true) :
    isRunChar first = true ∧ isRunChar c = true := by
  simp only [runs, semicolonRuns, blankRuns, Bool.or_eq_true, Bool.and_eq_true] at h
  rcases h with ⟨hfirst, h⟩ | ⟨hfirst, h | h⟩ <;> simp [isRunChar, hfirst, h]

/-- Nothing is dropped after a character that stands in no run. It is kept, and the text goes on
behind it as before. -/
theorem eq_nil_of_drops {c : Char} {x : List Char} (hc : isRunChar c = false)
    (hx : ∀ d ∈ x, runs.drops c d = true) : x = [] := by
  cases x with
  | nil => rfl
  | cons d x =>
      rw [(isRunChar_of_drops (hx d List.mem_cons_self)).1] at hc
      cases hc

/-- Only after a semicolon is a semicolon dropped. -/
theorem semicolon_not_mem_of_drops {c : Char} {x : List Char} (hc : c ≠ ';')
    (hx : ∀ d ∈ x, runs.drops c d = true) : ';' ∉ x := by
  intro hmem
  have hdrop := hx ';' hmem
  simp [runs, semicolonRuns, blankRuns, isBlankChar, hc] at hdrop

/-- No run starts with another character. -/
theorem starts_of_not_isRunChar {c : Char} (h : isRunChar c = false) (s : List Char) :
    runs.starts (c :: s) = false := by
  simp only [isRunChar, Bool.or_eq_false_iff, beq_eq_false_iff_ne] at h
  show (startsSemicolons (c :: s) || startsBlankLines (c :: s)) = false
  rw [startsSemicolons_cons h.1.1, startsBlankLines_cons h.2]
  rfl

/-- A character that stands in no run is kept, and so is the one after it. The induction along a
script uses this at every token that is not made of such characters. -/
theorem Thinned.of_not_isRunChar {c : Char} {x s s' : List Char} (h : Thinned runs x (c :: s) s')
    (hc : isRunChar c = false) : x = [] ∧ ∃ t, s' = c :: t ∧ Thinned runs [] s t := by
  cases h with
  | @keep _ y _ t hstart hy hs =>
      obtain rfl := eq_nil_of_drops hc hy
      exact ⟨rfl, t, rfl, hs⟩
  | drop hdrop hs =>
      rw [(isRunChar_of_drops (hdrop c List.mem_cons_self)).2] at hc
      cases hc

/-- Where nothing has to be dropped the first character is kept. -/
theorem Thinned.head?_eq {k : Runs} {s s' : List Char} (h : Thinned k [] s s') :
    s'.head? = s.head? := by
  cases h <;> rfl

/-- Whether a run starts somewhere in the text. A literal that holds one is changed by tidying, and
is not the same token afterwards. -/
def holdsRun : List Char → Bool
  | [] => false
  | c :: s => runs.starts (c :: s) || holdsRun s

/-- Behind a character that stands in no run, the text does not matter to a blank line. Either the
line ends in front of that character, in both texts at the same place, or the character keeps it
from being blank in both. -/
theorem afterBlankLine?_rel {mark : Char} (hmark : isRunChar mark = false) (z t t' : List Char) :
    Option.Rel (fun a b => ∃ z, a = z ++ mark :: t ∧ b = z ++ mark :: t')
      (afterBlankLine? (z ++ mark :: t)) (afterBlankLine? (z ++ mark :: t')) := by
  have hother {c : Char} (hc : isBlankChar c = false ∧ c ≠ '\n') (s : List Char) :
      afterBlankLine? (c :: s) = none := by
    simp [afterBlankLine?, hc]
  induction z with
  | nil =>
      simp only [isRunChar, Bool.or_eq_false_iff, beq_eq_false_iff_ne] at hmark
      rw [List.nil_append, List.nil_append, hother ⟨hmark.1.2, hmark.2⟩,
        hother ⟨hmark.1.2, hmark.2⟩]
      exact .none
  | cons c z ih =>
      -- A blank is passed over, a line break ends the line, and anything else is none of a blank
      -- line.
      by_cases hblank : isBlankChar c = true
      · have hcons (s : List Char) : afterBlankLine? (c :: s) = afterBlankLine? s := by
          simp [afterBlankLine?, hblank]
        rw [List.cons_append, List.cons_append, hcons, hcons]
        exact ih
      · by_cases hbreak : c = '\n'
        · subst hbreak
          exact .some ⟨z, rfl, rfl⟩
        · rw [Bool.not_eq_true] at hblank
          rw [List.cons_append, List.cons_append, hother ⟨hblank, hbreak⟩, hother ⟨hblank, hbreak⟩]
          exact .none

/-- Behind a character that stands in no run, the text does not matter to a run. So whether a
literal holds a run can be told without what stands behind it. -/
theorem starts_append {mark : Char} (hmark : isRunChar mark = false) (z t t' : List Char) :
    runs.starts (z ++ mark :: t) = runs.starts (z ++ mark :: t') := by
  cases z with
  | nil => rw [List.nil_append, List.nil_append, starts_of_not_isRunChar hmark,
      starts_of_not_isRunChar hmark]
  | cons c z =>
      have hsemicolons : startsSemicolons (c :: (z ++ mark :: t)) =
          startsSemicolons (c :: (z ++ mark :: t')) := by
        cases z <;> simp [startsSemicolons, List.isPrefixOf]
      have hblank : startsBlankLines (c :: (z ++ mark :: t)) =
          startsBlankLines (c :: (z ++ mark :: t')) := by
        -- Two blank lines have to end before the character or not at all.
        by_cases hc : c = '\n'
        · subst hc
          have hsecond {a b : Option (List Char)}
              (hab : Option.Rel (fun a b => ∃ z, a = z ++ mark :: t ∧ b = z ++ mark :: t') a b) :
              (a.bind afterBlankLine?).isSome = (b.bind afterBlankLine?).isSome := by
            cases hab with
            | none => rfl
            | some h =>
                obtain ⟨z, rfl, rfl⟩ := h
                exact isSome_eq_of_rel (afterBlankLine?_rel hmark z t t')
          exact hsecond (afterBlankLine?_rel hmark z t t')
        · rw [startsBlankLines_cons hc, startsBlankLines_cons hc]
      show (startsSemicolons _ || startsBlankLines _) = (startsSemicolons _ || startsBlankLines _)
      rw [List.cons_append, List.cons_append, hsemicolons, hblank]

end EntityDiagram.Sql.ClientCommand
