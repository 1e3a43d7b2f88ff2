import EntityDiagram.Proofs.Ddl.Token.Round
import EntityDiagram.Proofs.Sql.ClientCommand

/-!
# `EntityDiagram.Proofs.Ddl.Token.Tidying`: the lexer on a tidied text

Tidying a script shortens runs of semicolons and of blank lines, wherever they stand. This module
runs the lexer over a text and over the text with its runs shortened, and compares.

* `Shortened`: what is compared for a quoted text. What the quotes hold gets shorter by what is
  dropped from them, so it stays the same exactly when no run stands in them.
* `step_thinned`: a round on the text and the round on the shortened text read the same token,
  unless they read quotes that hold a run.
* `Reads.thinned`: the same for a whole run that reads no semicolon.

The two runs are not round by round the same where runs are dropped outside of quotes: a semicolon
is a token, so that a doubled one is a round more in the longer text. `Thinned` has therefore an
argument for what is still to be dropped in front of the text, and the lemmas carry it along. That a
semicolon is never among it, except behind a semicolon, is what keeps the tokens of a statement
together.
-/

set_option autoImplicit false

namespace EntityDiagram.Ddl.Token

open Sql.ClientCommand
open Text (isSpace isAsciiDigit)

/-! ### Comments, digits and words -/

/-- A line comment ends at the same line break in both texts, unless that is one of those dropped:
this is what `hx` rules out at the front. What may still have to be dropped behind it are line
breaks, and no semicolons. -/
theorem thinned_afterLine {x s s' : List Char} (h : Thinned runs x s s') (hx : '\n' ∉ x) :
    ∃ y, ';' ∉ y ∧ Thinned runs y (afterLine s) (afterLine s') := by
  fun_induction afterLine s generalizing x s' with
  | case1 =>
      cases h
      exact ⟨[], by simp, .done⟩
  -- At the line break the comment is over. If the break had been dropped, it would have to be among
  -- the dropped characters, which hold none.
  | case2 c rest hc =>
      obtain rfl : c = '\n' := by simpa using hc
      cases h with
      | keep hstart hy hs => exact ⟨_, semicolon_not_mem_of_drops (by decide) hy, hs⟩
      | drop hdrop hs => exact absurd List.mem_cons_self hx
  | case3 c rest hc ih =>
      have hbreak : c ≠ '\n' := by simpa using hc
      cases h with
      | @keep _ y _ t hstart hy hs =>
          have hafter : afterLine (c :: t) = afterLine t := by simp [afterLine, hbreak]
          rw [hafter]
          refine ih hs fun hmem => ?_
          have hdrop := hy _ hmem
          simp [runs, semicolonRuns, blankRuns, hbreak] at hdrop
      | drop hdrop hs => exact ih hs fun hmem => hx (List.mem_cons_of_mem _ hmem)

/-- A block comment ends at the same place in both texts, since its marks stand in no run and
nothing is dropped between them. -/
theorem thinned_afterBlock {x s s' : List Char} (h : Thinned runs x s s') :
    Thinned runs [] (afterBlock s) (afterBlock s') := by
  fun_induction afterBlock s generalizing x s' with
  | case1 =>
      cases h
      exact .done
  | case2 rest =>
      obtain ⟨-, t, rfl, ht⟩ := h.of_not_isRunChar rfl
      obtain ⟨-, u, rfl, hu⟩ := ht.of_not_isRunChar rfl
      exact hu
  | case3 c rest hend ih =>
      cases h with
      | @keep _ y _ t hstart hy hs =>
          have hcons : afterBlock (c :: t) = afterBlock t := by
            refine afterBlock_cons fun hc hhead => ?_
            -- Nothing is dropped behind the star, so the comment closes here in both texts or in
            -- neither.
            subst hc
            obtain rfl := eq_nil_of_drops rfl hy
            rw [hs.head?_eq] at hhead
            obtain ⟨more, rfl⟩ := List.head?_eq_some_iff.1 hhead
            exact hend more rfl rfl
          rw [hcons]
          exact ih hs
      | drop hdrop hs => exact ih hs

/-- A character that a property tells from the four characters of runs stands in no run. -/
theorem not_isRunChar_of {p : Char → Bool} (hp : [';', ' ', '\t', '\n'].any p = false)
    {c : Char} (h : p c = true) : isRunChar c = false := by
  cases hc : isRunChar c with
  | false => rfl
  | true =>
      simp only [isRunChar, isBlankChar, Bool.or_eq_true, beq_iff_eq] at hc
      have hmem : c ∈ [';', ' ', '\t', '\n'] := by
        rcases hc with (rfl | rfl | rfl) | rfl <;> simp
      exact absurd h (List.any_eq_false.1 hp c hmem)

/-- No digit stands in a run. -/
theorem not_isRunChar_of_isAsciiDigit {c : Char} (h : isAsciiDigit c = true) :
    isRunChar c = false := not_isRunChar_of (by decide) h

/-- No character inside a word stands in a run. -/
theorem not_isRunChar_of_continuesWord {c : Char} (h : continuesWord c = true) :
    isRunChar c = false := not_isRunChar_of (by decide) h

/-- Nor does one that starts a word. -/
theorem not_isRunChar_of_startsWord {c : Char} (h : startsWord c = true) :
    isRunChar c = false := not_isRunChar_of (by decide) h

/-- A number has the same digits in both texts: its characters stand in no run, and the one behind
it is in both or in neither. -/
theorem thinned_readDigits (dotted : Bool) {s s' : List Char} (h : Thinned runs [] s s') :
    (readDigits dotted s').1 = (readDigits dotted s).1 ∧
      Thinned runs [] (readDigits dotted s).2 (readDigits dotted s').2 := by
  fun_induction readDigits dotted s generalizing s' with
  | case1 =>
      cases h
      exact ⟨rfl, .done⟩
  | case2 dotted c rest hdigit ih =>
      obtain ⟨-, t, rfl, ht⟩ := h.of_not_isRunChar (not_isRunChar_of_isAsciiDigit hdigit)
      obtain ⟨hread, hleft⟩ := ih ht
      rw [readDigits, if_pos hdigit]
      exact ⟨congrArg (c :: ·) hread, hleft⟩
  | case3 dotted c rest hdigit hdot ih =>
      obtain ⟨rfl, hdotted⟩ : c = '.' ∧ dotted = false := by simpa using hdot
      obtain ⟨-, t, rfl, ht⟩ := h.of_not_isRunChar rfl
      obtain ⟨hread, hleft⟩ := ih ht
      rw [readDigits, if_neg hdigit, if_pos hdot]
      exact ⟨congrArg ('.' :: ·) hread, hleft⟩
  -- The number ends here, and what is dropped behind it is dropped before the next token.
  | case4 dotted c rest hdigit hdot =>
      cases h with
      | @keep _ y _ t hstart hy hs =>
          rw [readDigits, if_neg hdigit, if_neg hdot]
          exact ⟨rfl, .keep hstart hy hs⟩

/-- The same holds for characters of any kind that stands in no run: as many of them are taken from
both texts. -/
theorem thinned_dropWhile {p : Char → Bool} (hp : ∀ c, p c = true → isRunChar c = false)
    {s s' : List Char} (h : Thinned runs [] s s') :
    s'.takeWhile p = s.takeWhile p ∧ Thinned runs [] (s.dropWhile p) (s'.dropWhile p) := by
  induction s generalizing s' with
  | nil =>
      cases h
      exact ⟨rfl, .done⟩
  | cons c s ih =>
      -- No character of a run is taken by `p`, so none of those that are taken has been dropped.
      by_cases hc : p c = true
      · obtain ⟨-, t, rfl, ht⟩ := h.of_not_isRunChar (hp c hc)
        obtain ⟨htake, hdrop⟩ := ih ht
        simp only [List.takeWhile_cons_of_pos hc, List.dropWhile_cons_of_pos hc]
        exact ⟨congrArg (c :: ·) htake, hdrop⟩
      · cases h with
        | @keep _ y _ t hstart hy hs =>
            simp only [List.takeWhile_cons_of_neg hc, List.dropWhile_cons_of_neg hc]
            exact ⟨trivial, .keep hstart hy hs⟩

/-! ### Quoted texts -/

/-- Whether no run starts in the text before what is left of it. -/
def NoRun (s left : List Char) : Prop :=
  ∀ z, z <:+ s → left.length < z.length → runs.starts z = false

/-- Before all of a text stands nothing, and so no run. -/
theorem noRun_self (s : List Char) : NoRun s s := fun _ hz hlength =>
  absurd hz.length_le (Nat.not_le_of_lt hlength)

/-- A run starts in a text at its first character or later. -/
theorem noRun_cons {c : Char} {s left : List Char} (h : left.length ≤ s.length) :
    NoRun (c :: s) left ↔ runs.starts (c :: s) = false ∧ NoRun s left := by
  constructor
  · intro hrun
    exact ⟨hrun _ (List.suffix_refl _) (Nat.lt_succ_of_le h),
      fun z hz hlength => hrun z (hz.trans (List.suffix_cons c s)) hlength⟩
  · rintro ⟨hstart, hrun⟩ z hz hlength
    rcases List.suffix_cons_iff.1 hz with rfl | hz
    · exact hstart
    · exact hrun z hz hlength

/-- In a text that ends in a character outside runs, or with which everything ends, runs do not
depend on what follows. -/
theorem noRun_append {text left : List Char}
    (h : left = [] ∨ ∃ init mark, text = init ++ [mark] ∧ isRunChar mark = false) :
    NoRun (text ++ left) left ↔ holdsRun text = false := by
  induction text with
  | nil => exact iff_of_true (noRun_self left) rfl
  | cons c text ih =>
      have hstart : runs.starts (c :: (text ++ left)) = runs.starts (c :: text) := by
        rcases h with rfl | ⟨init, mark, htext, hmark⟩
        · rw [List.append_nil]
        · have hstart := starts_append hmark init left []
          rw [List.append_cons, ← htext] at hstart
          exact hstart
      -- The condition is handed on to the shorter text, whose last character is the same.
      have hrest : NoRun (text ++ left) left ↔ holdsRun text = false := by
        rcases h with rfl | ⟨init, mark, htext, hmark⟩
        · exact ih (.inl rfl)
        · cases init with
          | nil =>
              obtain rfl := (List.cons.inj htext).2
              exact iff_of_true (noRun_self left) rfl
          | cons d init => exact ih (.inr ⟨init, mark, (List.cons.inj htext).2, hmark⟩)
      rw [List.cons_append, noRun_cons (by simp), hrest, hstart, holdsRun, Bool.or_eq_false_iff]

/-- How what is read in quotes compares with what is read there once the runs are shortened, when
`x` has to be dropped at the front of the text `s`. -/
structure Shortened (x s : List Char) (read read' : List Char × List Char) : Prop where
  left : Thinned runs [] read.2 read'.2
  length_le : read'.1.length + x.length ≤ read.1.length
  eq_iff : x = [] → (read'.1 = read.1 ↔ NoRun s read.2)

namespace Shortened

variable {c d : Char} {x s : List Char} {read read' : List Char × List Char}

/-- The quotes are closed. -/
theorem close {s' : List Char} (hc : isRunChar c = false) (h : Thinned runs [] s s') :
    Shortened [] (c :: s) ([], s) ([], s') where
  left := h
  length_le := Nat.le_refl _
  eq_iff _ := iff_of_true rfl
    ((noRun_cons (Nat.le_refl _)).2 ⟨starts_of_not_isRunChar hc s, noRun_self s⟩)

/-- A character is kept. -/
theorem keep (h : runs.starts (c :: s) = !x.isEmpty) (hlength : read.2.length ≤ s.length)
    (hread : Shortened x s read read') :
    Shortened [] (c :: s) (consRead d read) (consRead d read') where
  left := hread.left
  length_le := Nat.succ_le_succ (Nat.le_of_add_right_le hread.length_le)
  eq_iff _ := by
    show d :: read'.1 = d :: read.1 ↔ NoRun (c :: s) read.2
    rw [noRun_cons hlength, h]
    cases x with
    | nil => simpa using hread.eq_iff rfl
    | cons e x =>
        -- What is dropped here makes the text shorter.
        have hle := hread.length_le
        have hne : read'.1 ≠ read.1 := by
          intro heq
          rw [heq, List.length_cons] at hle
          omega
        simp [hne]

/-- A character that stands for nothing by itself is kept. -/
theorem skip (hc : isRunChar c = false) (hlength : read.2.length ≤ s.length)
    (hread : Shortened [] s read read') : Shortened [] (c :: s) read read' where
  left := hread.left
  length_le := hread.length_le
  eq_iff _ := by
    rw [noRun_cons hlength, hread.eq_iff rfl, starts_of_not_isRunChar hc]
    simp

/-- A character is dropped. -/
theorem drop (hread : Shortened x s read read') :
    Shortened (c :: x) (c :: s) (consRead c read) read' where
  left := hread.left
  length_le := by
    have hle := hread.length_le
    show read'.1.length + (x.length + 1) ≤ read.1.length + 1
    omega
  eq_iff h := absurd h (List.cons_ne_nil c x)

end Shortened

/-- Shortening runs in a quoted text. -/
theorem shortened_readQuoted {mark : Char} (hmark : isRunChar mark = false) (escapes : Bool)
    {x s s' : List Char} (h : Thinned runs x s s') :
    Shortened x s (readQuoted mark escapes s) (readQuoted mark escapes s') := by
  -- On the reading of the longer text: marks and backslashes stand in no run, so both readers
  -- take the same branch until a character is dropped.
  fun_induction readQuoted mark escapes s generalizing x s' with
  | case1 =>
      cases h
      exact ⟨.done, Nat.le_refl _, fun _ => iff_of_true rfl (noRun_self [])⟩
  | case2 c hc =>
      obtain rfl : c = mark := by simpa using hc
      obtain ⟨rfl, t, rfl, ht⟩ := h.of_not_isRunChar hmark
      cases ht
      rw [readQuoted_close (by simp)]
      exact .close hmark .done
  | case3 c hc d rest hd ih =>
      obtain rfl : c = mark := by simpa using hc
      obtain rfl : d = c := by simpa using hd
      obtain ⟨rfl, t, rfl, ht⟩ := h.of_not_isRunChar hmark
      obtain ⟨-, u, rfl, hu⟩ := ht.of_not_isRunChar hmark
      have hlength := length_readQuoted_le d escapes rest
      rw [readQuoted_mark_mark]
      refine .skip hmark (Nat.le_succ_of_le hlength) (.keep ?_ hlength (ih hu))
      exact (starts_of_not_isRunChar hmark rest).trans (by simp)
  | case4 c hc d rest hd =>
      obtain rfl : c = mark := by simpa using hc
      obtain ⟨rfl, t, rfl, ht⟩ := h.of_not_isRunChar hmark
      rw [readQuoted_close (by rw [ht.head?_eq]; simpa using hd)]
      exact .close hmark ht
  | case5 c hc hescape =>
      obtain ⟨rfl, rfl⟩ : c = '\\' ∧ escapes = true := by simpa using hescape
      obtain ⟨rfl, t, rfl, ht⟩ := h.of_not_isRunChar rfl
      cases ht
      have hclose : readQuoted mark true ['\\'] = ([], []) := by
        rw [readQuoted, if_neg hc, if_pos (by simp)]
      rw [hclose]
      exact .close rfl .done
  | case6 c hc hescape d rest ih =>
      obtain ⟨rfl, rfl⟩ : c = '\\' ∧ escapes = true := by simpa using hescape
      have hslash : mark ≠ '\\' := fun h => hc (by simp [h])
      obtain ⟨rfl, t, rfl, ht⟩ := h.of_not_isRunChar rfl
      cases ht with
      | keep hstart hy hs =>
          have hlength := length_readQuoted_le mark true rest
          rw [readQuoted_escape hslash]
          exact .skip rfl (Nat.le_succ_of_le hlength) (.keep hstart hlength (ih hs))
  | case7 c rest hc hescape ih =>
      cases h with
      | keep hstart hy hs =>
          have hne : escapes = true → c ≠ '\\' := by
            rintro rfl rfl
            exact hescape rfl
          rw [readQuoted_other (by simpa using hc) hne]
          exact .keep hstart (length_readQuoted_le mark escapes rest) (ih hs)
      | drop hdrop hs => exact .drop (ih hs)

/-- Quotes are closed by their mark or by the end of the text. -/
theorem readQuoted_closed (mark : Char) (escapes : Bool) (s : List Char) :
    (readQuoted mark escapes s).2 = [] ∨ mark :: (readQuoted mark escapes s).2 <:+ s := by
  fun_induction readQuoted mark escapes s with
  | case1 => exact .inl rfl
  | case2 => exact .inl rfl
  | case3 c hc d rest hd ih => exact ih.imp_right fun h => suffix_cons_cons h _ _
  | case4 c hc d rest hd =>
      obtain rfl : c = mark := by simpa using hc
      exact .inr (List.suffix_refl _)
  | case5 => exact .inl rfl
  | case6 c hc hescape d rest ih => exact ih.imp_right fun h => suffix_cons_cons h _ _
  | case7 c rest hc hescape ih => exact ih.imp_right fun h => h.trans (List.suffix_cons _ _)

/-- The text of quotes stays the same exactly when no run stands in them. Outside of the quotes
nothing can happen to them, since the marks are no characters of a run. -/
theorem thinned_quoted {c mark : Char} (hc : isRunChar c = false) (hmark : isRunChar mark = false)
    {escapes : Bool} {text left s' : List Char}
    (hleft : (readQuoted mark escapes (text ++ left)).2 = left)
    (h : Thinned runs [] (text ++ left) s') :
    Thinned runs [] left (readQuoted mark escapes s').2 ∧
      ((readQuoted mark escapes s').1 = (readQuoted mark escapes (text ++ left)).1 ↔
        holdsRun (c :: text) = false) := by
  have hread := shortened_readQuoted hmark escapes h
  have hclosed := readQuoted_closed mark escapes (text ++ left)
  have heq := hread.eq_iff rfl
  rw [hleft] at hclosed heq
  -- Quotes that are closed end in their mark, and runs do not reach over it.
  have hends : left = [] ∨ ∃ init mark, text = init ++ [mark] ∧ isRunChar mark = false := by
    refine hclosed.imp_right fun ⟨init, hinit⟩ => ⟨init, mark, ?_, hmark⟩
    rw [List.append_cons] at hinit
    exact (List.append_cancel_right hinit).symm
  rw [heq, noRun_append hends, holdsRun, starts_of_not_isRunChar hc, Bool.false_or]
  exact ⟨hleft ▸ hread.left, Iff.rfl⟩

/-! ### Rounds -/

/-- Whether no run stands in the quotes that the round reads. -/
def Round.Quiet (r : Round) : Prop := r.isQuoted = true → holdsRun r.text = false

/-- Whether a round reads quotes and whether a text holds a run can both be computed. -/
instance (r : Round) : Decidable r.Quiet :=
  inferInstanceAs (Decidable (r.isQuoted = true → holdsRun r.text = false))

/-- A round that reads no quotes has none in which a run could stand. -/
theorem quiet_of_not_opensQuotes {c : Char} (hc : opensQuotes c = false) (text : List Char)
    (t : Option Token) : (Round.mk (c :: text) t).Quiet := by
  intro hquoted
  have hopens : opensQuotes c = true := hquoted
  rw [hc] at hopens
  cases hopens

/-- A dash starts a comment, a number or nothing, in both texts the same. -/
theorem thinned_stepDash {s s' : List Char} (h : Thinned runs [] s s') :
    (stepDash s').1 = (stepDash s).1 ∧
      ∃ y, ';' ∉ y ∧ Thinned runs y (stepDash s).2 (stepDash s').2 := by
  cases h with
  | done => exact ⟨rfl, [], by simp, .done⟩
  | @keep d y s s' hstart hy hs =>
      -- A second dash opens a comment, a digit a negative number, and anything else leaves the dash
      -- without a meaning.
      by_cases hdash : d = '-'
      · subst hdash
        obtain rfl := eq_nil_of_drops rfl hy
        exact ⟨rfl, thinned_afterLine hs (by simp)⟩
      · by_cases hdigit : isAsciiDigit d = true
        · obtain ⟨hread, hleft⟩ := thinned_readDigits false (.keep hstart hy hs)
          have hnumber (s : List Char) : stepDash (d :: s) =
              (some (.number (String.ofList ('-' :: (readDigits false (d :: s)).1))),
                (readDigits false (d :: s)).2) := by
            simp [stepDash, hdash, hdigit]
          rw [hnumber, hnumber, hread]
          exact ⟨rfl, [], by simp, hleft⟩
        · have hother (s : List Char) : stepDash (d :: s) = (none, d :: s) := by
            simp [stepDash, hdash, hdigit]
          rw [hother, hother]
          exact ⟨rfl, [], by simp, .keep hstart hy hs⟩

/-- A slash starts a comment or nothing, in both texts the same. -/
theorem thinned_stepSlash {s s' : List Char} (h : Thinned runs [] s s') :
    Thinned runs [] (stepSlash s) (stepSlash s') := by
  cases h with
  | done => exact .done
  | @keep d y s s' hstart hy hs =>
      -- Only a star behind the slash opens a comment, and it is no character of a run.
      by_cases hstar : d = '*'
      · subst hstar
        exact thinned_afterBlock hs
      · have hother (s : List Char) : stepSlash (d :: s) = d :: s := by
          unfold stepSlash
          split
          · rename_i heq
            exact absurd (List.cons.inj heq).1 hstar
          · rfl
        rw [hother, hother]
        exact .keep hstart hy hs

/-- A name in brackets stays the same if no run stands in it. The brackets of an array are no name
and hold nothing. -/
theorem thinned_stepBracket {text left s' : List Char}
    (hleft : (stepBracket (text ++ left)).2 = left) (h : Thinned runs [] (text ++ left) s') :
    Thinned runs [] left (stepBracket s').2 ∧
      ((stepBracket s').1 = (stepBracket (text ++ left)).1 ↔ holdsRun ('[' :: text) = false) := by
  by_cases hclose : (text ++ left).head? = some ']'
  · -- The suffix of an array type.
    obtain ⟨more, hmore⟩ := List.head?_eq_some_iff.1 hclose
    rw [hmore] at h hleft ⊢
    obtain ⟨-, u, rfl, hu⟩ := h.of_not_isRunChar rfl
    obtain rfl : more = left := hleft
    obtain rfl : text = [']'] := List.append_cancel_right (hmore.trans (List.singleton_append).symm)
    exact ⟨hu, iff_of_true rfl rfl⟩
  · have hclose' : s'.head? ≠ some ']' := by
      rw [h.head?_eq]
      exact hclose
    rw [stepBracket_other hclose] at hleft ⊢
    rw [stepBracket_other hclose']
    obtain ⟨hrest, heq⟩ := thinned_quoted (c := '[') rfl rfl hleft h
    exact ⟨hrest, String.ofList_inj.trans heq⟩

/-- How a round that reads `t` off a text and stands in front of `left` goes with what a round reads
off the text with its runs shortened. -/
structure RoundFollows (c : Char) (text left : List Char) (t : Option Token)
    (read : Option Token × List Char) : Prop where
  left : ∃ y, (c ≠ ';' → ';' ∉ y) ∧ Thinned runs y left read.2
  isSome_eq : read.1.isSome = t.isSome
  eq_iff : read.1 = t ↔ (Round.mk (c :: text) t).Quiet

namespace RoundFollows

variable {c : Char} {text left y : List Char} {t : Option Token} {read : Option Token × List Char}

/-- A round that opens no quotes reads the same. -/
theorem of_plain (hc : opensQuotes c = false) (hread : read.1 = t) (hy : c ≠ ';' → ';' ∉ y)
    (hleft : Thinned runs y left read.2) : RoundFollows c text left t read where
  left := ⟨y, hy, hleft⟩
  isSome_eq := congrArg Option.isSome hread
  eq_iff := iff_of_true hread (quiet_of_not_opensQuotes hc text t)

/-- A round that opens quotes reads the same if they hold no run, and reads something in any
case. -/
theorem of_quoted (hc : opensQuotes c = true) (hsome : read.1.isSome = t.isSome)
    (heq : read.1 = t ↔ holdsRun (c :: text) = false) (hleft : Thinned runs [] left read.2) :
    RoundFollows c text left t read where
  left := ⟨[], fun _ => List.not_mem_nil, hleft⟩
  isSome_eq := hsome
  eq_iff := heq.trans ⟨fun h _ => h, fun h => h hc⟩

end RoundFollows

/-- A round on a text and on the text with its runs shortened, whose first character is kept. -/
theorem step_thinned {c : Char} {x text left s' : List Char} {t : Option Token}
    (hstep : step c (text ++ left) = (t, left)) (hx : ∀ d ∈ x, runs.drops c d = true)
    (h : Thinned runs x (text ++ left) s') : RoundFollows c text left t (step c s') := by
  -- The first character decides the kind of round for both texts, since it is the same in them.
  cases kind c with
  | one t' hc hstep' =>
      rw [hstep'] at hstep ⊢
      obtain ⟨rfl, hleft⟩ := Prod.mk.inj hstep
      exact .of_plain hc rfl (fun hne => semicolon_not_mem_of_drops hne hx) (hleft ▸ h)
  | dash hc hstep' =>
      subst hc
      obtain rfl := eq_nil_of_drops rfl hx
      obtain ⟨hread, y, hy, hleft⟩ := thinned_stepDash h
      rw [hstep'] at hstep ⊢
      rw [hstep] at hread hleft
      exact .of_plain rfl hread (fun _ => hy) hleft
  | slash hc hstep' =>
      subst hc
      obtain rfl := eq_nil_of_drops rfl hx
      have hleft := thinned_stepSlash h
      rw [hstep'] at hstep ⊢
      obtain ⟨rfl, hrest⟩ := Prod.mk.inj hstep
      rw [hrest] at hleft
      exact .of_plain rfl rfl (fun _ => List.not_mem_nil) hleft
  | hash hc hstep' =>
      subst hc
      obtain rfl := eq_nil_of_drops rfl hx
      obtain ⟨y, hy, hleft⟩ := thinned_afterLine h (by simp)
      rw [hstep'] at hstep ⊢
      obtain ⟨rfl, hrest⟩ := Prod.mk.inj hstep
      rw [hrest] at hleft
      exact .of_plain rfl rfl (fun _ => hy) hleft
  | name hc hstep' =>
      have hmark : isRunChar c = false ∧ opensQuotes c = true := by
        rcases hc with rfl | rfl <;> exact ⟨rfl, rfl⟩
      obtain rfl := eq_nil_of_drops hmark.1 hx
      rw [hstep'] at hstep ⊢
      obtain ⟨rfl, hrest⟩ := Prod.mk.inj hstep
      obtain ⟨hleft, heq⟩ := thinned_quoted hmark.1 hmark.1 hrest h
      exact .of_quoted hmark.2 rfl (by simp [← heq, String.ofList_inj]) hleft
  | bracket hc hstep' =>
      subst hc
      obtain rfl := eq_nil_of_drops rfl hx
      rw [hstep'] at hstep ⊢
      obtain ⟨rfl, hrest⟩ := Prod.mk.inj hstep
      obtain ⟨hleft, heq⟩ := thinned_stepBracket hrest h
      exact .of_quoted rfl rfl (by simp [← heq]) hleft
  | literal hc hstep' =>
      subst hc
      obtain rfl := eq_nil_of_drops rfl hx
      rw [hstep'] at hstep ⊢
      obtain ⟨rfl, hrest⟩ := Prod.mk.inj hstep
      obtain ⟨hleft, heq⟩ := thinned_quoted (c := '\'') rfl rfl hrest h
      exact .of_quoted rfl rfl (by simp [← heq, String.ofList_inj]) hleft
  | number hc hstep' =>
      obtain rfl := eq_nil_of_drops (not_isRunChar_of_isAsciiDigit hc) hx
      obtain ⟨hread, hleft⟩ := thinned_readDigits false h
      rw [hstep'] at hstep ⊢
      obtain ⟨rfl, hrest⟩ := Prod.mk.inj hstep
      rw [hrest] at hleft
      rw [hread]
      exact .of_plain (not_opensQuotes_of (by decide) hc) rfl (fun _ => List.not_mem_nil) hleft
  | word hc hstep' =>
      obtain rfl := eq_nil_of_drops (not_isRunChar_of_startsWord hc) hx
      obtain ⟨hread, hleft⟩ := thinned_dropWhile (fun c => not_isRunChar_of_continuesWord) h
      rw [hstep'] at hstep ⊢
      obtain ⟨rfl, hrest⟩ := Prod.mk.inj hstep
      rw [hrest] at hleft
      rw [hread]
      exact .of_plain (not_opensQuotes_of (by decide) hc) rfl (fun _ => List.not_mem_nil) hleft

/-! ### Runs of the lexer -/

/-- The tokens that the rounds read. -/
def tokensRead (rounds : List Round) : List Token := rounds.filterMap (·.token)

/-- The tokens of the first round come before those of the others. -/
theorem tokensRead_cons (r : Round) (rounds : List Round) :
    tokensRead (r :: rounds) = r.token.toList ++ tokensRead rounds := by
  unfold tokensRead
  cases h : r.token <;> simp [h]

/-- A character of a run is a semicolon or skipped. -/
theorem step_of_isRunChar {c : Char} (h : isRunChar c = true) (rest : List Char) :
    opensQuotes c = false ∧ step c rest = (if c = ';' then some .semicolon else none, rest) := by
  simp only [isRunChar, isBlankChar, Bool.or_eq_true, beq_iff_eq] at h
  rcases h with (rfl | rfl | rfl) | rfl <;> exact ⟨rfl, rfl⟩

/-- Lists that start with an option each are the same if the options and the rests are. -/
theorem toList_append_eq_iff {α : Type} {a b : Option α} (h : a.isSome = b.isSome)
    (s t : List α) : a.toList ++ s = b.toList ++ t ↔ a = b ∧ s = t := by
  cases a <;> cases b <;> simp_all

/-- How the lexer goes through a text without semicolons and through the text with its runs
shortened, when `x` has to be dropped in front of the text and `y` in front of what is left. -/
structure Follows (x y : List Char) (rounds rounds' : List Round) : Prop where
  length_eq : (tokensRead rounds').length = (tokensRead rounds).length
  eq_iff : tokensRead rounds' = tokensRead rounds ↔ ∀ r ∈ rounds, r.Quiet
  semicolon : ';' ∈ y → rounds = [] ∧ y = x

namespace Follows

variable {r r' : Round} {rounds rounds' : List Round} {x y z : List Char}

/-- A round that is made on both texts. -/
theorem cons (h : Follows z y rounds rounds') (hsome : r'.token.isSome = r.token.isSome)
    (heq : r'.token = r.token ↔ r.Quiet) (hz : ';' ∉ z) :
    Follows x y (r :: rounds) (r' :: rounds') where
  length_eq := by
    rw [tokensRead_cons, tokensRead_cons, List.length_append, List.length_append, h.length_eq,
      Option.length_toList, Option.length_toList, hsome]
  eq_iff := by
    rw [tokensRead_cons, tokensRead_cons, toList_append_eq_iff hsome, heq, h.eq_iff,
      List.forall_mem_cons]
  semicolon hmem := by
    obtain ⟨-, rfl⟩ := h.semicolon hmem
    exact absurd hmem hz

/-- A round on the text alone, which reads no token. -/
theorem cons_of_none (h : Follows z y rounds rounds') (hnone : r.token = none) (hquiet : r.Quiet)
    (hz : ';' ∉ z) : Follows x y (r :: rounds) rounds' where
  length_eq := by
    rw [tokensRead_cons, hnone]
    exact h.length_eq
  eq_iff := by
    rw [tokensRead_cons, hnone, List.forall_mem_cons, ← h.eq_iff]
    simp [hquiet]
  semicolon hmem := by
    obtain ⟨-, rfl⟩ := h.semicolon hmem
    exact absurd hmem hz

end Follows

/-- The lexer goes through a shortened text as it goes through the text. Where it reads no
semicolon, it reads the same tokens exactly when no run stands in quotes. -/
theorem Reads.thinned {s left : List Char} {rounds : List Round} (h : Reads s rounds left)
    {x s' : List Char} (hs : Thinned runs x s s') :
    ∃ y rounds' left', Reads s' rounds' left' ∧ Thinned runs y left left' ∧
      (Token.semicolon ∉ tokensRead rounds → Follows x y rounds rounds') := by
  induction h generalizing x s' with
  | done s => exact ⟨x, [], s', .done s', hs, fun _ => ⟨rfl, by simp, fun _ => ⟨rfl, rfl⟩⟩⟩
  | @round c text left s t rounds hstep h ih =>
      have hc (hsemicolon : t ≠ some .semicolon) : c ≠ ';' := by
        rintro rfl
        obtain ⟨-, hone⟩ := step_of_isRunChar (c := ';') rfl (text ++ left)
        exact hsemicolon (Prod.mk.inj (hone.symm.trans hstep)).1.symm
      cases hs with
      | @keep _ y _ s' hstart hy hs =>
          obtain ⟨⟨z, hz, hleft⟩, hsome, heq⟩ := step_thinned hstep hy hs
          obtain ⟨w, rounds', left', hreads, hw, hfollows⟩ := ih hleft
          -- The round on the shortened text consumes less, but also a beginning of what is there.
          obtain ⟨text', htext'⟩ := step_suffix c s'
          have hstep' : step c (text' ++ (step c s').2) = ((step c s').1, (step c s').2) := by
            rw [htext']
          have hround := Reads.round hstep' hreads
          rw [htext'] at hround
          refine ⟨w, _, left', hround, hw, fun hsemicolon => ?_⟩
          rw [tokensRead_cons, List.mem_append, not_or, Option.mem_toList] at hsemicolon
          exact (hfollows hsemicolon.2).cons hsome heq (hz (hc hsemicolon.1))
      | @drop first _ y _ _ hdrop hs =>
          -- The round reads the dropped character alone.
          have hchar := isRunChar_of_drops (hdrop c List.mem_cons_self)
          obtain ⟨hquotes, hone⟩ := step_of_isRunChar hchar.2 (text ++ left)
          obtain ⟨ht, hleft⟩ := Prod.mk.inj (hone.symm.trans hstep)
          rw [hleft] at hs
          obtain ⟨w, rounds', left', hreads, hw, hfollows⟩ := ih hs
          refine ⟨w, rounds', left', hreads, hw, fun hsemicolon => ?_⟩
          rw [tokensRead_cons, List.mem_append, not_or, Option.mem_toList] at hsemicolon
          have hne := hc hsemicolon.1
          have hnone : t = none := by
            rw [← ht, if_neg hne]
          -- Semicolons are dropped only after semicolons, and this is none.
          have hfirst : first ≠ ';' := by
            rintro rfl
            have hdropc := hdrop c List.mem_cons_self
            simp [runs, semicolonRuns, blankRuns, hne] at hdropc
          have hy : ';' ∉ y := fun hmem =>
            semicolon_not_mem_of_drops hfirst hdrop (List.mem_cons_of_mem c hmem)
          exact (hfollows hsemicolon.2).cons_of_none hnone (quiet_of_not_opensQuotes hquotes text t)
            hy

end EntityDiagram.Ddl.Token
