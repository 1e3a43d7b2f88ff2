import EntityDiagram.Sql.Literal

/-!
# `EntityDiagram.Proofs.Sql.Quote`: what stands outside of quotes, and what is open there

A scan over SQL text carries two things along: the quotes in which it is, and how deep it is in
parentheses (`Nesting`). A closing parenthesis that closes nothing leaves the depth at zero, so the
depth at the end is no plain difference of two counts. This module says without a scan where a text
ends, so that statements about what is quoted or enclosed need no state of the program.

* `quoteStep` and `outside` read the quotes alone: `outside none s` are the characters of `s` that
  are not quoted. What is quoted matters to no condition on a text, apart from being there.
* `AtTop s`: the quotes of `s` are closed, and so are its parentheses. The second part counts: in
  whatever ends the unquoted characters of `s`, no more parentheses open than close. A closing one
  that is too many makes up for nothing that opens behind it, which is why all ends are asked.
* `isTop_foldl_step_iff`: the scan of the program is at top level behind exactly these texts.

The counting lemma `depth_foldl_step_eq_zero_iff` is for any state to start from. Of a text that is
read from depth `d`, the whole has to close these `d` parentheses as well, and the proper ends have
to close only their own.
-/

set_option autoImplicit false

namespace EntityDiagram.Sql

/-! ### Quotes -/

/-- The mark that closes the quotes in which a reader is after one more character, if any. It looks
at nothing but the marks, and in quotes at nothing but the one that closes them. It knows no doubled
quotes: two marks close quotes and open new ones. -/
def quoteStep (quote : Option Char) (c : Char) : Option Char :=
  match quote with
  | some mark => if c == mark then none else some mark
  | none => if isQuote c then some c else none

/-- The characters of a text that stand outside of quotes, and the marks that open quotes. The first
argument says in which quotes the text starts. The marks that open quotes are kept, so that quotes
leave a trace of themselves and nothing of what they hold. -/
def outside : Option Char → List Char → List Char
  | _, [] => []
  | some mark, c :: s => outside (quoteStep (some mark) c) s
  | none, c :: s => c :: outside (quoteStep none c) s

/-- What is outside of quotes in the one text, and then in the other, which starts in the quotes
that the first one leaves open. So a text can be read piece by piece, if the mark is handed on. -/
theorem outside_append (quote : Option Char) (s t : List Char) :
    outside quote (s ++ t) = outside quote s ++ outside (s.foldl quoteStep quote) t := by
  induction s generalizing quote with
  | nil => cases quote <;> rfl
  | cons c s ih => cases quote <;> simp [outside, ih]

/-- Without a mark that opens quotes, everything is outside of them. In front of the first mark a
scan has nothing to hide. -/
theorem outside_of_plain {s : List Char} (h : ∀ c ∈ s, isQuote c = false) :
    s.foldl quoteStep none = none ∧ outside none s = s := by
  induction s with
  | nil => exact ⟨rfl, rfl⟩
  | cons c s ih =>
      obtain ⟨hclosed, hall⟩ := ih fun d hd => h d (by simp [hd])
      rw [List.foldl_cons, outside, quoteStep, h c (by simp), if_neg Bool.false_ne_true, hclosed,
        hall]
      exact ⟨rfl, rfl⟩

/-- Quotes hold everything up to their mark. -/
theorem outside_quoted {mark : Char} {s : List Char} (h : mark ∉ s) :
    s.foldl quoteStep (some mark) = some mark ∧ outside (some mark) s = [] := by
  induction s with
  | nil => exact ⟨rfl, rfl⟩
  | cons c s ih =>
      rw [List.mem_cons, not_or] at h
      rw [List.foldl_cons, outside, quoteStep, if_neg (by simpa using Ne.symm h.1)]
      exact ih h.2

/-- What is outside of quotes is there. Characters are dropped and none is made. -/
theorem mem_of_mem_outside {quote : Option Char} {s : List Char} {c : Char}
    (h : c ∈ outside quote s) : c ∈ s := by
  induction s generalizing quote with
  | nil => cases quote <;> cases h
  | cons d s ih =>
      cases quote with
      | some mark => exact List.mem_cons_of_mem _ (ih h)
      | none =>
          rcases List.mem_cons.1 h with rfl | h
          · exact List.mem_cons_self
          · exact List.mem_cons_of_mem _ (ih h)

/-! ### Parentheses -/

/-- In quotes only their mark counts, and no parenthesis does. The depth is kept until the quotes
are closed. -/
theorem step_quoted (d : Nat) (mark c : Char) :
    (⟨d, some mark⟩ : Nesting).step c = ⟨d, quoteStep (some mark) c⟩ := by
  show (if c == mark then (⟨d, none⟩ : Nesting) else ⟨d, some mark⟩) = _
  rw [quoteStep]
  split <;> rfl

/-- Outside of quotes, what is no parenthesis can open quotes. The depth stays. -/
theorem step_other (d : Nat) {c : Char} (hleft : c ≠ '(') (hright : c ≠ ')') :
    (⟨d, none⟩ : Nesting).step c = ⟨d, quoteStep none c⟩ := by
  show (if isQuote c then (⟨d, some c⟩ : Nesting) else if c == '(' then ⟨d + 1, none⟩
    else if c == ')' then ⟨d - 1, none⟩ else ⟨d, none⟩) = _
  rw [quoteStep]
  split <;> simp [hleft, hright]

/-- The quotes of a scan are those of the text, whatever its parentheses do. So quotes can be
followed by `quoteStep` alone, which is easier to reason about than the scan. -/
theorem quote_foldl_step (s : List Char) (n : Nesting) :
    (s.foldl Nesting.step n).quote = s.foldl quoteStep n.quote := by
  induction s generalizing n with
  | nil => rfl
  | cons c s ih =>
      rw [List.foldl_cons, List.foldl_cons, ih]
      obtain ⟨d, _ | mark⟩ := n
      · by_cases hleft : c = '('
        · subst hleft
          rfl
        · by_cases hright : c = ')'
          · subst hright
            rfl
          · rw [step_other d hleft hright]
      · rw [step_quoted]

/-- **When a text closes its parentheses.** Read from depth `d` it ends at depth zero exactly if its
unquoted characters close `d` parentheses more than they open, and no end of them opens more than it
closes. -/
theorem depth_foldl_step_eq_zero_iff (s : List Char) (d : Nat) (quote : Option Char) :
    (s.foldl Nesting.step ⟨d, quote⟩).depth = 0 ↔
      d + (outside quote s).count '(' ≤ (outside quote s).count ')' ∧
        ∀ t, t <:+ outside quote s → t.count '(' ≤ t.count ')' := by
  induction s generalizing d quote with
  | nil => cases quote <;> simp [outside]
  | cons c s ih =>
      rw [List.foldl_cons]
      cases quote with
      | some mark => rw [step_quoted, ih, outside]
      | none =>
          -- The new end is the whole text, so what is asked of the ends of the rest stays.
          have hends : (∀ t, t <:+ outside none (c :: s) → t.count '(' ≤ t.count ')') ↔
              (c :: outside (quoteStep none c) s).count '(' ≤
                  (c :: outside (quoteStep none c) s).count ')' ∧
                ∀ t, t <:+ outside (quoteStep none c) s → t.count '(' ≤ t.count ')' := by
            simp only [outside, List.suffix_cons_iff, forall_eq_or_imp]
          have hwhole (h : ∀ t, t <:+ outside (quoteStep none c) s → t.count '(' ≤ t.count ')') :=
            h _ List.suffix_rfl
          rw [hends, outside]
          by_cases hleft : c = '('
          · subst hleft
            rw [show (⟨d, none⟩ : Nesting).step '(' = ⟨d + 1, quoteStep none '('⟩ from rfl, ih]
            simp only [List.count_cons_self, List.count_cons_of_ne (show '(' ≠ ')' by decide)]
            constructor
            · rintro ⟨hcount, hrest⟩
              exact ⟨by omega, by omega, hrest⟩
            · rintro ⟨hcount, -, hrest⟩
              exact ⟨by omega, hrest⟩
          · by_cases hright : c = ')'
            · -- A parenthesis that closes nothing is the case in which the depth is zero already.
              subst hright
              rw [show (⟨d, none⟩ : Nesting).step ')' = ⟨d - 1, quoteStep none ')'⟩ from rfl, ih]
              simp only [List.count_cons_self, List.count_cons_of_ne (show ')' ≠ '(' by decide)]
              constructor
              · rintro ⟨hcount, hrest⟩
                have := hwhole hrest
                exact ⟨by omega, by omega, hrest⟩
              · rintro ⟨hcount, -, hrest⟩
                have := hwhole hrest
                exact ⟨by omega, hrest⟩
            · rw [step_other d hleft hright, ih, List.count_cons_of_ne hleft,
                List.count_cons_of_ne hright]
              constructor
              · rintro ⟨hcount, hrest⟩
                exact ⟨hcount, hwhole hrest, hrest⟩
              · rintro ⟨hcount, -, hrest⟩
                exact ⟨hcount, hrest⟩

/-! ### Top level -/

/-- Only the state at the start is at top level. -/
theorem Nesting.isTop_iff {n : Nesting} : n.isTop = true ↔ n = {} := by
  obtain ⟨depth, quote⟩ := n
  simp [isTop]

/-- Whether a text ends outside of quotes and of parentheses. Its quotes are closed, and in whatever
ends its unquoted characters no more parentheses open than close. Parentheses that close nothing are
allowed, as every end of the text is counted and not every front. No state of a scan is mentioned
here. -/
def AtTop (s : List Char) : Prop :=
  s.foldl quoteStep none = none ∧ ∀ t, t <:+ outside none s → t.count '(' ≤ t.count ')'

/-- **The scan is at top level behind exactly these texts.** This is what makes statements about
`AtTop` statements about the program. -/
theorem isTop_foldl_step_iff (s : List Char) :
    (s.foldl Nesting.step {}).isTop = true ↔ AtTop s := by
  have hdepth := depth_foldl_step_eq_zero_iff s 0 none
  have hquote := quote_foldl_step s {}
  rw [Nesting.isTop, Bool.and_eq_true, beq_iff_eq, hdepth, hquote, Option.isNone_iff_eq_none]
  constructor
  · rintro ⟨⟨-, hends⟩, hclosed⟩
    exact ⟨hclosed, hends⟩
  · rintro ⟨hclosed, hends⟩
    have hwhole := hends _ List.suffix_rfl
    exact ⟨⟨by omega, hends⟩, hclosed⟩

/-- A text ends at top level if the scan is back where it started. -/
theorem atTop_iff_foldl_step {s : List Char} : AtTop s ↔ s.foldl Nesting.step {} = {} :=
  (isTop_foldl_step_iff s).symm.trans Nesting.isTop_iff

-- Of two parentheses the one that closes comes first, so the other one stays open.
example : (")(".toList.foldl Nesting.step {}).isTop = false := by decide

end EntityDiagram.Sql
