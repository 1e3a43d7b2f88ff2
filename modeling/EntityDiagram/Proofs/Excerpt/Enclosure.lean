import EntityDiagram.Proofs.Excerpt.Comment
import EntityDiagram.Proofs.Sql.Quote
import Mathlib.Data.List.Chain

/-!
# `EntityDiagram.Proofs.Excerpt.Enclosure`: texts that stay inside a pair of parentheses

The body of a table ends at the parenthesis that closes the one in front of it. `closeGroup` finds
it by counting parentheses outside of quotes. This module says what it does with a text that is
made of parts. The conditions on a text are conditions on its characters outside of quotes
(`Sql.outside`): all that matters about the others is that they are there.

* `Bare s`: the quotes of the text are closed and no comment opens outside of them. Then there is
  none to strip (`Bare.stripComments_eq`).
* `StaysOpen n s n'`: the group that is open at `n` stays so over the text `s`. It composes along
  `++`, and `StaysOpen.of_count` decides it by counting parentheses in prefixes.
* `Inert s`: a text that does nothing to any of this.
* `closeGroup_append_of_some`, `StaysOpen.closeGroup_append`: where a group ends does not depend on
  what follows, and what is cut off in front of its end belongs to it.
-/

set_option autoImplicit false

namespace EntityDiagram.Excerpt

open Text (isSpace isWordChar)
open Sql (Nesting isQuote quoteStep outside outside_append outside_of_plain step_quoted step_other)

/-! ### Comments -/

/-- The state of the comment scan in these quotes. -/
def CommentMode.ofQuote : Option Char → CommentMode
  | none => .code
  | some mark => .quoted mark

/-- Where no comment opens outside of quotes, there is none to strip. -/
theorem stripFrom_eq_of_isChain {quote : Option Char} {s : List Char}
    (h : (outside quote s).IsChain fun c d => opensComment c d = false) :
    stripFrom (.ofQuote quote) s = s := by
  induction s generalizing quote with
  | nil => cases quote <;> rfl
  | cons c s ih =>
      cases quote with
      | some mark =>
          have hmode : CommentMode.ofQuote (quoteStep (some mark) c) =
              if c == mark then .code else .quoted mark := by
            rw [quoteStep]
            split <;> rfl
          rw [CommentMode.ofQuote, stripFrom, ← hmode, ih h]
      | none =>
          have hrest := ih h.tail
          by_cases hc : isQuote c = true
          · rw [quoteStep, if_pos hc] at hrest
            exact (stripFrom_mark hc s).trans (congrArg _ hrest)
          · rw [Bool.not_eq_true] at hc
            rw [quoteStep, hc, if_neg Bool.false_ne_true] at hrest
            -- Outside of quotes the next character is the next one outside of quotes.
            have hhead : ∀ d ∈ s.head?, opensComment c d = false := by
              intro d hd
              obtain ⟨more, rfl⟩ := List.head?_eq_some_iff.1 hd
              rw [outside, quoteStep, hc, if_neg Bool.false_ne_true, outside] at h
              exact h.rel_head? rfl
            exact (stripFrom_cons hc hhead).trans (congrArg _ hrest)

/-- What is neither a dash nor a slash opens no comment. -/
theorem not_opensComment_of_left {c : Char} (h : c ≠ '-' ∧ c ≠ '/') (d : Char) :
    opensComment c d = false := by
  simp [opensComment, h]

/-- No comment opens at what is neither a dash nor a star. -/
theorem not_opensComment_of_right {d : Char} (h : d ≠ '-' ∧ d ≠ '*') (c : Char) :
    opensComment c d = false := by
  simp [opensComment, h]

/-- A text whose quotes are closed and in which no comment opens outside of them. -/
structure Bare (s : List Char) : Prop where
  closed : s.foldl quoteStep none = none
  isChain : (outside none s).IsChain fun c d => opensComment c d = false

namespace Bare

variable {s t : List Char}

/-- There is no comment to strip. -/
theorem stripComments_eq (h : Bare s) : stripComments s = s := stripFrom_eq_of_isChain h.isChain

/-- One text after the other, if no comment opens between them. -/
theorem append (hs : Bare s) (ht : Bare t) (h : ∀ c ∈ (outside none s).getLast?,
    ∀ d ∈ (outside none t).head?, opensComment c d = false) : Bare (s ++ t) := by
  constructor
  · rw [List.foldl_append, hs.closed, ht.closed]
  · rw [outside_append, hs.closed]
    exact hs.isChain.append ht.isChain h

/-- A character that ends no comment opener may follow. -/
theorem append_cons {d : Char} (hd : d ≠ '-' ∧ d ≠ '*') (hs : Bare s) (ht : Bare (d :: t)) :
    Bare (s ++ d :: t) :=
  hs.append ht fun c _ e he => by
    obtain rfl := Option.some.inj he
    exact not_opensComment_of_right hd c

/-- A character that opens neither quotes nor a comment may stand in front. -/
theorem cons {c : Char} (hc : isQuote c = false ∧ c ≠ '-' ∧ c ≠ '/') (ht : Bare t) :
    Bare (c :: t) := by
  have hstep : quoteStep none c = none := by simp [quoteStep, hc.1]
  constructor
  · rw [List.foldl_cons, hstep, ht.closed]
  · rw [outside, hstep]
    exact ht.isChain.cons fun d _ => not_opensComment_of_left hc.2 d

/-- Texts that start with one and the same character, one after the other. -/
theorem flatMap {α : Type} {text : α → List Char} {d : Char} (hd : d ≠ '-' ∧ d ≠ '*')
    (hstart : ∀ x, ∃ s, text x = d :: s) (h : ∀ x, Bare (text x)) (xs : List α) :
    Bare (xs.flatMap text) := by
  induction xs with
  | nil => exact ⟨rfl, .nil⟩
  | cons x xs ih =>
      cases xs with
      | nil => simpa using h x
      | cons y ys =>
          obtain ⟨s, hs⟩ := hstart y
          have htext : (y :: ys).flatMap text = d :: (s ++ ys.flatMap text) := by
            rw [List.flatMap_cons, hs, List.cons_append]
          rw [List.flatMap_cons, htext]
          exact (h x).append_cons hd (htext ▸ ih)

end Bare

/-! ### Groups -/

/-- Without a closing parenthesis, no group is closed. -/
theorem depth_le_foldl_step {s : List Char} (h : ')' ∉ s) (n : Nesting) :
    n.depth ≤ (s.foldl Nesting.step n).depth := by
  induction s generalizing n with
  | nil => exact Nat.le_refl _
  | cons c s ih =>
      rw [List.mem_cons, not_or] at h
      refine Nat.le_trans ?_ (ih h.2 (n.step c))
      rcases n with ⟨d, _ | mark⟩
      · by_cases hleft : c = '('
        · subst hleft
          exact Nat.le_succ d
        · rw [step_other d hleft (Ne.symm h.1)]
      · rw [step_quoted]

/-- A group ends where it ends, whatever follows. -/
theorem closeGroup_append_of_some {n : Nesting} {s body tail : List Char}
    (h : closeGroup n s = some (body, tail)) (t : List Char) :
    closeGroup n (s ++ t) = some (body, tail ++ t) := by
  induction s generalizing n body with
  | nil => cases h
  | cons c s ih =>
      rw [closeGroup] at h
      rw [List.cons_append, closeGroup]
      split
      · rename_i hend
        rw [if_pos hend] at h
        cases h
        rfl
      · rename_i hend
        rw [if_neg hend] at h
        -- The first character does not close the group, so the rest of the text does.
        obtain ⟨cut, hcut, heq⟩ := Option.map_eq_some_iff.1 h
        cases heq
        rw [ih hcut]
        rfl

/-- What a group takes and what it leaves make the text. -/
theorem eq_of_closeGroup {n : Nesting} {s body tail : List Char}
    (h : closeGroup n s = some (body, tail)) : s = body ++ ')' :: tail := by
  induction s generalizing n body with
  | nil => cases h
  | cons c s ih =>
      rw [closeGroup] at h
      split at h
      · rename_i hend
        rw [Bool.and_eq_true, beq_iff_eq] at hend
        cases h
        rw [hend.1, List.nil_append]
      · obtain ⟨cut, hcut, heq⟩ := Option.map_eq_some_iff.1 h
        cases heq
        rw [ih hcut, List.cons_append]

/-- The group that is open at `n` is still open behind the text, which leads to `n'`. -/
structure StaysOpen (n : Nesting) (s : List Char) (n' : Nesting) : Prop where
  closeGroup_eq : closeGroup n s = none
  foldl_eq : s.foldl Nesting.step n = n'

namespace StaysOpen

variable {n n' n'' : Nesting} {s t : List Char}

/-- No text closes nothing. -/
theorem nil : StaysOpen n [] n := ⟨rfl, rfl⟩

/-- A character other than the closing parenthesis leaves the group open. -/
theorem cons {c : Char} (hc : (c == ')' && n.isTop) = false) (h : StaysOpen (n.step c) s n') :
    StaysOpen n (c :: s) n' := by
  constructor
  · rw [closeGroup, hc, if_neg Bool.false_ne_true, h.closeGroup_eq]
    rfl
  · exact h.foldl_eq

/-- What follows a text over which the group stays open decides where it ends. -/
theorem closeGroup_append (h : StaysOpen n s n') (t : List Char) :
    closeGroup n (s ++ t) = (closeGroup n' t).map fun cut => (s ++ cut.1, cut.2) := by
  obtain ⟨hopen, rfl⟩ := h
  induction s generalizing n with
  | nil =>
      rw [List.nil_append, List.foldl_nil]
      cases closeGroup n t <;> rfl
  | cons c s ih =>
      rw [closeGroup] at hopen
      rw [List.cons_append, closeGroup]
      split
      · rename_i hend
        -- It would have been closed here, which the hypothesis rules out.
        rw [if_pos hend] at hopen
        cases hopen
      · rename_i hend
        rw [if_neg hend, Option.map_eq_none_iff] at hopen
        rw [ih hopen, List.foldl_cons]
        cases closeGroup (s.foldl Nesting.step (n.step c)) t <;> rfl

/-- One text after the other. -/
theorem append (h : StaysOpen n s n') (h' : StaysOpen n' t n'') : StaysOpen n (s ++ t) n'' := by
  constructor
  · rw [h.closeGroup_append, h'.closeGroup_eq]
    rfl
  · rw [List.foldl_append, h.foldl_eq, h'.foldl_eq]

/-- The closing parenthesis ends the group. -/
theorem closeGroup_close (h : StaysOpen n s ⟨0, none⟩) (tail : List Char) :
    closeGroup n (s ++ ')' :: tail) = some (s, tail) := by
  have hclose : closeGroup ⟨0, none⟩ (')' :: tail) = some ([], tail) := rfl
  rw [h.closeGroup_append, hclose]
  simp

/-- A group stays open over a text in which, up to every point, at most as many parentheses are
closed outside of quotes as are opened there or are open already. -/
theorem of_count {d : Nat} {q : Option Char} {s : List Char}
    (h : ∀ p, p <+: outside q s → p.count ')' ≤ d + p.count '(') :
    ∃ d', StaysOpen ⟨d, q⟩ s ⟨d', s.foldl quoteStep q⟩ ∧
      d' + (outside q s).count ')' = d + (outside q s).count '(' := by
  induction s generalizing d q with
  | nil => exact ⟨d, .nil, by cases q <;> rfl⟩
  | cons c s ih =>
      cases q with
      | some mark =>
          obtain ⟨d', hopen, hcount⟩ := ih h
          exact ⟨d', .cons (by simp [Nesting.isTop]) (step_quoted d mark c ▸ hopen), hcount⟩
      | none =>
          have hprefix (p : List Char) (hp : p <+: outside (quoteStep none c) s) :
              (c :: p).count ')' ≤ d + (c :: p).count '(' :=
            h (c :: p) (List.cons_prefix_cons.2 ⟨rfl, hp⟩)
          rw [outside, List.foldl_cons]
          -- Only parentheses count, and the closing one has to find another one open.
          by_cases hleft : c = '('
          · subst hleft
            simp only [List.count_cons_self, List.count_cons_of_ne (by decide : '(' ≠ ')')]
              at hprefix ⊢
            obtain ⟨d', hopen, hcount⟩ := ih (d := d + 1) fun p hp => by
              have := hprefix p hp
              omega
            exact ⟨d', .cons rfl hopen, by omega⟩
          by_cases hright : c = ')'
          · subst hright
            simp only [List.count_cons_self, List.count_cons_of_ne (by decide : ')' ≠ '(')]
              at hprefix ⊢
            have hpos := hprefix [] List.nil_prefix
            rw [List.count_nil, List.count_nil] at hpos
            obtain ⟨d', hopen, hcount⟩ := ih (d := d - 1) fun p hp => by
              have := hprefix p hp
              omega
            have htop : (⟨d, none⟩ : Nesting).isTop = false := by
              simp only [Nesting.isTop, Option.isNone_none, Bool.and_true, beq_eq_false_iff_ne]
              omega
            exact ⟨d', .cons (by simp [htop]) hopen, by omega⟩
          · simp only [List.count_cons_of_ne hleft, List.count_cons_of_ne hright] at hprefix ⊢
            obtain ⟨d', hopen, hcount⟩ := ih hprefix
            exact ⟨d', .cons (by simp [hright]) (step_other d hleft hright ▸ hopen), hcount⟩

/-- A group stays open over a text without parentheses outside of quotes. -/
theorem of_notMem {d : Nat} {q : Option Char} {s : List Char}
    (h : ∀ c ∈ outside q s, c ≠ '(' ∧ c ≠ ')') :
    StaysOpen ⟨d, q⟩ s ⟨d, s.foldl quoteStep q⟩ := by
  have hleft : (outside q s).count '(' = 0 := List.count_eq_zero.2 fun hc => (h _ hc).1 rfl
  have hright : (outside q s).count ')' = 0 := List.count_eq_zero.2 fun hc => (h _ hc).2 rfl
  obtain ⟨d', hstays, hcount⟩ := of_count (d := d) (q := q) (s := s) fun p hp => by
    have := hp.sublist.count_le ')'
    omega
  rwa [show d' = d by omega] at hstays

end StaysOpen

/-! ### Inert texts -/

/-- A text that the scans step over: its quotes are closed, and no character outside of them counts
as a parenthesis or starts a comment. -/
structure Inert (s : List Char) : Prop where
  closed : s.foldl quoteStep none = none
  notMem : ∀ c ∈ outside none s, c ∉ ['-', '/', '(', ')']

namespace Inert

variable {s t : List Char}

/-- Plain characters do nothing. -/
theorem of_all (h : (s.all fun c => !isQuote c && decide (c ∉ ['-', '/', '(', ')'])) = true) :
    Inert s := by
  have hchar : ∀ c ∈ s, isQuote c = false ∧ c ∉ ['-', '/', '(', ')'] := by
    intro c hc
    have hboth := List.all_eq_true.1 h c hc
    rwa [Bool.and_eq_true, Bool.not_eq_true', decide_eq_true_eq] at hboth
  obtain ⟨hclosed, hall⟩ := outside_of_plain fun c hc => (hchar c hc).1
  exact ⟨hclosed, fun c hc => (hchar c (hall ▸ hc)).2⟩

/-- Words and white space open and close nothing. -/
theorem of_plain {s : List Char} (h : ∀ c ∈ s, isWordChar c = true ∨ isSpace c = true) :
    Inert s := by
  refine Inert.of_all (List.all_eq_true.2 fun c hc => ?_)
  have key : (!isQuote c && decide (c ∉ ['-', '/', '(', ')'])) = true := by
    have hnot : c ∉ ['\'', '"', '`', '-', '/', '(', ')'] := by
      intro hmem
      simp only [List.mem_cons, List.not_mem_nil, or_false] at hmem
      rcases hmem with rfl | rfl | rfl | rfl | rfl | rfl | rfl <;>
        exact absurd (h _ hc) (by decide)
    simp only [List.mem_cons, List.not_mem_nil, or_false, not_or] at hnot
    simp [isQuote, hnot]
  exact key

/-- One inert text after the other. -/
theorem append (hs : Inert s) (ht : Inert t) : Inert (s ++ t) := by
  constructor
  · rw [List.foldl_append, hs.closed, ht.closed]
  · intro c hc
    rw [outside_append, hs.closed] at hc
    rcases List.mem_append.1 hc with hc | hc
    · exact hs.notMem c hc
    · exact ht.notMem c hc

/-- No comment opens in an inert text, nor at its end. -/
theorem bare_append (hs : Inert s) (ht : Bare t) : Bare (s ++ t) := by
  have hdash : ∀ c ∈ outside none s, c ≠ '-' ∧ c ≠ '/' := by
    intro c hc
    have hnot := hs.notMem c hc
    simp only [List.mem_cons, List.not_mem_nil, or_false, not_or] at hnot
    exact ⟨hnot.1, hnot.2.1⟩
  -- An inert text holds neither a dash nor a slash outside of quotes, so no comment begins in it
  -- nor where it ends.
  have hbare : Bare s := by
    refine ⟨hs.closed, ?_⟩
    generalize outside none s = u at hdash
    induction u with
    | nil => exact .nil
    | cons c u ih =>
        exact .cons (ih fun d hd => hdash d (by simp [hd])) fun d _ =>
          not_opensComment_of_left (hdash c (by simp)) d
  exact hbare.append ht fun c hc d _ =>
    not_opensComment_of_left (hdash c (List.mem_of_getLast? hc)) d

/-- No comment opens in an inert text. -/
theorem bare (hs : Inert s) : Bare s := by
  have hnil := hs.bare_append (t := []) ⟨rfl, .nil⟩
  rwa [List.append_nil] at hnil

/-- An inert text changes nothing about what is open. -/
theorem staysOpen (hs : Inert s) (d : Nat) : StaysOpen ⟨d, none⟩ s ⟨d, none⟩ := by
  have hstays := StaysOpen.of_notMem (d := d) (q := none) (s := s) fun c hc => by
    have hnot := hs.notMem c hc
    simp only [List.mem_cons, List.not_mem_nil, or_false, not_or] at hnot
    exact hnot.2.2
  rwa [hs.closed] at hstays

end Inert

end EntityDiagram.Excerpt
