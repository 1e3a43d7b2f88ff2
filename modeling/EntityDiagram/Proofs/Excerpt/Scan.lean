import EntityDiagram.Excerpt.Scan
import EntityDiagram.Proofs.Ddl.PlainTable
import EntityDiagram.Proofs.Excerpt.LexemeSearch

/-!
# `EntityDiagram.Proofs.Excerpt.Scan`: cutting tables in plain notation out of a text

A scan counts parentheses and minds quotes, and so finds the end of a table body and the commas
between its elements. `Passes n s n'` says that the count goes from `n` to `n'` over the text `s`
without a comma or closing parenthesis at top level on the way. The elements of a plain table pass
(`passes_spaced`, `depthAfter_element`), so

* `closeGroup_body`: the body of a table ends at its parenthesis;
* `splitTopLevel_body`: it is split into its elements;
* `scan_spaced`: and the scan of a script cuts out each of its tables, and nothing else.

A count of parentheses is a function of the text, so that it could be computed for a given body; for
all bodies it is composed. Lexemes that are no parenthesis leave the count as it is, quoted names
leave it as it is with whatever they hold, and a list in parentheses comes back to where it was. The
statements `passes_` and `depthAfter_` come in pairs, since the body must end where the count comes
to nothing and must be split only where it is at top level.
-/

set_option autoImplicit false

namespace EntityDiagram.Excerpt

open Text (isSpace isWordChar Pattern Place Span)
open Text.Pattern
open Sql (Nesting piecesFrom splitTopLevel isQuote)
open Ddl (PlainLexeme PlainElement PlainTable QuotedName Spaced Stops)

/-! ### Comments -/

/-- Where no comment opens, nothing is stripped. -/
theorem stripFrom_eq_self {s : List Char} (h : ∀ c ∈ s, c ∉ ['-', '/', '\'', '"']) :
    stripFrom .code s = s ∧ ∀ mark, stripFrom (.quoted mark) s = s := by
  induction s with
  | nil => exact ⟨rfl, fun _ => rfl⟩
  | cons c s ih =>
      obtain ⟨hcode, hquoted⟩ := ih fun d hd => h d (by simp [hd])
      have hc := h c (by simp)
      simp only [List.mem_cons, List.not_mem_nil, or_false, not_or] at hc
      -- Both modes have to be known of the shorter text, since a quote mark leads from one to the
      -- other.
      constructor
      · have hstep : stripFrom .code (c :: s) =
            if isQuote c then c :: stripFrom (.quoted c) s else c :: stripFrom .code s := by
          rw [stripFrom]
          · exact fun _ hdash => absurd hdash hc.1
          · exact fun _ hslash => absurd hslash hc.2.1
        rw [hstep, hquoted, hcode, ite_self]
      · intro mark
        rw [stripFrom]
        split
        · rw [hcode]
        · rw [hquoted]

/-- A text in plain notation has no comments. -/
theorem stripComments_spaced {ls : List PlainLexeme} {s : List Char} (h : Spaced ls s) :
    stripComments s = s := by
  refine (stripFrom_eq_self (h.forall_chars (fun c hc => ?_) fun l _ c hc =>
    (l.chars_facts c hc).2)).1
  intro hmem
  simp only [List.mem_cons, List.not_mem_nil, or_false] at hmem
  rcases hmem with rfl | rfl | rfl | rfl <;> exact absurd hc (by decide)

/-! ### Nesting -/

/-- The scan goes over the text from one state to another and meets neither a comma nor a closing
parenthesis at top level. -/
inductive Passes : Nesting → List Char → Nesting → Prop where
  | nil {n : Nesting} : Passes n [] n
  | cons {n n' : Nesting} {c : Char} {s : List Char}
      (hc : n.isTop = true → c ≠ ',' ∧ c ≠ ')') (h : Passes (n.step c) s n') : Passes n (c :: s) n'

namespace Passes

variable {n n' n'' : Nesting} {s t : List Char}

/-- One text after the other. -/
theorem append (h : Passes n s n') (h' : Passes n' t n'') : Passes n (s ++ t) n'' := by
  induction h with
  | nil => exact h'
  | cons hc _ ih => exact .cons hc (ih h')

/-- A text that passes stays inside the group. -/
theorem closeGroup_append (h : Passes n s n') :
    closeGroup n (s ++ t) = (closeGroup n' t).map fun cut => (s ++ cut.1, cut.2) := by
  induction h with
  | @nil n =>
      rw [List.nil_append]
      cases closeGroup n t <;> rfl
  | @cons n n' c s hc _ ih =>
      have hstop : ¬(c == ')' && n.isTop) = true := by
        intro hstop
        rw [Bool.and_eq_true, beq_iff_eq] at hstop
        exact (hc hstop.2).2 hstop.1
      rw [List.cons_append, closeGroup, if_neg hstop, ih]
      cases closeGroup n' t <;> rfl

/-- A text that passes stays inside the piece. -/
theorem piecesFrom_append (h : Passes n s n') {piece : List Char} {more : List (List Char)}
    (ht : piecesFrom n' t = piece :: more) : piecesFrom n (s ++ t) = (s ++ piece) :: more := by
  induction h with
  | nil => exact ht
  | @cons n n' c s hc _ ih =>
      have hstop : ¬(c == ',' && n.isTop) = true := by
        intro hstop
        rw [Bool.and_eq_true, beq_iff_eq] at hstop
        exact (hc hstop.2).1 hstop.1
      rw [List.cons_append, piecesFrom, if_neg hstop, ih ht]
      rfl

/-- Characters that are neither quotes nor parentheses nor commas pass. -/
theorem of_notMem {d : Nat} (h : ∀ c ∈ s, c ∉ ['(', ')', ',', '`', '\'', '"']) :
    Passes ⟨d, none⟩ s ⟨d, none⟩ := by
  induction s with
  | nil => exact .nil
  | cons c s ih =>
      have hc := h c (by simp)
      simp only [List.mem_cons, List.not_mem_nil, or_false, not_or] at hc
      obtain ⟨hopen, hclose, hcomma, htick, hquote, hdouble⟩ := hc
      have hstep : (⟨d, none⟩ : Nesting).step c = ⟨d, none⟩ := by
        simp [Nesting.step, hopen, hclose, htick, hquote, hdouble]
      exact .cons (fun _ => ⟨hcomma, hclose⟩) (by
        rw [hstep]
        exact ih fun e he => h e (by simp [he]))

/-- Quotes that are open stay so up to their mark. -/
theorem of_quoted {d : Nat} {mark : Char} (h : mark ∉ s) :
    Passes ⟨d, some mark⟩ s ⟨d, some mark⟩ := by
  induction s with
  | nil => exact .nil
  | cons c s ih =>
      rw [List.mem_cons, not_or] at h
      have hstep : (⟨d, some mark⟩ : Nesting).step c = ⟨d, some mark⟩ := by
        simp [Nesting.step, Ne.symm h.1]
      exact .cons (fun htop => by simp [Nesting.isTop] at htop) (by
        rw [hstep]
        exact ih h.2)

end Passes

/-- How many parentheses are open after a lexeme, unless it is a comma or closing parenthesis
where none is open. -/
def depthStep (d : Nat) : PlainLexeme → Option Nat
  | .openParen => some (d + 1)
  | .closeParen => if d = 0 then none else some (d - 1)
  | .comma => if d = 0 then none else some d
  | _ => some d

/-- How many parentheses are open after the lexemes, unless there is a comma or closing parenthesis
among them where none is open. -/
def depthAfter (d : Nat) (ls : List PlainLexeme) : Option Nat := ls.foldlM depthStep d

/-- The depth after one more lexeme. -/
@[simp] theorem depthAfter_cons (d : Nat) (l : PlainLexeme) (ls : List PlainLexeme) :
    depthAfter d (l :: ls) = (depthStep d l).bind (depthAfter · ls) := List.foldlM_cons

/-- The depth after two lists of lexemes. -/
@[simp] theorem depthAfter_append (d : Nat) (ls ls' : List PlainLexeme) :
    depthAfter d (ls ++ ls') = (depthAfter d ls).bind (depthAfter · ls') := List.foldlM_append

/-- No lexemes leave the depth as it is. -/
@[simp] theorem depthAfter_nil (d : Nat) : depthAfter d [] = some d := rfl

/-- A lexeme passes as it counts. -/
theorem PlainLexeme.passes {l : PlainLexeme} {d d' : Nat} (h : depthStep d l = some d') :
    Passes ⟨d, none⟩ l.chars ⟨d', none⟩ := by
  -- The characters of words and numbers mean nothing to the count.
  have run {r : List Char} (hrun : l.run? = some r) (hd : d' = d) :
      Passes ⟨d, none⟩ l.chars ⟨d', none⟩ := by
    obtain ⟨hchars, -, hplain⟩ := PlainLexeme.run?_facts hrun
    rw [hchars, hd]
    refine Passes.of_notMem fun c hc hmem => ?_
    have hnot := Ddl.isPlain_notMem (hplain c hc).1
    simp only [List.mem_cons, List.not_mem_nil, or_false, not_or] at hmem hnot
    tauto
  cases l with
  | keyword k => exact run rfl (Option.some.inj h).symm
  | word w hw => exact run rfl (Option.some.inj h).symm
  | numeral n => exact run rfl (Option.some.inj h).symm
  | name n =>
      obtain rfl := Option.some.inj h
      have hmark : '`' ∉ n.text.toList := by
        intro hmem
        exact absurd (Ddl.isNameChar_facts (n.isNameChar _ hmem)).2.1 (by decide)
      have hclose : Passes ⟨d, some '`'⟩ ['`'] ⟨d, none⟩ :=
        .cons (fun htop => by simp [Nesting.isTop] at htop) .nil
      exact .cons (fun _ => by decide) ((Passes.of_quoted hmark).append hclose)
  | openParen =>
      obtain rfl := Option.some.inj h
      exact .cons (fun _ => by decide) .nil
  | closeParen =>
      rw [depthStep] at h
      split at h
      · cases h
      · rename_i hd
        obtain rfl := Option.some.inj h
        exact .cons (fun htop => by simp [Nesting.isTop, hd] at htop) .nil
  | comma =>
      rw [depthStep] at h
      split at h
      · cases h
      · rename_i hd
        obtain rfl := Option.some.inj h
        exact .cons (fun htop => by simp [Nesting.isTop, hd] at htop) .nil
  | semicolon =>
      obtain rfl := Option.some.inj h
      exact .cons (fun _ => by decide) .nil

/-- White space passes. -/
theorem Passes.of_isSpace {d : Nat} {g : List Char} (hg : ∀ c ∈ g, isSpace c = true) :
    Passes ⟨d, none⟩ g ⟨d, none⟩ := by
  refine .of_notMem fun c hc hmem => ?_
  have hspace := hg c hc
  simp only [List.mem_cons, List.not_mem_nil, or_false] at hmem
  rcases hmem with rfl | rfl | rfl | rfl | rfl | rfl <;> exact absurd hspace (by decide)

/-- A text in plain notation passes as its lexemes count. -/
theorem passes_spaced {ls : List PlainLexeme} {s : List Char} (h : Spaced ls s) {d d' : Nat}
    (hd : depthAfter d ls = some d') : Passes ⟨d, none⟩ s ⟨d', none⟩ := by
  induction h generalizing d with
  | nil =>
      obtain rfl := Option.some.inj hd
      exact .nil
  | @space c ls s hc h ih =>
      have hspace : Passes ⟨d, none⟩ [c] ⟨d, none⟩ := Passes.of_isSpace (by simpa using hc)
      exact hspace.append (ih hd)
  | @lexeme l ls s hl h ih =>
      rw [depthAfter_cons] at hd
      obtain ⟨e, he, hd⟩ := Option.bind_eq_some_iff.1 hd
      exact (PlainLexeme.passes he).append (ih hd)

/-! ### Elements -/

/-- Inside of parentheses, commas count for nothing. -/
theorem depthAfter_separated {parts : List (List PlainLexeme)} {d : Nat} (hd : d ≠ 0)
    (h : ∀ part ∈ parts, depthAfter d part = some d) :
    depthAfter d (PlainLexeme.separated parts) = some d := by
  induction parts with
  | nil => rfl
  | cons part parts ih =>
      cases parts with
      | nil => exact h part (by simp)
      | cons next more =>
          rw [PlainLexeme.separated, depthAfter_append, h part (by simp), Option.bind_some,
            depthAfter_cons, depthStep, if_neg hd, Option.bind_some]
          exact ih fun p hp => h p (List.mem_cons_of_mem _ hp)

/-- A list of names is one group. -/
@[simp] theorem depthAfter_nameList (d : Nat) (ns : List QuotedName) :
    depthAfter d (PlainLexeme.nameList ns) = some d := by
  have hinner : depthAfter (d + 1) (PlainLexeme.separated (ns.map fun n => [.name n])) =
      some (d + 1) := by
    refine depthAfter_separated (by omega) fun part hpart => ?_
    obtain ⟨n, -, rfl⟩ := List.mem_map.1 hpart
    rfl
  simp [PlainLexeme.nameList, depthStep, hinner]

/-- The arguments of a type are one group, if there are any. -/
@[simp] theorem depthAfter_argumentLexemes (d : Nat) (ns : List Ddl.Numeral) :
    depthAfter d (Ddl.PlainType.argumentLexemes ns) = some d := by
  cases ns with
  | nil => rfl
  | cons n ns =>
      have hinner : depthAfter (d + 1)
          (PlainLexeme.separated ((n :: ns).map fun n => [.numeral n])) = some (d + 1) := by
        refine depthAfter_separated (by omega) fun part hpart => ?_
        obtain ⟨n, -, rfl⟩ := List.mem_map.1 hpart
        rfl
      rw [Ddl.PlainType.argumentLexemes, List.cons_append, depthAfter_cons, depthStep,
        Option.bind_some, depthAfter_append, hinner]
      rfl

/-- Words leave the depth as it is. -/
theorem depthAfter_words {ls : List PlainLexeme} (h : ∀ l ∈ ls, l.isWord = true) (d : Nat) :
    depthAfter d ls = some d := by
  induction ls with
  | nil => rfl
  | cons l ls ih =>
      have hl : depthStep d l = some d := by
        have hword := h l (by simp)
        cases l <;> first | rfl | cases hword
      rw [depthAfter_cons, hl, Option.bind_some, ih fun l' hl' => h l' (by simp [hl'])]

/-- The options of a column are words. -/
theorem isWord_options (os : List Ddl.PlainOption) :
    ∀ l ∈ os.flatMap Ddl.PlainOption.lexemes, l.isWord = true := by
  intro l hl
  obtain ⟨o, -, ho⟩ := List.mem_flatMap.1 hl
  cases o <;> simp only [Ddl.PlainOption.lexemes, List.mem_cons, List.not_mem_nil, or_false] at ho
  all_goals rcases ho with rfl | rfl <;> rfl

/-- The actions of a foreign key are words. -/
theorem isWord_plainClauses (updateFirst : Bool) (onDelete onUpdate : Option Ddl.ReferenceAction) :
    ∀ l ∈ Ddl.ReferenceAction.plainClauses updateFirst onDelete onUpdate, l.isWord = true := by
  have clause (event : Ddl.KeyEvent) (a : Ddl.ReferenceAction) :
      ∀ l ∈ Ddl.ReferenceAction.plainClause event (some a), l.isWord = true := by
    cases a <;> cases event <;> decide
  intro l hl
  obtain ⟨event, a, hl⟩ := Ddl.ReferenceAction.mem_plainClauses hl
  exact clause event a l hl

/-- An element of a table passes. -/
theorem depthAfter_element (e : PlainElement) : depthAfter 0 e.lexemes = some 0 := by
  have constraint (n : Option QuotedName) :
      depthAfter 0 (PlainLexeme.constraintClause n) = some 0 := by
    cases n <;> rfl
  cases e with
  | column c =>
      simp [PlainElement.lexemes, Ddl.PlainColumn.lexemes, Ddl.PlainType.lexemes, depthStep,
        depthAfter_words (isWord_options c.options)]
  | primaryKey n columns => simp [PlainElement.lexemes, constraint, depthStep]
  | foreignKey n columns r =>
      simp [PlainElement.lexemes, Ddl.PlainReference.lexemes, constraint, depthStep,
        depthAfter_words (isWord_plainClauses _ _ _)]

/-! ### Bodies -/

/-- The text of an element opens nothing that it does not close. -/
theorem passes_elements {es : List PlainElement} {xs : List (List Char)}
    (h : List.Forall₂ Spaced (es.map PlainElement.lexemes) xs) : ∀ x ∈ xs, Passes {} x {} := by
  intro x hx
  obtain ⟨ls, hls, hx⟩ := Text.exists_rel_of_mem h hx
  obtain ⟨e, -, rfl⟩ := List.mem_map.1 hls
  exact passes_spaced hx (depthAfter_element e)

/-- The body of a table ends at the first parenthesis behind its elements. -/
theorem closeGroup_body {es : List PlainElement} {body : List Char}
    (h : Spaced (PlainLexeme.separated (es.map PlainElement.lexemes)) body) (tail : List Char) :
    closeGroup {} (body ++ ')' :: tail) = some (body, tail) := by
  have close (tail : List Char) : closeGroup {} (')' :: tail) = some ([], tail) := rfl
  by_cases hes : es = []
  · subst hes
    have hpasses : Passes {} body {} := Passes.of_isSpace h.isSpace_of_nil
    rw [hpasses.closeGroup_append, close]
    simp
  · obtain ⟨xs, rfl, hxs⟩ := h.exists_joinWith (by simpa using hes)
    have hpass := passes_elements hxs
    -- On the elements: each of them passes, and a comma does not end the group.
    clear h hxs hes
    induction xs with
    | nil => exact close tail
    | cons x xs ih =>
        cases xs with
        | nil =>
            rw [Text.joinWith_singleton, (hpass x (by simp)).closeGroup_append, close]
            simp
        | cons next more =>
            have hcomma (t : List Char) : closeGroup {} (',' :: t) =
                (closeGroup {} t).map fun cut => (',' :: cut.1, cut.2) := rfl
            have hrest := ih fun x hx => hpass x (List.mem_cons_of_mem _ hx)
            rw [Text.joinWith_cons_cons, List.append_assoc, List.append_assoc,
              (hpass x (by simp)).closeGroup_append, List.singleton_append, hcomma, hrest]
            simp

/-- Texts that pass are the pieces between the commas that join them. -/
theorem piecesFrom_joinWith {xs : List (List Char)} (hne : xs ≠ [])
    (h : ∀ x ∈ xs, Passes {} x {}) : piecesFrom {} (Text.joinWith [','] xs) = xs := by
  have hend : piecesFrom {} [] = [[]] := rfl
  induction xs with
  | nil => exact absurd rfl hne
  | cons x xs ih =>
      cases xs with
      | nil =>
          rw [Text.joinWith_singleton, ← List.append_nil x,
            (h x (by simp)).piecesFrom_append hend]
      | cons next more =>
          have hcomma (t : List Char) : piecesFrom {} (',' :: t) = [] :: piecesFrom {} t := rfl
          have hrest := ih (by simp) fun x hx => h x (List.mem_cons_of_mem _ hx)
          rw [Text.joinWith_cons_cons, List.singleton_append, (h x (by simp)).piecesFrom_append
            ((hcomma _).trans (congrArg _ hrest)), List.append_nil]

/-- The lexemes of an element start with one. -/
theorem exists_lexemes_eq (e : PlainElement) : ∃ l ls, e.lexemes = l :: ls := by
  cases e with
  | column c => exact ⟨_, _, rfl⟩
  | primaryKey n columns => cases n <;> exact ⟨_, _, rfl⟩
  | foreignKey n columns r => cases n <;> exact ⟨_, _, rfl⟩

/-- The body of a table is split into its elements, without white space in front. The lists in
parentheses that an element may have are no places to split at. -/
theorem splitTopLevel_body {es : List PlainElement} {body : List Char}
    (h : Spaced (PlainLexeme.separated (es.map PlainElement.lexemes)) body) :
    List.Forall₂ (fun (e : PlainElement) part => Spaced e.lexemes part ∧
      ∀ c ∈ part.head?, isSpace c = false) es (splitTopLevel body) := by
  by_cases hes : es = []
  · subst hes
    have hspaces := h.isSpace_of_nil
    have hpasses : Passes {} body {} := Passes.of_isSpace hspaces
    have hpieces : piecesFrom {} body = [body] := by
      rw [← List.append_nil body, hpasses.piecesFrom_append rfl]
    have hpadded : Text.Padded [] body := ⟨body, [], by simp, hspaces, by simp⟩
    have htrim : Text.trim body = [] := hpadded.trim_eq (by simp)
    rw [splitTopLevel, hpieces, List.map_singleton, htrim]
    exact .nil
  · obtain ⟨xs, rfl, hxs⟩ := h.exists_joinWith (by simpa using hes)
    have hpass := passes_elements hxs
    have hne : xs ≠ [] := by
      rintro rfl
      cases es with
      | nil => exact hes rfl
      | cons e es => cases hxs
    rw [splitTopLevel, piecesFrom_joinWith hne hpass]
    clear h hes hpass hne
    rw [List.forall₂_map_left_iff] at hxs
    induction hxs with
    | nil => exact .nil
    | @cons e x es xs hx _ ih =>
        -- A part that holds lexemes is not blank.
        have hpart : Text.trim x ≠ [] := by
          intro hnil
          have htrim := hx.trim.1
          obtain ⟨l, ls, heq⟩ := exists_lexemes_eq e
          rw [hnil, heq] at htrim
          obtain ⟨g, t, ht, -⟩ := htrim.exists_cons
          have hchars : l.chars = [] := by
            have := (List.append_eq_nil_iff.1 ht.symm).2
            exact (List.append_eq_nil_iff.1 this).1
          exact l.chars_ne_nil hchars
        rw [List.map_cons, List.filter_cons_of_pos (by simpa using hpart)]
        exact .cons hx.trim ih

/-! ### Heads -/

/-- A name in backticks is read as a qualified name. What follows it is no dot, so there is only one
part. -/
theorem first_qualifiedName (n : QuotedName) {t : List Char} (ht : Stops t)
    (before : Option Char) : ∃ span before',
      First qualifiedName ⟨before, (PlainLexeme.name n).chars ++ t⟩ span ⟨before', t⟩ ∧
        span.chars = (PlainLexeme.name n).chars := by
  have hchars : ∀ c ∈ (PlainLexeme.name n).chars,
      (c == '`' || c == '"' || c == '[' || c == ']' || isWordChar c || c == '$' || c == '.') =
        true := by
    intro c hc
    simp only [PlainLexeme.chars, List.mem_cons, List.mem_append, List.not_mem_nil,
      or_false] at hc
    rcases hc with rfl | hc | rfl
    · decide
    · have hname := (Ddl.isNameChar_facts (n.isNameChar c hc)).2.2.2
      rcases Bool.or_eq_true_iff.1 hname with hword | hdollar
      · simp [hword]
      · simp [hdollar]
    · decide
  -- What stops the name stops the run of its characters.
  have hend : ∀ c ∈ t.head?,
      (c == '`' || c == '"' || c == '[' || c == ']' || isWordChar c || c == '$' || c == '.') =
        false := by
    intro c hc
    obtain ⟨hword, -, -, hnot⟩ := ht.facts c hc
    simp only [List.mem_cons, List.not_mem_nil, or_false, not_or] at hnot
    obtain ⟨hdot, htick, hdouble, hopen, hclose, hdollar⟩ := hnot
    simp [hword, hdot, htick, hdouble, hopen, hclose, hdollar]
  exact ⟨_, _, (First.some1 (PlainLexeme.chars_ne_nil _) hchars hend before).span,
    chars_append _ _ _ _⟩

/-- The head of a table in plain notation, from its first word on. The words and the name are read
in any layout. -/
theorem first_tableHead {n : QuotedName} {ls : List PlainLexeme} {before : Option Char}
    {s : List Char} (hbefore : ∀ c ∈ before, isWordChar c = false) (hs : Stops s)
    (h : Spaced (.keyword .table :: .name n :: .openParen :: ls) s) :
    ∃ span before' t, First tableHead ⟨before, "CREATE".toList ++ s⟩ span ⟨before', t⟩ ∧
      span.chars = (PlainLexeme.name n).chars ∧ Spaced ls t := by
  obtain ⟨g₁, s₁, rfl, hne₁, hg₁, hs₁, h⟩ := h.exists_cons_of_stops rfl hs
  obtain ⟨g₂, s₂, rfl, hne₂, hg₂, hs₂, h⟩ := h.exists_cons_of_stops rfl hs₁
  obtain ⟨g₃, t, rfl, hg₃, -, h⟩ := h.exists_cons
  obtain ⟨span, before', hname, hspan⟩ := first_qualifiedName n hs₂
    (after (after (after (after before "CREATE".toList) g₁) "TABLE".toList) g₂)
  have hhead : First tableHead ⟨before, "CREATE".toList ++ (g₁ ++ ("TABLE".toList ++ (g₂ ++
      ((PlainLexeme.name n).chars ++ (g₃ ++ ('(' :: t))))))⟩ span ⟨some '(', t⟩ := by
    refine (First.boundary hbefore ⟨'C', rfl, by decide⟩).bind ?_
    refine (First.word (w := "CREATE") (by decide) _ _).bind ?_
    refine (First.spaces1 hne₁ hg₁ (PlainLexeme.isSpace_head? (.keyword .table) _) _).bind ?_
    -- Neither `TEMPORARY` is there nor, further on, `IF NOT EXISTS`.
    refine (First.optional_none (Fails.bind_left (Fails.word (v := "TABLE".toList)
      (by decide) _ _))).bind ?_
    refine (First.word (w := "TABLE") (by decide) _ _).bind ?_
    refine (First.spaces1 hne₂ hg₂ (PlainLexeme.isSpace_head? (.name n) _) _).bind ?_
    refine (First.optional_none (Fails.bind_left (Fails.word (v := ['`'])
      (by decide) _ _))).bind ?_
    refine hname.bind ?_
    refine (First.spaces hg₃ (PlainLexeme.isSpace_head? .openParen _) _).bind ?_
    exact (First.of_singleton (char_of (by decide) _ _)).bind (First.pure _ _)
  exact ⟨span, some '(', t, hhead, hspan, h⟩

/-- Nothing but white space stands between a table and its semicolon, so there is no comment. -/
theorem commentIn_eq_none {ls : List PlainLexeme} {tail : List Char}
    (h : Spaced (.semicolon :: ls) tail) : commentIn tail = none := by
  obtain ⟨g, t, rfl, hg, -, -⟩ := h.exists_cons
  -- Between the body and the semicolon there is nothing but space.
  have htake : (g ++ ((PlainLexeme.semicolon).chars ++ t)).takeWhile (· != ';') = g := by
    rw [List.takeWhile_append_of_pos fun c hc => ?_]
    · simp [PlainLexeme.chars]
    · have hspace := hg c hc
      rw [bne_iff_ne]
      rintro rfl
      exact absurd hspace (by decide)
  have hnone : commentOption.find? g = none := by
    have hsearch : searchFrom commentOption none g = none := by
      refine Text.Pattern.searchFrom_eq_none (fun t ht before => ?_) none
      refine Fails.boundary_word (w := "COMMENT") (by decide) (by decide) _ (fun c hc => ?_) before
      exact Text.isWordChar_of_isSpace (hg c (ht.subset (List.mem_of_mem_head? hc)))
    exact congrArg (Option.map (·.value)) hsearch
  rw [commentIn, htake, hnone]
  rfl

/-! ### Scans -/

/-- A pattern for heads of tables starts with `CREATE`. -/
theorem keyed_tableHead : Keyed ["CREATE"] tableHead :=
  Keyed.of_word (by decide) (by decide) (StartsSpace.spaces1_bind _).endsWord

/-- A table that has been cut out of a text in plain notation. -/
structure CutOut (t : PlainTable) (raw : RawTable) : Prop where
  qualifiedName : raw.qualifiedName = String.ofList (PlainLexeme.name t.name).chars
  body : Spaced (PlainLexeme.separated (t.elements.map PlainElement.lexemes)) raw.body.toList
  comment : raw.comment = none

/-- A search for heads of tables steps over semicolons. -/
theorem stepsOver_tableHead {ls : List PlainLexeme} (hls : ∀ l ∈ ls, l = .semicolon) :
    ∀ l ∈ ls, StepsOver ["CREATE"] tableHead l := by
  intro l hl
  rw [hls l hl]
  exact ⟨fun ⟨n, hn⟩ => (by cases hn), by decide⟩

/-- Behind semicolons, the head of the next table is found, and its body up to the parenthesis that
closes it. -/
theorem exists_search_tableHead {ls : List PlainLexeme} (hls : ∀ l ∈ ls, l = .semicolon)
    {t : PlainTable} {rest : List PlainLexeme} {before : Option Char} {s : List Char}
    (h : Spaced (ls ++ (t.lexemes ++ rest)) s) (hbefore : Fresh before s) :
    ∃ found body tail, tableHead.search ⟨before, s⟩ = some found ∧
      found.value.chars = (PlainLexeme.name t.name).chars ∧
      closeGroup {} found.stop.rest = some (body, tail) ∧
      Spaced (PlainLexeme.separated (t.elements.map PlainElement.lexemes)) body ∧
      Spaced (.semicolon :: rest) tail := by
  obtain ⟨before', u, hsearch, hbefore', hstops, hu⟩ :=
    exists_searchFrom_run (l := .keyword .create) (r := "CREATE".toList) keyed_tableHead
      (stepsOver_tableHead hls) rfl h hbefore
  obtain ⟨span, before'', v, hfirst, hspan, hv⟩ := first_tableHead hbefore' hstops hu
  have hlexemes : Spaced (PlainLexeme.separated (t.elements.map PlainElement.lexemes) ++
      .closeParen :: .semicolon :: rest) v := by
    simpa using hv
  obtain ⟨body, u', rfl, hbody, hu', hhead⟩ := hlexemes.exists_append
  obtain ⟨tail, rfl, -, htail⟩ := hu'.exists_cons_of_head hhead
  -- The parenthesis that closes the body is the first one that is not inside another group.
  have hgroup : closeGroup {} (body ++ (PlainLexeme.closeParen.chars ++ tail)) =
      some (body, tail) := closeGroup_body hbody tail
  exact ⟨_, body, tail, hsearch.trans (searchFrom_of_first hfirst), hspan, hgroup, hbody, htail⟩

/-- From a place between tables on, a scan cuts out the tables that follow, and nothing else.
Semicolons in between are what one table leaves to the next. -/
theorem scanFrom_spaced {ts : List PlainTable} {fuel : Nat} (hfuel : ts.length ≤ fuel)
    {ls : List PlainLexeme} (hls : ∀ l ∈ ls, l = .semicolon) {before : Option Char} {s : List Char}
    (h : Spaced (ls ++ ts.flatMap PlainTable.lexemes) s) (hbefore : Fresh before s) :
    List.Forall₂ CutOut ts (scanFrom fuel ⟨before, s⟩).tables ∧
      (scanFrom fuel ⟨before, s⟩).unterminated = [] := by
  have hclose : ∀ tail, Fresh (some ')') tail := by
    rintro tail ⟨c, hc, hword⟩
    obtain rfl := Option.some.inj hc
    exact absurd hword (by decide)
  induction ts generalizing fuel ls before s with
  | nil =>
      rw [List.flatMap_nil, List.append_nil] at h
      have hnone := searchFrom_eq_none keyed_tableHead (stepsOver_tableHead hls) h hbefore
      cases fuel with
      | zero => exact ⟨.nil, rfl⟩
      | succ fuel =>
          rw [scanFrom, show tableHead.search ⟨before, s⟩ = none from hnone]
          exact ⟨.nil, rfl⟩
  | cons t ts ih =>
      cases fuel with
      | zero => cases hfuel
      | succ fuel =>
          obtain ⟨found, body, tail, hfound, hname, hgroup, hbody, htail⟩ :=
            exists_search_tableHead hls h hbefore
          -- The scan goes on in front of the semicolon behind the table.
          have hsemicolon : ∀ l ∈ [PlainLexeme.semicolon], l = .semicolon := by simp
          obtain ⟨htables, hunterminated⟩ := ih (Nat.le_of_succ_le_succ hfuel) hsemicolon htail
            (hclose tail)
          rw [scanFrom, hfound]
          dsimp only
          rw [hgroup]
          refine ⟨.cons ⟨congrArg String.ofList hname, ?_, commentIn_eq_none htail⟩ htables,
            hunterminated⟩
          rw [String.toList_ofList]
          exact hbody

/-- The scan of a script in plain notation cuts out its tables, in order. -/
theorem scan_spaced {ts : List PlainTable} {sql : String}
    (h : Spaced (ts.flatMap PlainTable.lexemes) sql.toList) :
    List.Forall₂ CutOut ts (scan sql).tables ∧ (scan sql).unterminated = [] := by
  -- Each table has lexemes, so the text is long enough to find it.
  have hlength (ts : List PlainTable) : ts.length ≤ (ts.flatMap PlainTable.lexemes).length := by
    induction ts with
    | nil => exact Nat.le_refl _
    | cons t ts ih =>
        have hpos : 0 < t.lexemes.length := by simp [PlainTable.lexemes]
        rw [List.flatMap_cons, List.length_append, List.length_cons]
        omega
  have hspaced : Spaced ([] ++ ts.flatMap PlainTable.lexemes) sql.toList := h
  rw [scan, stripComments_spaced h]
  exact scanFrom_spaced (Nat.le_succ_of_le ((hlength ts).trans h.length_le)) (by simp) hspaced
    (.start _)

end EntityDiagram.Excerpt
