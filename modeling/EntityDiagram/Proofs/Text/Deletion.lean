import EntityDiagram.Proofs.Text.Replacement
import EntityDiagram.Proofs.Text.WordSearch

/-!
# `EntityDiagram.Proofs.Text.Deletion`: what a deletion leaves of the parts of a text

To delete a pattern from a text is to search for it, to leave out the match and to go on behind it.
What becomes of one part of the text is then told without the others: either no match starts in it,
or it is a match, or it consists of such parts.

`Marked` follows the deletion from the left, with one mark for each character. It is a relation and
not one more search, so the marks of a text are put together from those of its parts. That they are
the marks which the search makes is `Marked.kept_eq`.

`Reduces p before s after left` is the statement about one part `s`: whatever the marks behind it
are, the deletion leaves `left` of it. It composes along `++` (`Reduces.append`). A stretch in which
no match starts stays (`Reduces.of_fails`), and a match goes (`Reduces.of_first`). From the parts of
a script, `Reduces.leave_eq` says what all of the deletion leaves, part by part.
-/

set_option autoImplicit false

namespace EntityDiagram.Text.Pattern

variable {α : Type} {p : Pattern α}

/-! ### Marks -/

/-- The marks that a deletion makes from a place on: a character is kept where no match starts, and
the preferred match is dropped where there is one. -/
inductive Marked (p : Pattern α) : Place → List Bool → Prop where
  | done {before : Option Char} : Marked p ⟨before, []⟩ []
  | keep {before : Option Char} {c : Char} {rest : List Char} {marks : List Bool}
      (h : Fails p ⟨before, c :: rest⟩) (hrest : Marked p ⟨some c, rest⟩ marks) :
      Marked p ⟨before, c :: rest⟩ (true :: marks)
  | drop {before : Option Char} {s rest : List Char} {a : α} {marks : List Bool}
      (h : First p ⟨before, s ++ rest⟩ a ⟨after before s, rest⟩)
      (hrest : Marked p ⟨after before s, rest⟩ marks) :
      Marked p ⟨before, s ++ rest⟩ ((s.map fun _ => false) ++ marks)

/-- A character in front of the first match is marked as kept. -/
theorem keptFrom_cons (before : Option Char) (c : Char) (rest : List Char) {found : List (Found α)}
    (h : ∀ f ∈ found.head?, f.start.rest <:+ rest) :
    keptFrom ⟨before, c :: rest⟩ found = true :: keptFrom ⟨some c, rest⟩ found := by
  cases found with
  | nil => rfl
  | cons f more =>
      have hlength := (h f rfl).length_le
      have htake : (c :: rest).length - f.start.rest.length =
          rest.length - f.start.rest.length + 1 := by
        rw [List.length_cons]
        omega
      rw [keptFrom, keptFrom, Span.chars, Span.chars, htake]
      rfl

/-- **The marks are those of the search.** -/
theorem Marked.kept_eq (hp : Consuming p) {s : List Char} {marks : List Bool}
    (h : Marked p (.start s) marks) : p.kept s = marks := by
  -- A search has fuel for every character. A kept one costs none, and a match at least its own.
  have key {here : Place} {marks : List Bool} (h : Marked p here marks) (fuel : Nat)
      (hfuel : here.rest.length < fuel) : keptFrom here (matchesUpTo p fuel here) = marks := by
    induction h generalizing fuel with
    | @done before =>
        have hfails : p ⟨before, []⟩ = [] :=
          List.eq_nil_iff_forall_not_mem.2 fun m hm => Nat.not_lt_zero _ (hp _ m hm)
        have hnone : matchesUpTo p fuel ⟨before, []⟩ = [] := by
          cases fuel with
          | zero => rfl
          | succ fuel => simp [matchesUpTo, search, searchFrom, hfails]
        rw [hnone]
        rfl
    | @keep before c rest marks h _ ih =>
        have hstart : ∀ f ∈ (matchesUpTo p fuel ⟨some c, rest⟩).head?, f.start.rest <:+ rest :=
          fun f hf => start_suffix_of_mem_head? hf
        rw [matchesUpTo_cons h, keptFrom_cons before c rest hstart,
          ih fuel (Nat.lt_of_succ_lt hfuel)]
    | @drop before s rest a marks h _ ih =>
        obtain ⟨fuel, rfl⟩ := Nat.exists_eq_succ_of_ne_zero (Nat.ne_of_gt (Nat.zero_lt_of_lt hfuel))
        have hshorter := hp _ _ (List.mem_of_mem_head? h)
        have hsearch : p.search ⟨before, s ++ rest⟩ =
            some ⟨⟨before, s ++ rest⟩, a, ⟨after before s, rest⟩⟩ := searchFrom_of_first h
        rw [matchesUpTo, hsearch]
        dsimp only
        rw [keptFrom, ih fuel (Nat.lt_of_lt_of_le hshorter (Nat.le_of_lt_succ hfuel)),
          chars_append, show (Span.mk (⟨before, s ++ rest⟩ : Place) ⟨before, s ++ rest⟩).chars = []
            by simp [Span.chars]]
        rfl
  exact key h (s.length + 1) (Nat.lt_succ_self _)

/-! ### Parts -/

/-- The deletion leaves `left` of the part `s` between `before` and `rest`. -/
def Reduces (p : Pattern α) (before : Option Char) (s rest left : List Char) : Prop :=
  ∀ more, Marked p ⟨after before s, rest⟩ more →
    ∃ marks, marks.length = s.length ∧ select marks s = left ∧
      Marked p ⟨before, s ++ rest⟩ (marks ++ more)

namespace Reduces

variable {before : Option Char} {s t rest left left' : List Char}

/-- Nothing is left of nothing. -/
theorem nil : Reduces p before [] rest [] := fun _ h => ⟨[], rfl, rfl, h⟩

/-- One part after the other. -/
theorem append (hs : Reduces p before s (t ++ rest) left)
    (ht : Reduces p (after before s) t rest left') :
    Reduces p before (s ++ t) rest (left ++ left') := by
  intro more hmore
  rw [after_append] at hmore
  obtain ⟨marks', hlength', hselect', hmarked'⟩ := ht more hmore
  obtain ⟨marks, hlength, hselect, hmarked⟩ := hs _ hmarked'
  refine ⟨marks ++ marks', by simp [hlength, hlength'], ?_, ?_⟩
  · rw [select_append, ← hlength, List.take_left, List.drop_left, hselect, hselect']
  · rw [List.append_assoc, List.append_assoc]
    exact hmarked

/-- A character at which no match starts stays. -/
theorem cons {c : Char} (h : Fails p ⟨before, c :: (s ++ rest)⟩)
    (hs : Reduces p (some c) s rest left) : Reduces p before (c :: s) rest (c :: left) := by
  intro more hmore
  rw [after_cons] at hmore
  obtain ⟨marks, hlength, hselect, hmarked⟩ := hs more hmore
  exact ⟨true :: marks, by simp [hlength], by rw [select, hselect], .keep h hmarked⟩

/-- A part in which no match starts stays. -/
theorem of_fails (h : ∀ u v, s = u ++ v → v ≠ [] → Fails p ⟨after before u, v ++ rest⟩) :
    Reduces p before s rest s := by
  induction s generalizing before with
  | nil => exact nil
  | cons c s ih =>
      refine cons (h [] (c :: s) rfl (by simp)) (ih fun u v hs hv => ?_)
      have hfails := h (c :: u) v (by rw [hs]; rfl) hv
      rwa [after_cons] at hfails

/-- A match goes. -/
theorem of_first {a : α} (h : First p ⟨before, s ++ rest⟩ a ⟨after before s, rest⟩) :
    Reduces p before s rest [] := by
  intro more hmore
  refine ⟨s.map fun _ => false, by simp, ?_, .drop h hmore⟩
  have hselect := select_map_false s [] []
  rw [List.append_nil, List.append_nil] at hselect
  rw [hselect]
  rfl

end Reduces

/-! ### Texts in parts -/

/-- The deletion leaves of each part what stands in the second list. -/
inductive ReducesAll (p : Pattern α) :
    Option Char → List (List Char) → List (List Char) → Prop where
  | nil {before : Option Char} : ReducesAll p before [] []
  | cons {before : Option Char} {s left : List Char} {parts lefts : List (List Char)}
      (h : Reduces p before s parts.flatten left)
      (hparts : ReducesAll p (after before s) parts lefts) :
      ReducesAll p before (s :: parts) (left :: lefts)

/-- **What a deletion leaves of a text is what it leaves of its parts.** -/
theorem ReducesAll.leave_eq (hp : Consuming p) {parts lefts : List (List Char)}
    (h : ReducesAll p none parts lefts) : leave (p.kept parts.flatten) parts = lefts := by
  have key {before : Option Char} {parts lefts : List (List Char)}
      (h : ReducesAll p before parts lefts) :
      ∃ marks, Marked p ⟨before, parts.flatten⟩ marks ∧ leave marks parts = lefts := by
    induction h with
    | nil => exact ⟨[], .done, rfl⟩
    | @cons before s left parts lefts h _ ih =>
        obtain ⟨more, hmore, hleave⟩ := ih
        obtain ⟨marks, hlength, hselect, hmarked⟩ := h more hmore
        refine ⟨marks ++ more, hmarked, ?_⟩
        rw [leave, ← hlength, List.take_left, List.drop_left, hselect, hleave]
  obtain ⟨marks, hmarked, hleave⟩ := key h
  rw [hmarked.kept_eq hp, hleave]

end EntityDiagram.Text.Pattern
