import EntityDiagram.Proofs.Sql.Quote
import EntityDiagram.Proofs.Text.Space

/-!
# `EntityDiagram.Proofs.Sql.TopLevel`: splitting at commas and joining again

`splitTopLevel` cuts a text at the commas outside of parentheses and quotes, trims what is between
them and leaves out what is blank. The text may be any: parentheses may close without being open,
and parentheses and quotes may stay open at the end.

`TopLevelParts` says into which parts a text may be split, and it says so of the parts alone: they
are trimmed, none is blank, in front of each comma that a part holds something is open, and behind
each part but the last nothing is. What is open is counted (`AtTop`), not scanned. The splitter
carries its state from one part into the next, and the proofs follow it with two notions of their
own, `Uncut` for one piece and `Cut` for all of them.

* `cut_piecesFrom`, `piecesFrom_joinWith`: the pieces between the commas give the text back when
  they are joined, and pieces of this kind (`Cut`) are found again. Both follow the scan, whose
  state runs on from piece to piece.
* `uncut_trim`: white space at its ends matters to no piece.
* `noTopComma_iff_uncut`: what a scan from the start cuts nowhere is told by counting.
* `splitTopLevel_joinWith_iff`: so a list of parts is what its joined text is split into exactly if
  the parts are `TopLevelParts`, and whatever a text is split into are such parts.
-/

set_option autoImplicit false

namespace EntityDiagram.Sql

open Text (trim isSpace joinWith)

/-! ### Where a scan stands -/

namespace Nesting

/-- White space opens and closes nothing. This needs that the open mark, if there is one, is no
white space, since such a mark would close its quotes. -/
theorem step_space {n : Nesting} (hn : ∀ mark ∈ n.quote, isSpace mark = false) {c : Char}
    (hc : isSpace c = true) : n.step c = n := by
  have hne {d : Char} (hd : isSpace d = false) : (c == d) = false := by
    rw [beq_eq_false_iff_ne]
    rintro rfl
    exact Bool.noConfusion (hc.symm.trans hd)
  obtain ⟨depth, _ | mark⟩ := n
  · simp [step, hne (d := '\'') (by decide), hne (d := '"') (by decide),
      hne (d := '`') (by decide), hne (d := '(') (by decide), hne (d := ')') (by decide)]
  · simp [step, hne (hn mark rfl)]

/-- A mark that opens quotes is no white space. -/
theorem isSpace_quote_step {n : Nesting} (hn : ∀ mark ∈ n.quote, isSpace mark = false)
    (c : Char) : ∀ mark ∈ (n.step c).quote, isSpace mark = false := by
  -- Outside of quotes a mark may open them, and inside they end or go on.
  obtain ⟨depth, _ | mark⟩ := n
  · rw [step]
    dsimp only
    split
    · rename_i hc
      simp only [Bool.or_eq_true, beq_iff_eq] at hc
      intro mark hmark
      obtain rfl := Option.some.inj hmark
      rcases hc with (rfl | rfl) | rfl <;> decide
    · split
      · simp
      · split <;> simp
  · rw [step]
    dsimp only
    split
    · simp
    · exact hn

/-- Nor does any text from the start on. -/
theorem isSpace_quote_foldl {n : Nesting} (hn : ∀ mark ∈ n.quote, isSpace mark = false)
    (s : List Char) : ∀ mark ∈ (s.foldl step n).quote, isSpace mark = false := by
  induction s generalizing n with
  | nil => exact hn
  | cons c s ih => exact ih (isSpace_quote_step hn c)

/-- White space leaves a scan where it stands. So white space can be trimmed off a piece without an
effect on what follows. -/
theorem foldl_step_spaces {n : Nesting} (hn : ∀ mark ∈ n.quote, isSpace mark = false)
    {g : List Char} (hg : ∀ c ∈ g, isSpace c = true) : g.foldl step n = n := by
  induction g with
  | nil => rfl
  | cons c g ih =>
      rw [List.foldl_cons, step_space hn (hg c (by simp)), ih fun d hd => hg d (by simp [hd])]

end Nesting

/-! ### Pieces -/

/-- No comma of the text is at top level when a scan reads the text from the state `n`. The state
says what is open where the text starts. -/
def Uncut (n : Nesting) (s : List Char) : Prop :=
  ∀ before after, s = before ++ ',' :: after → (before.foldl Nesting.step n).isTop = false

/-- A text that is cut nowhere is told by its first character and its rest. This is the recursion
for inductions along a text. -/
theorem uncut_cons {n : Nesting} {c : Char} {s : List Char} :
    Uncut n (c :: s) ↔ (c == ',' && n.isTop) = false ∧ Uncut (n.step c) s := by
  constructor
  · intro h
    refine ⟨?_, fun before after hs => h (c :: before) after (by rw [hs]; rfl)⟩
    rw [Bool.and_eq_false_iff, beq_eq_false_iff_ne]
    by_cases hc : c = ','
    · exact .inr (h [] s (by rw [hc]; rfl))
    · exact .inl hc
  · rintro ⟨hc, hs⟩ before after hsplit
    -- The comma would be the first character or one of the others.
    cases before with
    | nil =>
        obtain ⟨rfl, -⟩ := List.cons.inj hsplit
        simpa using hc
    | cons d before =>
        obtain ⟨rfl, hrest⟩ := List.cons.inj hsplit
        exact hs before after hrest

/-- The texts that a scan from the state `n` may find between commas: no comma of theirs is at top
level, and each but the last ends there. The first piece is read from `n`, and the others from the
start, as a comma counts only where nothing is open. -/
def Cut : Nesting → List (List Char) → Prop
  | _, [] => False
  | n, [piece] => Uncut n piece
  | n, piece :: next :: more =>
    Uncut n piece ∧ piece.foldl Nesting.step n = {} ∧ Cut {} (next :: more)

/-- A character in front of a cut text belongs to its first piece. -/
theorem Cut.cons {n : Nesting} {c : Char} {piece : List Char} {more : List (List Char)}
    (hc : (c == ',' && n.isTop) = false) (h : Cut (n.step c) (piece :: more)) :
    Cut n ((c :: piece) :: more) := by
  cases more with
  | nil => exact uncut_cons.2 ⟨hc, h⟩
  | cons next more => exact ⟨uncut_cons.2 ⟨hc, h.1⟩, h.2⟩

/-- What stands between the top-level commas of a text is cut there, and joined by commas it is the
text. The two parts are proved at once, since both need that there is a first piece to which a
character can be added. -/
theorem cut_piecesFrom (n : Nesting) (s : List Char) :
    Cut n (piecesFrom n s) ∧ joinWith [','] (piecesFrom n s) = s := by
  induction s generalizing n with
  | nil => exact ⟨fun before after h => by simp at h, rfl⟩
  | cons c s ih =>
      rw [piecesFrom]
      split
      · rename_i hcomma
        obtain ⟨hc, htop⟩ := Bool.and_eq_true_iff.1 hcomma
        obtain rfl := beq_iff_eq.1 hc
        obtain rfl := Nesting.isTop_iff.1 htop
        -- A comma counts where nothing is open, so the scan starts anew behind it.
        obtain ⟨hcut, hjoin⟩ := ih {}
        cases hpieces : piecesFrom {} s with
        | nil => rw [hpieces] at hcut; exact hcut.elim
        | cons piece more =>
            rw [hpieces] at hcut hjoin
            refine ⟨⟨fun before after h => by simp at h, rfl, hcut⟩, ?_⟩
            rw [Text.joinWith_cons_cons, hjoin]
            rfl
      · rename_i hcomma
        -- Any other character goes in front of the first piece of the rest.
        obtain ⟨hcut, hjoin⟩ := ih (n.step c)
        split
        · rename_i hpieces
          rw [hpieces] at hcut
          exact hcut.elim
        · rename_i piece more hpieces
          rw [hpieces] at hcut hjoin
          refine ⟨hcut.cons (by simpa using hcomma), ?_⟩
          cases more with
          | nil =>
              rw [Text.joinWith_singleton] at hjoin ⊢
              rw [hjoin]
          | cons next more =>
              rw [Text.joinWith_cons_cons] at hjoin ⊢
              rw [List.cons_append, hjoin]

/-- A text without a top-level comma is one piece. -/
theorem piecesFrom_of_uncut {n : Nesting} {s : List Char} (h : Uncut n s) :
    piecesFrom n s = [s] := by
  induction s generalizing n with
  | nil => rfl
  | cons c s ih =>
      obtain ⟨hc, hs⟩ := uncut_cons.1 h
      rw [piecesFrom, if_neg (by simp [hc]), ih hs]

/-- A piece ends at a comma that follows it at top level. What follows is cut as a text of its
own. -/
theorem piecesFrom_append_comma {n : Nesting} {s : List Char} (h : Uncut n s)
    (htop : s.foldl Nesting.step n = {}) (t : List Char) :
    piecesFrom n (s ++ ',' :: t) = s :: piecesFrom {} t := by
  induction s generalizing n with
  | nil =>
      obtain rfl : n = {} := htop
      rfl
  | cons c s ih =>
      obtain ⟨hc, hs⟩ := uncut_cons.1 h
      rw [List.cons_append, piecesFrom, if_neg (by simp [hc]), ih hs htop]

/-- What is cut is found again after joining. So cutting and joining are inverse to each other on
such lists. -/
theorem piecesFrom_joinWith {n : Nesting} {pieces : List (List Char)} (h : Cut n pieces) :
    piecesFrom n (joinWith [','] pieces) = pieces := by
  induction pieces generalizing n with
  | nil => exact h.elim
  | cons piece more ih =>
      cases more with
      | nil => rw [Text.joinWith_singleton, piecesFrom_of_uncut h]
      | cons next more =>
          obtain ⟨hcomma, htop, hmore⟩ := h
          rw [Text.joinWith_cons_cons, List.singleton_append,
            piecesFrom_append_comma hcomma htop, ih hmore]

/-! ### Parts -/

/-- No comma of the text is at top level: what stands in front of each ends in quotes or in
parentheses. -/
def NoTopComma (s : List Char) : Prop :=
  ∀ before after, s = before ++ ',' :: after → ¬AtTop before

/-- These are the texts that a scan from the start cuts nowhere. The one is said by counts and the
other by the state of a scan. -/
theorem noTopComma_iff_uncut {s : List Char} : NoTopComma s ↔ Uncut {} s := by
  refine forall₃_congr fun before after _ => ?_
  rw [← isTop_foldl_step_iff, Bool.not_eq_true]

/-- Lists of parts into which a text may be split at its top-level commas. Only the last part may
end in quotes or in parentheses, as the comma behind any other part would be enclosed as well. -/
structure TopLevelParts (parts : List (List Char)) : Prop where
  /-- The parts are trimmed, and none is blank. -/
  trimmed : ∀ part ∈ parts, part ≠ [] ∧ trim part = part
  /-- No comma of a part is at top level. -/
  noTopComma : ∀ part ∈ parts, NoTopComma part
  /-- Each part but the last ends at top level. -/
  closed : ∀ part ∈ parts.dropLast, AtTop part

namespace TopLevelParts

/-- Parts are cut at the commas that join them. There has to be one at least, as a text without
commas is one piece. -/
theorem cut {parts : List (List Char)} (h : TopLevelParts parts) (hne : parts ≠ []) :
    Cut {} parts := by
  obtain ⟨-, hcomma, hclosed⟩ := h
  induction parts with
  | nil => exact absurd rfl hne
  | cons part more ih =>
      obtain ⟨hpart, hmore⟩ := List.forall_mem_cons.1 hcomma
      have huncut := noTopComma_iff_uncut.1 hpart
      cases more with
      | nil => exact huncut
      | cons next more =>
          rw [List.dropLast_cons_cons] at hclosed
          obtain ⟨htop, hrest⟩ := List.forall_mem_cons.1 hclosed
          exact ⟨huncut, atTop_iff_foldl_step.1 htop, ih (by simp) hmore hrest⟩

/-- One more part in front. -/
theorem cons {part : List Char} {parts : List (List Char)} (hne : trim part ≠ [])
    (hcomma : NoTopComma (trim part)) (hclosed : parts ≠ [] → AtTop (trim part))
    (h : TopLevelParts parts) : TopLevelParts (trim part :: parts) := by
  refine ⟨List.forall_mem_cons.2 ⟨⟨hne, Text.trim_trim part⟩, h.trimmed⟩,
    List.forall_mem_cons.2 ⟨hcomma, h.noTopComma⟩, ?_⟩
  cases parts with
  | nil => simp
  | cons next more =>
      rw [List.dropLast_cons_cons]
      exact List.forall_mem_cons.2 ⟨hclosed (by simp), h.closed⟩

end TopLevelParts

/-- Trimming a piece takes no comma out of its parentheses and quotes, and does not change where a
scan stands behind it. White space at the ends is neither a comma nor a mark, so the scan does not
notice it. -/
theorem uncut_trim {s : List Char} (h : Uncut {} s) :
    Uncut {} (trim s) ∧ (trim s).foldl Nesting.step {} = s.foldl Nesting.step {} := by
  obtain ⟨g, g', hs, hg, hg'⟩ := Text.padded_trim s
  have hstart : g.foldl Nesting.step {} = {} := Nesting.foldl_step_spaces (by simp) hg
  constructor
  · intro before after hsplit
    have hcomma := h (g ++ before) (after ++ g') (by rw [hs, hsplit]; simp)
    rwa [List.foldl_append, hstart] at hcomma
  · have hwhole : s.foldl Nesting.step {} = (g ++ (trim s ++ g')).foldl Nesting.step {} :=
      congrArg (List.foldl Nesting.step {}) hs
    rw [hwhole, List.foldl_append, List.foldl_append, hstart,
      Nesting.foldl_step_spaces (Nesting.isSpace_quote_foldl (by simp) _) hg']

/-- Pieces that are trimmed, the blank ones left out, are parts. Leaving out a blank piece takes
away a comma, and that one was at top level. -/
theorem topLevelParts_of_cut {pieces : List (List Char)} (h : Cut {} pieces) :
    TopLevelParts ((pieces.map trim).filter (!·.isEmpty)) := by
  induction pieces with
  | nil => exact h.elim
  | cons piece more ih =>
      -- Only the last piece may end inside parentheses or quotes, and nothing follows that one.
      obtain ⟨hcomma, hclosed, hmore⟩ : Uncut {} piece ∧
          (more ≠ [] → piece.foldl Nesting.step {} = {}) ∧
            TopLevelParts ((more.map trim).filter (!·.isEmpty)) := by
        cases more with
        | nil => exact ⟨h, by simp, by simp, by simp, by simp⟩
        | cons next more => exact ⟨h.1, fun _ => h.2.1, ih h.2.2⟩
      obtain ⟨hcommaTrim, hfold⟩ := uncut_trim hcomma
      rw [List.map_cons]
      by_cases hblank : trim piece = []
      · rwa [List.filter_cons_of_neg (by simp [hblank])]
      · rw [List.filter_cons_of_pos (by simpa using hblank)]
        refine hmore.cons hblank (noTopComma_iff_uncut.2 hcommaTrim) fun hne => ?_
        rw [atTop_iff_foldl_step, hfold, hclosed (by rintro rfl; simp at hne)]

/-- Splitting yields parts. -/
theorem topLevelParts_splitTopLevel (body : List Char) : TopLevelParts (splitTopLevel body) :=
  topLevelParts_of_cut (cut_piecesFrom {} body).1

/-- Parts that are joined by commas are split again. As the parts are trimmed and not blank, nothing
is lost when they are read as pieces. -/
theorem TopLevelParts.splitTopLevel_joinWith {parts : List (List Char)} (h : TopLevelParts parts) :
    splitTopLevel (joinWith [','] parts) = parts := by
  by_cases hne : parts = []
  · subst hne
    rfl
  · have htrim : parts.map trim = parts :=
      (List.map_congr_left fun part hp => (h.trimmed part hp).2).trans (List.map_id parts)
    rw [splitTopLevel, piecesFrom_joinWith (h.cut hne), htrim, List.filter_eq_self]
    intro part hp
    simpa using (h.trimmed part hp).1

/-- **Splitting at top-level commas undoes joining by commas**, for the lists of parts that a text
may be split into and for no others. Whatever the text, what it is split into is such a list, so
that joining and splitting once more changes nothing. -/
theorem splitTopLevel_joinWith_iff :
    (∀ parts, splitTopLevel (joinWith [','] parts) = parts ↔ TopLevelParts parts) ∧
      ∀ body, TopLevelParts (splitTopLevel body) ∧
        splitTopLevel (joinWith [','] (splitTopLevel body)) = splitTopLevel body := by
  refine ⟨fun parts => ⟨fun h => ?_, TopLevelParts.splitTopLevel_joinWith⟩, fun body => ?_⟩
  · rw [← h]
    exact topLevelParts_splitTopLevel _
  · have hparts := topLevelParts_splitTopLevel body
    exact ⟨hparts, hparts.splitTopLevel_joinWith⟩

-- A parenthesis that closes nothing counts for nothing, and the last part may stay open.
example : splitTopLevel "a) INT,, b ENUM('x,y', (1,2 ".toList =
    ["a) INT".toList, "b ENUM('x,y', (1,2".toList] := by decide +kernel

end EntityDiagram.Sql
