import EntityDiagram.Proofs.Text.Affix
import EntityDiagram.Toml.Scan

/-!
# `EntityDiagram.Proofs.Toml.Scan`: what scans take

The laws of the scans that documents are read with: what each of them takes from the front of a
text, whatever follows. A scan that is repeated goes through `Rounds`, and `Rounds.many_eq` says
that `many` is such a sequence of rounds; `rounds_flatMap` builds one for a text that is written
piece by piece.

A law has the form `scan (front ++ rest) = some (value, rest)`, with a condition on the first
character of `rest` where the scan would go on into it. `bind_eq` puts two of them together: it is
rewritten with from the left, one scan after the other, and leaves the scans behind in their place.
Scans that are repeated have a bound on their rounds, which is why every round has to take a
character; `Rounds` carries that condition along, so that no law has to speak of the bound.

What ends a run of blanks, line ends and comments is called ink here (`isInk`).
-/

set_option autoImplicit false

namespace EntityDiagram.Toml.Scan

variable {α β : Type} {s rest : List Char}

/-! ### Single steps -/

/-- A scan goes on where the one before it stops. -/
theorem bind_eq {scan : Scan α} {f : α → Scan β} {a : α} (h : scan s = some (a, rest)) :
    (scan >>= f) s = f a rest := by
  show (scan s).bind (fun p => f p.1 p.2) = f a rest
  rw [h]
  rfl

/-- Looking at the text takes nothing from it. -/
theorem get_bind (f : List Char → Scan α) (s : List Char) : (get >>= f) s = f s s := rfl

/-- What holds of the first character of a text holds of whichever is its first one. -/
theorem forall_head?_cons {p : Char → Prop} {c : Char} (h : p c) (s : List Char) :
    ∀ d ∈ (c :: s).head?, p d := by
  intro d hd
  rwa [← Option.some.inj hd]

/-- A look at the first character takes nothing. -/
theorem peek_eq (s : List Char) : peek s = some (s.head?, s) := rfl

/-- The first character is taken, whatever it is. -/
theorem next_cons (c : Char) (s : List Char) : next (c :: s) = some (c, s) := rfl

/-- A condition that holds takes nothing. -/
theorem require_eq {condition : Bool} (h : condition = true) (s : List Char) :
    require condition s = some ((), s) := by
  rw [h]
  rfl

/-- A text is taken if it is at the front, and nothing is taken otherwise. It never fails, but says
whether it has taken the text. -/
theorem literal_eq (lead : String) (s : List Char) :
    literal lead s = match Text.dropLead? lead.toList s with
      | some rest => some (true, rest)
      | none => some (false, s) := by
  rw [literal, get_bind]
  cases Text.dropLead? lead.toList s <;> rfl

/-- A text that is at the front is taken. -/
theorem literal_append (lead : String) (rest : List Char) :
    literal lead (lead.toList ++ rest) = some (true, rest) := by
  rw [literal_eq, Text.dropLead?_append]

/-- A text of one character is taken if that is the first character. -/
theorem literal_cons {lead : String} {c : Char} (hlead : lead.toList = [c]) (rest : List Char) :
    literal lead (c :: rest) = some (true, rest) := by
  have htake := literal_append lead rest
  rwa [hlead] at htake

/-- A text that starts with another character is not. -/
theorem literal_of_head {lead : String} {c : Char} (hlead : lead.toList.head? = some c)
    (hs : s.head? ≠ some c) : literal lead s = some (false, s) := by
  have hnone : Text.dropLead? lead.toList s = none := by
    cases hchars : lead.toList with
    | nil => rw [hchars] at hlead; cases hlead
    | cons p more =>
        rw [hchars] at hlead
        cases s with
        | nil => rfl
        | cons d s =>
            rw [Text.dropLead?, if_neg]
            intro hpd
            rw [← beq_iff_eq.1 hpd] at hs
            exact hs hlead
  rw [literal_eq, hnone]

/-- A text that has to be there is taken. -/
theorem expect_append (lead : String) (rest : List Char) :
    expect lead (lead.toList ++ rest) = some ((), rest) := by
  rw [expect, bind_eq (literal_append lead rest)]
  rfl

/-- A text of one character that has to be there is taken. -/
theorem expect_cons {lead : String} {c : Char} (hlead : lead.toList = [c]) (rest : List Char) :
    expect lead (c :: rest) = some ((), rest) := by
  have htake := expect_append lead rest
  rwa [hlead] at htake

/-- A run of characters is taken up to one that does not belong to it. -/
theorem takeWhile_append {p : Char → Bool} {run : List Char} (hrun : ∀ c ∈ run, p c = true)
    (hrest : ∀ c ∈ rest.head?, p c = false) :
    takeWhile p (run ++ rest) = some (run, rest) := by
  show some ((run ++ rest).takeWhile p, (run ++ rest).dropWhile p) = _
  rw [List.takeWhile_append_of_pos hrun, List.dropWhile_append_of_pos hrun]
  cases rest with
  | nil => simp
  | cons c rest => simp [hrest c rfl]

/-! ### Rounds -/

/-- The repeated scan yields these values one after the other and then nothing, and takes
characters in every round but the last. -/
inductive Rounds (scan : Scan (Option α)) : List Char → List α → List Char → Prop where
  | done {s : List Char} (h : scan s = some (none, s)) : Rounds scan s [] s
  | more {s s' rest : List Char} {a : α} {as : List α} (h : scan s = some (some a, s'))
      (hlt : s'.length < s.length) (hmore : Rounds scan s' as rest) : Rounds scan s (a :: as) rest

/-- Each round takes a character at least, so the characters are fuel enough. -/
theorem Rounds.manyUpTo_eq {scan : Scan (Option α)} {as : List α} (h : Rounds scan s as rest)
    {fuel : Nat} (hfuel : s.length ≤ fuel) : manyUpTo scan fuel s = some (as, rest) := by
  induction h generalizing fuel with
  | done h =>
      cases fuel with
      | zero => rfl
      | succ fuel =>
          rw [manyUpTo, bind_eq h]
          rfl
  -- Each round makes the text shorter, so the fuel lasts.
  | more h hlt _ ih =>
      cases fuel with
      | zero => omega
      | succ fuel =>
          rw [manyUpTo, bind_eq h]
          dsimp only
          rw [bind_eq (ih (by omega))]
          rfl

/-- Rounds are what a repeated scan goes through. -/
theorem Rounds.many_eq {scan : Scan (Option α)} {as : List α} (h : Rounds scan s as rest) :
    many scan s = some (as, rest) := by
  rw [many, get_bind]
  exact h.manyUpTo_eq (Nat.le_refl _)

/-- A text of pieces is taken piece by piece, if each of them is whatever follows. No piece is
empty, so that each round makes some progress. -/
theorem rounds_flatMap {scan : Scan (Option α)} (text : β → List Char) (value : β → α)
    (pieces : List β)
    (hpiece : ∀ b ∈ pieces, text b ≠ [] ∧
      ∀ rest, scan (text b ++ rest) = some (some (value b), rest))
    (hdone : scan rest = some (none, rest)) :
    Rounds scan (pieces.flatMap text ++ rest) (pieces.map value) rest := by
  induction pieces with
  | nil => exact .done hdone
  | cons b pieces ih =>
      obtain ⟨⟨hne, hread⟩, hpieces⟩ := List.forall_mem_cons.1 hpiece
      rw [List.flatMap_cons, List.append_assoc, List.map_cons]
      refine .more (hread _) ?_ (ih hpieces)
      have hlength := List.length_pos_iff.2 hne
      simp only [List.length_append]
      omega

/-! ### Blanks, comments and line ends -/

/-- Whether a character ends a run of blanks, line ends and comments. -/
def isInk (c : Char) : Bool := !isBlank c && c != '#' && c != '\n' && c != '\x0d'

/-- Blanks are taken up to something else. -/
theorem blanks_append (run : List Char) (hrun : ∀ c ∈ run, isBlank c = true)
    (hrest : ∀ c ∈ rest.head?, isBlank c = false) : blanks (run ++ rest) = some ((), rest) := by
  rw [blanks, bind_eq (takeWhile_append hrun hrest)]
  rfl

/-- Blanks may be missing, and then nothing is taken. -/
theorem blanks_eq (hrest : ∀ c ∈ rest.head?, isBlank c = false) :
    blanks rest = some ((), rest) :=
  blanks_append [] (by simp) hrest

/-- A line end is taken. -/
theorem newline_cons (rest : List Char) : newline ('\n' :: rest) = some (true, rest) := by
  rw [newline, anyOf, bind_eq (literal_cons (c := '\n') rfl rest)]
  rfl

/-- Where neither of the two line ends comes first, none is taken. A carriage return alone would not
be one, but it does not come first here either. -/
theorem newline_of_head (hn : s.head? ≠ some '\n') (hr : s.head? ≠ some '\x0d') :
    newline s = some (false, s) := by
  rw [newline, anyOf, bind_eq (literal_of_head (c := '\n') rfl hn)]
  show anyOf ["\x0d\n"] s = _
  rw [anyOf, bind_eq (literal_of_head (c := '\x0d') rfl hr)]
  rfl

/-- A comment starts with `#` and nothing else does. -/
theorem comment_of_head (h : s.head? ≠ some '#') : comment s = some (false, s) := by
  rw [comment, bind_eq (literal_of_head (c := '#') rfl h)]
  rfl

/-- A line that has to end here does. -/
theorem endOfLine_cons (rest : List Char) : endOfLine ('\n' :: rest) = some ((), rest) := by
  rw [endOfLine, bind_eq (newline_cons rest)]
  rfl

/-- The rest of a line is nothing but its end. -/
theorem restOfLine_cons (rest : List Char) : restOfLine ('\n' :: rest) = some ((), rest) := by
  rw [restOfLine, bind_eq (blanks_eq (forall_head?_cons (by decide) rest)),
    bind_eq (comment_of_head (by simp)), endOfLine_cons]

/-- What ends such a run is no blank. -/
theorem isBlank_of_ink (h : ∀ c ∈ rest.head?, isInk c = true) :
    ∀ c ∈ rest.head?, isBlank c = false := by
  intro c hc
  have hink := h c hc
  simp only [isInk, Bool.and_eq_true, Bool.not_eq_true'] at hink
  exact hink.1.1.1

/-- What ends such a run is none of the characters in it. -/
theorem head?_ne_of_ink (h : ∀ c ∈ rest.head?, isInk c = true) {c : Char}
    (hc : isInk c = false) : rest.head? ≠ some c := by
  intro heq
  rw [h c heq] at hc
  cases hc

/-- One round of `gap`: a comment or nothing, a line end, and the blanks after it. -/
def gapRound : Scan (Option Unit) := do
  if ← comment then require (← newline); blanks; return some ()
  else if ← newline then blanks; return some ()
  else return none

/-- A round in front of ink takes nothing, and so is the last one. -/
theorem gapRound_of_ink (h : ∀ c ∈ rest.head?, isInk c = true) :
    gapRound rest = some (none, rest) := by
  rw [gapRound, bind_eq (comment_of_head (head?_ne_of_ink h (by decide)))]
  show (newline >>= _) rest = _
  rw [bind_eq (newline_of_head (head?_ne_of_ink h (by decide)) (head?_ne_of_ink h (by decide)))]
  rfl

/-- Nothing is taken where no blank, line end or comment is at the front. -/
theorem gap_eq (h : ∀ c ∈ rest.head?, isInk c = true) : gap rest = some ((), rest) := by
  have hrounds : Rounds gapRound rest [] rest := .done (gapRound_of_ink h)
  -- `gap` holds its round inline, so it is shown with `gapRound` in its place.
  show (blanks >>= fun _ => many gapRound >>= fun _ => pure ()) rest = _
  rw [bind_eq (blanks_eq (isBlank_of_ink h)), bind_eq hrounds.many_eq]
  rfl

/-- A line end with blanks after it is taken. -/
theorem gap_newline (run : List Char) (hrun : ∀ c ∈ run, isBlank c = true)
    (h : ∀ c ∈ rest.head?, isInk c = true) :
    gap ('\n' :: (run ++ rest)) = some ((), rest) := by
  -- One round takes the line break and the blanks behind it.
  have hround : gapRound ('\n' :: (run ++ rest)) = some (some (), rest) := by
    rw [gapRound, bind_eq (comment_of_head (by simp))]
    show (newline >>= _) _ = _
    rw [bind_eq (newline_cons _)]
    show (blanks >>= _) _ = _
    rw [bind_eq (blanks_append run hrun (isBlank_of_ink h))]
    rfl
  have hlt : rest.length < ('\n' :: (run ++ rest)).length := by
    simp only [List.length_cons, List.length_append]
    omega
  have hrounds : Rounds gapRound ('\n' :: (run ++ rest)) [()] rest :=
    .more hround hlt (.done (gapRound_of_ink h))
  show (blanks >>= fun _ => many gapRound >>= fun _ => pure ()) _ = _
  rw [bind_eq (blanks_eq (forall_head?_cons (by decide) _)), bind_eq hrounds.many_eq]
  rfl

end EntityDiagram.Toml.Scan
